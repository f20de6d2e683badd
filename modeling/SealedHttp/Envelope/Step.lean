/-!
# Sealing steps

A chain is a text with one code per step, in the order of application. A chain with any other
character in it is no chain.
-/

namespace SealedHttp

inductive SealStep where
  | aes
  | base64
  /-- AES with a fresh key that travels along, sealed with RSA. -/
  | hybrid
  | rsa
  | hex
  deriving DecidableEq, Repr

namespace SealStep

def code : SealStep → Char
  | aes => 'a'
  | base64 => 'b'
  | hybrid => 'c'
  | rsa => 'r'
  | hex => 'h'

def ofCode? (c : Char) : Option SealStep :=
  if c = 'a' then some aes
  else if c = 'b' then some base64
  else if c = 'c' then some hybrid
  else if c = 'r' then some rsa
  else if c = 'h' then some hex
  else none

theorem ofCode?_code (s : SealStep) : ofCode? s.code = some s := by cases s <;> rfl

/-- The steps of a chain, or the first character that names none. -/
def parseList : List Char → Except Char (List SealStep)
  | [] => .ok []
  | c :: cs =>
    match ofCode? c with
    | none => .error c
    | some s => (parseList cs).map (s :: ·)

def parse (chain : String) : Except Char (List SealStep) := parseList chain.toList

end SealStep
end SealedHttp
