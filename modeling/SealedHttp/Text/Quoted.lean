import SealedHttp.Text.Printable

/-!
# Quoted texts and characters

Error messages show foreign text in quotes. The quote in use, the backslash and the four named
controls are escaped with a backslash, characters without a glyph by their code point.
-/

namespace SealedHttp.Text

def hexDigits (n : Nat) : List Char := Nat.toDigits 16 n

def escaped (quote c : Char) : List Char :=
  if c.toNat = 0 then ['\\', '0']
  else if c = '\t' then ['\\', 't']
  else if c = '\r' then ['\\', 'r']
  else if c = '\n' then ['\\', 'n']
  else if c = quote || c = '\\' then ['\\', c]
  else if isPrintable c then [c]
  else ['\\', 'u', Char.ofNat 0x7B] ++ hexDigits c.toNat ++ [Char.ofNat 0x7D]

def quoted (s : String) : String :=
  String.ofList ('"' :: s.toList.flatMap (escaped '"') ++ ['"'])

def apostrophe : Char := Char.ofNat 0x27

def quotedChar (c : Char) : String :=
  String.ofList (apostrophe :: escaped apostrophe c ++ [apostrophe])

end SealedHttp.Text
