import SealedHttp.Body.Value
import SealedHttp.Number.Shortest

/-!
# Writing JSON

No blanks, fields in the order of their names. Texts escape quotes, backslashes and controls, five
of these by letter; everything else is written as it is.
-/

namespace SealedHttp.Value

def hexDigit (n : Nat) : Char := Char.ofNat (if n < 10 then 48 + n else 87 + n)

def jsonChar (c : Char) : List Char :=
  if c = '"' then ['\\', '"']
  else if c = '\\' then ['\\', '\\']
  else if c.toNat = 8 then ['\\', 'b']
  else if c.toNat = 9 then ['\\', 't']
  else if c.toNat = 10 then ['\\', 'n']
  else if c.toNat = 12 then ['\\', 'f']
  else if c.toNat = 13 then ['\\', 'r']
  else if c.toNat < 32 then ['\\', 'u', '0', '0', hexDigit (c.toNat / 16), hexDigit (c.toNat % 16)]
  else [c]

def jsonString (s : String) : List Char := '"' :: s.toList.flatMap jsonChar ++ ['"']

mutual

def jsonChars : Value → List Char
  | null => "null".toList
  | bool true => "true".toList
  | bool false => "false".toList
  | int n => (toString n).toList
  | double d => d.text.toList
  | text s => jsonString s
  | array items => '[' :: jsonItems items ++ [']']
  | object fields => Char.ofNat 0x7B :: jsonFields fields ++ [Char.ofNat 0x7D]

def jsonItems : List Value → List Char
  | [] => []
  | [v] => jsonChars v
  | v :: w :: rest => jsonChars v ++ ',' :: jsonItems (w :: rest)

def jsonFields : List (String × Value) → List Char
  | [] => []
  | [(name, v)] => jsonString name ++ ':' :: jsonChars v
  | (name, v) :: w :: rest => jsonString name ++ ':' :: jsonChars v ++ ',' :: jsonFields (w :: rest)

end

def toJson (v : Value) : Bytes := v.jsonChars.flatMap String.utf8EncodeChar

end SealedHttp.Value
