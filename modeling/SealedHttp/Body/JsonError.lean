import SealedHttp.Bytes

/-!
# What is wrong with a JSON text

Each cause belongs to one of three categories: the text ends too early, it breaks the grammar, or it
holds something else than expected. The place of a fault is given by what was unread.
-/

namespace SealedHttp.Json

inductive Cause where
  | eofInList
  | eofInObject
  | eofInString
  | eofInValue
  | expectedColon
  | expectedListEnd
  | expectedObjectEnd
  | expectedIdent
  | expectedValue
  | invalidEscape
  | invalidNumber
  | numberOutOfRange
  | invalidCodePoint
  | controlCharacter
  | keyNotString
  | loneSurrogate
  | trailingComma
  | trailingCharacters
  | endOfHexEscape
  | tooDeep
  | mismatch
  deriving DecidableEq, Repr

inductive Category where
  | grammar
  | ended
  | data
  deriving DecidableEq, Repr

def Category.name : Category → String
  | .grammar => "syntax"
  | .ended => "eof"
  | .data => "data"

def Cause.category : Cause → Category
  | eofInList | eofInObject | eofInString | eofInValue => .ended
  | mismatch => .data
  | _ => .grammar

def Cause.message : Cause → String
  | eofInList => "EOF while parsing a list"
  | eofInObject => "EOF while parsing an object"
  | eofInString => "EOF while parsing a string"
  | eofInValue => "EOF while parsing a value"
  | expectedColon => "expected `:`"
  | expectedListEnd => "expected `,` or `]`"
  | expectedObjectEnd => "expected `,` or `\x7d`"
  | expectedIdent => "expected ident"
  | expectedValue => "expected value"
  | invalidEscape => "invalid escape"
  | invalidNumber => "invalid number"
  | numberOutOfRange => "number out of range"
  | invalidCodePoint => "invalid unicode code point"
  | controlCharacter => "control character (\\u0000-\\u001F) found while parsing a string"
  | keyNotString => "key must be a string"
  | loneSurrogate => "lone leading surrogate in hex escape"
  | trailingComma => "trailing comma"
  | trailingCharacters => "trailing characters"
  | endOfHexEscape => "unexpected end of hex escape"
  | tooDeep => "recursion limit exceeded"
  | mismatch => "invalid type"

/-- A cause and how many bytes are unread where it shows. -/
structure Fault where
  cause : Cause
  unread : Nat
  deriving DecidableEq, Repr

def Fault.here (cause : Cause) (rest : Bytes) : Fault := ⟨cause, rest.length⟩

def Fault.ahead (cause : Cause) (rest : Bytes) : Fault := ⟨cause, rest.length - 1⟩

end SealedHttp.Json

namespace SealedHttp

structure JsonError where
  cause : Json.Cause
  line : Nat
  column : Nat
  deriving DecidableEq, Repr

/-- Places a fault: lines count from one, columns count the bytes of the line up to the fault. -/
def JsonError.ofFault (whole : Bytes) (f : Json.Fault) : JsonError :=
  let read := whole.take (whole.length - f.unread)
  let column := (read.reverse.takeWhile (· ≠ 10)).length
  ⟨f.cause, read.count 10 + 1, column⟩

def JsonError.message (e : JsonError) : String :=
  let cause := e.cause.message
  s!"{cause} at line {e.line} column {e.column}"

end SealedHttp
