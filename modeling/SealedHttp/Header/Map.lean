import SealedHttp.Bytes
import SealedHttp.Text.Basic

/-!
# Header fields

A field has a name in lower case and a value, which is bytes. One name may have several values,
whose order counts. Only values of visible ASCII can be looked at as text.
-/

namespace SealedHttp

structure Headers where
  fields : List (String × Bytes)
  deriving DecidableEq, Repr

namespace Headers

def empty : Headers := ⟨[]⟩

/-- Bytes that may stand in a value: everything but controls, the tab excepted. -/
def isLegalByte (b : UInt8) : Bool := (0x20 ≤ b && b ≠ 0x7F) || b == 9

def isLegal (value : Bytes) : Bool := value.all isLegalByte

def values (h : Headers) (name : String) : List Bytes :=
  (h.fields.filter (·.1 = name)).map (·.2)

def get? (h : Headers) (name : String) : Option Bytes := (h.values name).head?

/-- A value as text, if it consists of visible ASCII. -/
def text? (value : Bytes) : Option String :=
  if value.all Text.isVisible then
    some (String.ofList (value.map fun b => Char.ofNat b.toNat))
  else none

def getText? (h : Headers) (name : String) : Option String := (h.get? name).bind text?

def append (h : Headers) (name : String) (value : Bytes) : Headers :=
  ⟨h.fields ++ [(name, value)]⟩

/-- Adds a legal value; any other is left out. -/
def appendLegal (h : Headers) (name : String) (value : Bytes) : Headers :=
  if isLegal value then h.append name value else h

def insert (h : Headers) (name : String) (value : Bytes) : Headers :=
  ⟨h.fields.filter (·.1 ≠ name) ++ [(name, value)]⟩

/-- Gives a name a single value if that is legal, and leaves it as it is otherwise. -/
def insertLegal (h : Headers) (name : String) (value : Bytes) : Headers :=
  if isLegal value then h.insert name value else h

end Headers

namespace HeaderName

def originalEncrypt : String := "original-encrypt"

def encryptKey : String := "encrypt-key"

def originalEncoding : String := "original-encoding"

def originalLength : String := "original-length"

def contentType : String := "content-type"
def forwardedFor : String := "x-forwarded-for"
def connection : String := "connection"
def userAgent : String := "user-agent"

end HeaderName
end SealedHttp
