import SealedHttp.Body.CborHead

/-!
# Reading CBOR

One item is read and what follows it does not matter. Lengths may be open. Infinities, numbers that
are none and `undefined` are read as null; tags and byte strings have no place in a value. The first
name of an object must be a short text of definite length, the later ones any text.
-/

namespace SealedHttp.Cbor

/-- The longest text that may be the first name of an object. -/
def maxFirstName : Nat := 4096

def piece (length : Nat) (bs : Bytes) : Except Fault (Bytes × Bytes) :=
  match Bytes.split? length bs with
  | some p => .ok p
  | none => .error .ended

def utf8 (offset : Nat) (bs : Bytes) : Except Fault (List Char) :=
  match Utf8.decodeFrom 0 bs with
  | .ok cs => .ok cs
  | .error _ => .error (.malformed offset)

/-- Reads the texts up to a stop; `depth` stops are missing. -/
def openText (total : Nat) : (fuel depth : Nat) → (done : List Char) → Bytes →
    Except Fault (List Char × Bytes)
  | 0, _, _, _ => .error .ended
  | fuel + 1, depth, done, bs => do
    let offset := total - bs.length
    match ← head total bs with
    | (.text none, rest) => openText total fuel (depth + 1) done rest
    | (.text (some n), rest) => do
      let (bytes, rest) ← piece n rest
      openText total fuel depth (done ++ (← utf8 (total - rest.length) bytes)) rest
    | (.stop, rest) =>
      if depth ≤ 1 then .ok (done, rest) else openText total fuel (depth - 1) done rest
    | _ => .error (.malformed offset)

def text (total offset : Nat) (length : Option Nat) (bs : Bytes) :
    Except Fault (String × Bytes) :=
  match length with
  | some n => do
    let (bytes, rest) ← piece n bs
    .ok (String.ofList (← utf8 offset bytes), rest)
  | none => do
    let (cs, rest) ← openText total (bs.length + 1) 1 [] bs
    .ok (String.ofList cs, rest)

def untagged (total : Nat) : (fuel : Nat) → Bytes → Except Fault (Head × Bytes)
  | 0, _ => .error .ended
  | fuel + 1, bs => do
    match ← head total bs with
    | (.tag _, rest) => untagged total fuel rest
    | p => .ok p

/-- Reads a name; the first one is held to a stricter form. -/
def name (total : Nat) (first : Bool) (bs : Bytes) : Except Fault (String × Bytes) := do
  let offset := total - bs.length
  match ← untagged total (bs.length + 1) bs with
  | (.text (some n), rest) =>
    if first && maxFirstName < n then .error (.mismatch "string" "str")
    else text total offset (some n) rest
  | (.text none, rest) =>
    if first then .error (.mismatch "string" "str") else text total offset none rest
  | (h, _) => .error (.mismatch h.describe (if first then "str" else "string"))

/-- Whether a container goes on. A known count is told how many are left; otherwise a stop is looked
for. -/
def more (total : Nat) (left : Option Nat) (bs : Bytes) : Except Fault (Bool × Bytes) :=
  match left with
  | some 0 => .ok (false, bs)
  | some _ => .ok (true, bs)
  | none =>
    match head total bs with
    | .error e => .error e
    | .ok (.stop, rest) => .ok (false, rest)
    | .ok _ => .ok (true, bs)

def anyValue : String := "any valid JSON value"

mutual

/-- Reads one value; `depth` more containers may be opened. -/
def value (total : Nat) : (fuel depth : Nat) → Bytes → Except Fault (Value × Bytes)
  | 0, _, _ => .error .ended
  | fuel + 1, depth, bs =>
    match head total bs with
    | .error e => .error e
    | .ok (.positive n, rest) => .ok (.int n, rest)
    | .ok (.negative n, rest) =>
      if n < 0x8000000000000000 then .ok (.int (-1 - n), rest)
      else .error (.other "JSON number out of range")
    | .ok (.float d, rest) => .ok (if d.isFinite then .double d else .null, rest)
    | .ok (.simple 20, rest) => .ok (.bool false, rest)
    | .ok (.simple 21, rest) => .ok (.bool true, rest)
    | .ok (.simple 22, rest) => .ok (.null, rest)
    | .ok (.simple 23, rest) => .ok (.null, rest)
    | .ok (.text n, rest) =>
      (text total (total - bs.length) n rest).map fun (s, rest) => (.text s, rest)
    | .ok (.array n, rest) =>
      if depth = 0 then .error .tooDeep else items total fuel (depth - 1) n [] rest
    | .ok (.map n, rest) =>
      if depth = 0 then .error .tooDeep else fields total fuel (depth - 1) n true [] rest
    | .ok (.bytes _, _) => .error (.mismatch "byte array" anyValue)
    | .ok (.tag _, _) => .error (.mismatch "enum" anyValue)
    | .ok (.simple n, _) => .error (.mismatch (Head.simple n).describe "known simple value")
    | .ok (.stop, _) => .error (.mismatch Head.stop.describe "non-break")

/-- Reads the items of an array; those in `done` come before, last first. -/
def items (total : Nat) : (fuel depth : Nat) → (left : Option Nat) → (done : List Value) → Bytes →
    Except Fault (Value × Bytes)
  | 0, _, _, _, _ => .error .ended
  | fuel + 1, depth, left, done, bs =>
    match more total left bs with
    | .error e => .error e
    | .ok (false, rest) => .ok (.array done.reverse, rest)
    | .ok (true, bs) =>
      match value total fuel depth bs with
      | .error e => .error e
      | .ok (v, rest) => items total fuel depth (left.map (· - 1)) (v :: done) rest

def fields (total : Nat) : (fuel depth : Nat) → (left : Option Nat) → (first : Bool) →
    (done : List (String × Value)) → Bytes → Except Fault (Value × Bytes)
  | 0, _, _, _, _, _ => .error .ended
  | fuel + 1, depth, left, first, done, bs =>
    match more total left bs with
    | .error e => .error e
    | .ok (false, rest) => .ok (Value.ofFields done.reverse, rest)
    | .ok (true, bs) =>
      match name total first bs with
      | .error e => .error e
      | .ok (n, rest) =>
        match value total fuel depth rest with
        | .error e => .error e
        | .ok (v, rest) => fields total fuel depth (left.map (· - 1)) false ((n, v) :: done) rest

end

/-- How many arrays and objects may be open at once. -/
def maxDepth : Nat := 256

def smallInteger (total : Nat) (bs : Bytes) : Except Fault (Value × Bytes) := do
  let small (n : Int) (rest : Bytes) : Except Fault (Value × Bytes) :=
    if isSmallInteger n then .ok (.int n, rest)
    else .error (.other s!"invalid value: integer `{n}`, expected i32")
  match ← untagged total (bs.length + 1) bs with
  | (.positive n, rest) => small n rest
  | (.negative n, rest) => small (-1 - n) rest
  | (h, _) => .error (.mismatch h.describe "integer")

def smallFields (total : Nat) : (fuel : Nat) → (left : Option Nat) →
    (done : List (String × Value)) → Bytes → Except Fault Value
  | 0, _, _, _ => .error .ended
  | fuel + 1, left, done, bs =>
    match more total left bs with
    | .error e => .error e
    | .ok (false, _) => .ok (Value.ofFields done.reverse)
    | .ok (true, bs) =>
      match name total false bs with
      | .error e => .error e
      | .ok (n, rest) =>
        match smallInteger total rest with
        | .error e => .error e
        | .ok (v, rest) => smallFields total fuel (left.map (· - 1)) ((n, v) :: done) rest

def smallIntegers (bs : Bytes) : Except Fault Value := do
  match ← untagged bs.length (bs.length + 1) bs with
  | (.map n, rest) => smallFields bs.length (bs.length + 1) n [] rest
  | (h, _) => .error (.mismatch h.describe "map")

def read (shape : Shape) (bs : Bytes) : Except Fault Value :=
  match shape with
  | .any => (value bs.length (2 * bs.length + 2) maxDepth bs).map (·.1)
  | .smallIntegers => smallIntegers bs

end SealedHttp.Cbor
