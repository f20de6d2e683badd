import SealedHttp.Text.Basic

/-!
# Files of environment variables

One variable a line, as `NAME=value`, perhaps behind the word `export`. Values may be quoted, and
outside of single quotes a dollar sign in front of a name stands for the value of a variable. A
variable that is set already keeps its value. Reading stops at the first line that makes no sense.
-/

namespace SealedHttp.EnvFile

abbrev Variables := List (String × String)

def find? (name : String) (vars : Variables) : Option String := vars.lookup name

inductive Mode where
  | plain
  | singleQuoted
  | doubleQuoted
  | escaped (doubleQuoted : Bool)
  /-- Behind a dollar sign, with the characters of the name so far, last first. -/
  | name (doubleQuoted : Bool) (done : List Char)
  | braced (doubleQuoted : Bool) (done : List Char)
  | ended
  | comment

/-- The state of reading a value: its characters so far, last first. -/
structure Reading where
  mode : Mode := .plain
  done : List Char := []

def Mode.resume (doubleQuoted : Bool) : Mode := if doubleQuoted then .doubleQuoted else .plain

def substitute (vars : Variables) (name : List Char) : List Char :=
  ((find? (String.ofList name.reverse) vars).getD "").toList

/-- Whether a character may belong to the name behind a dollar sign; only ASCII names are known. -/
def isNameChar (c : Char) : Bool := c.isAlphanum || 0x80 ≤ c.toNat

def Reading.next (vars : Variables) (r : Reading) (c : Char) : Option Reading :=
  match r.mode with
  | .comment => some r
  | .ended =>
    if c = ' ' || c = '\t' then some r
    else if c = '#' then some { r with mode := .comment }
    else none
  | .escaped quoted =>
    if c = '\\' || c.toNat = 0x27 || c = '"' || c = '$' || c = ' ' then
      some ⟨.resume quoted, c :: r.done⟩
    else if c = 'n' then some ⟨.resume quoted, '\n' :: r.done⟩
    else none
  | .singleQuoted =>
    if c.toNat = 0x27 then some { r with mode := .plain } else some { r with done := c :: r.done }
  | .name quoted name =>
    if isNameChar c then some { r with mode := .name quoted (c :: name) }
    else if c.toNat = 0x7B && name.isEmpty then some { r with mode := .braced quoted [] }
    else
      let done := (substitute vars name).reverse ++ r.done
      if c = '$' then some ⟨.name quoted [], done⟩ else some ⟨.resume quoted, c :: done⟩
  | .braced quoted name =>
    if isNameChar c then some { r with mode := .braced quoted (c :: name) }
    else if c.toNat = 0x7D then some ⟨.resume quoted, (substitute vars name).reverse ++ r.done⟩
    else some { r with mode := .braced quoted (c :: name) }
  | .doubleQuoted =>
    if c = '$' then some { r with mode := .name true [] }
    else if c = '"' then some { r with mode := .plain }
    else if c = '\\' then some { r with mode := .escaped true }
    else some { r with done := c :: r.done }
  | .plain =>
    if c = '$' then some { r with mode := .name false [] }
    else if c.toNat = 0x27 then some { r with mode := .singleQuoted }
    else if c = '"' then some { r with mode := .doubleQuoted }
    else if c = '\\' then some { r with mode := .escaped false }
    else if c = ' ' || c = '\t' then some { r with mode := .ended }
    else some { r with done := c :: r.done }

/-- The value that was read. A quote or a brace must not be left open. -/
def Reading.finish (vars : Variables) (r : Reading) : Option String :=
  match r.mode with
  | .singleQuoted | .doubleQuoted | .escaped true | .name true _ | .braced _ _ => none
  | .name false name => some (String.ofList (r.done.reverse ++ substitute vars name))
  | _ => some (String.ofList r.done.reverse)

def value? (vars : Variables) (cs : List Char) : Option String :=
  (cs.foldlM (Reading.next vars) {}).bind (Reading.finish vars)

def name? : List Char → Option (String × List Char)
  | [] => none
  | c :: cs =>
    let isName (c : Char) : Bool := c.isAlphanum || c = '_' || c = '.'
    if c.isAlpha || c = '_' then
      some (String.ofList (c :: cs.takeWhile isName), (cs.dropWhile isName).dropWhile Text.isBlank)
    else none

def equals? : List Char → Option (List Char)
  | '=' :: cs => some (cs.dropWhile Text.isBlank)
  | _ => none

/-- Reads a line; there may be nothing on it. -/
def line? (vars : Variables) (line : List Char) : Option (Option (String × String)) :=
  match Text.trimList line with
  | [] => some none
  | '#' :: _ => some none
  | cs => do
    let (first, rest) ← name? cs
    let (name, rest) ←
      if first = "export" && (equals? rest).isNone then name? rest else some (first, rest)
    match ← equals? rest with
    | [] => some (some (name, ""))
    | '#' :: _ => some (some (name, ""))
    | rest => some (some (name, ← value? vars rest))

/-- Sets the variables of lines in addition to those of the environment. -/
def loadLines (vars : Variables) : List (List Char) → Variables
  | [] => vars
  | line :: lines =>
    match line? vars line with
    | none => vars
    | some none => loadLines vars lines
    | some (some (name, value)) =>
      loadLines (if (find? name vars).isSome then vars else vars ++ [(name, value)]) lines

def load (vars : Variables) (file : String) : Variables :=
  loadLines vars (Text.splitOn '\n' file.toList)

end SealedHttp.EnvFile
