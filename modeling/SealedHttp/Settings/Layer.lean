import SealedHttp.Body.JsonReader
import SealedHttp.Settings.EnvFile
import SealedHttp.Settings.Toml

/-!
# Layers of settings

Settings come from the environment and from a file. Each source is a layer, and the first layer that
has a key decides. A key that is written as a path into a table makes a table of the setting that
the path begins with.
-/

namespace SealedHttp

inductive SettingsError where
  | malformed (file : String)
  /-- A setting has a value that it cannot have. -/
  | unusable (key : String)
  deriving DecidableEq, Repr

def SettingsError.message : SettingsError → String
  | malformed file => "cannot read " ++ file
  | unusable key => "invalid value for key " ++ key

/-- The settings of one source, of which the last one of each key counts. -/
abbrev Layer := List (String × Setting)

namespace SettingPath

def isNameChar (c : Char) : Bool := c.isAlphanum || c = ' ' || c = '_' || c = '-'

def index? (cs : List Char) : Option (List Char) :=
  let (negative, cs) := Toml.sign (Toml.skipSpaces cs)
  let ds := cs.takeWhile Char.isDigit
  match Toml.skipSpaces (cs.dropWhile Char.isDigit) with
  | ']' :: rest =>
    let greatest := if negative then Decimal.halfWord else Decimal.halfWord - 1
    (Decimal.read? greatest ds).map fun _ => rest
  | _ => none

/-- Whether a text continues a path up to its end, in at most `fuel` parts. -/
def continues : (fuel : Nat) → List Char → Bool
  | _, [] => true
  | fuel + 1, '.' :: cs =>
    !(cs.takeWhile isNameChar).isEmpty && continues fuel (cs.dropWhile isNameChar)
  | fuel + 1, '[' :: cs =>
    match index? cs with
    | some rest => continues fuel rest
    | none => false
  | _, _ => false

def root? (key : String) : Option String :=
  let name := key.toList.takeWhile isNameChar
  let rest := key.toList.dropWhile isNameChar
  if name.isEmpty || rest.isEmpty || !continues rest.length rest then none
  else some (String.ofList name)

end SettingPath

namespace Layer

def entry (key : String) (v : Setting) : String × Setting :=
  match SettingPath.root? key with
  | some root => (root, .compound)
  | none => (key, v)

def find? (key : String) (l : Layer) : Option Setting := l.reverse.lookup key

/-- A character in lower case, as far as that is ASCII; the Kelvin sign is a capital `k`, too. -/
def lowerChar (c : Char) : Char := if c.toNat = 0x212A then 'k' else c.toLower

def variableMark : List Char := "sheath_".toList

def ofEnvironment (vars : EnvFile.Variables) : Layer :=
  vars.filterMap fun (name, value) =>
    let name := name.toList.map lowerChar
    if variableMark.isPrefixOf name then
      some (entry (String.ofList (name.drop variableMark.length)) (.text value))
    else none

/-- The value of a setting in a JSON file. Integers beyond 64 bits with a sign become doubles. -/
def settingOf : Value → Setting
  | .null => .nothing
  | .bool b => .flag b
  | .int n => if n < Decimal.halfWord then .whole n else .fraction (Double.ofRatio false n.toNat 1)
  | .double d => .fraction d
  | .text s => .text s
  | .array _ | .object _ => .compound

def ofJson? (text : String) : Option Layer :=
  match Json.read .any (Bytes.ofText text) with
  | .ok (.object fields) => some (fields.map fun (key, v) => entry key (settingOf v))
  | _ => none

def ofToml? (text : String) : Option Layer :=
  (Toml.settings? text).map fun l => l.map fun (key, v) => entry key v

end Layer

abbrev Files := List (String × String)

namespace Files

def find? (name : String) (files : Files) : Option String := List.lookup name files

/-- The settings of the configuration file, none if there is no such file. A file without an
extension hides those with one, and cannot be read. -/
def settings (files : Files) : Except SettingsError Layer :=
  let layer (name : String) (l : Option Layer) : Except SettingsError Layer :=
    match l with
    | some l => .ok l
    | none => .error (.malformed name)
  if (files.find? "config").isSome then .ok []
  else match files.find? "config.toml" with
  | some text => layer "config.toml" (Layer.ofToml? text)
  | none =>
    match files.find? "config.json" with
    | some text => layer "config.json" (Layer.ofJson? text)
    | none => .ok []

def environment (files : Files) (vars : EnvFile.Variables) : EnvFile.Variables :=
  match files.find? ".env" with
  | some text => EnvFile.load vars text
  | none => vars

end Files
end SealedHttp
