import SealedHttp.Number.Positional
import SealedHttp.Text.Basic

/-!
# Settings as their sources give them

A source may give a setting in another type than the one it has. Texts stand for flags and numbers,
flags and numbers for each other, and everything but lists and tables for a text.
-/

namespace SealedHttp

inductive Setting where
  | text (s : String)
  | flag (b : Bool)
  | whole (n : Int)
  | fraction (d : Double)
  /-- The setting is mentioned without a value. -/
  | nothing
  /-- A list or a table, which no setting can be. -/
  | compound
  deriving DecidableEq, Repr, Inhabited

namespace Setting

def yesWords : List String := ["true", "on", "yes"]

def noWords : List String := ["false", "off", "no"]

def toNat? : Setting → Option Nat
  | text s =>
    let word := Text.lowerAscii s
    if yesWords.contains word then some 1
    else if noWords.contains word then some 0
    else Decimal.read? Decimal.maxWord s.toList
  | flag b => some b.toNat
  | whole n => if 0 ≤ n then some n.toNat else none
  | fraction d => some (d.toNatWithin Decimal.maxWord)
  | nothing | compound => none

def toBool? : Setting → Option Bool
  | text s =>
    let word := Text.lowerAscii s
    if word = "1" || yesWords.contains word then some true
    else if word = "0" || noWords.contains word then some false
    else none
  | flag b => some b
  | whole n => some (n ≠ 0)
  | fraction d => some (!d.isZero)
  | nothing | compound => none

def toText? : Setting → Option String
  | text s => some s
  | flag b => some (toString b)
  | whole n => some (toString n)
  | fraction d => some d.positional
  | nothing | compound => none

end Setting
end SealedHttp
