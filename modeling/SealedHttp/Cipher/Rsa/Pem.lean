import SealedHttp.Text.Base64
import SealedHttp.Text.Basic

/-!
# Labelled armor

A key file is one block of base64 lines between two boundary lines with the same label. All lines
but the last have the width of the first, and nothing but one line end follows the block.
-/

namespace SealedHttp.Pem

def beginMark : Bytes := Bytes.ofText "-----BEGIN "

def endMark : Bytes := Bytes.ofText "-----END "

def dashes : Bytes := Bytes.ofText "-----"

/-- Drops everything before the block, which starts at the beginning of a line. -/
def skipPreamble (bs : Bytes) : Option Bytes :=
  if beginMark.isPrefixOf bs then some bs else go bs
where
  go : Bytes → Option Bytes
    | [] => none
    | b :: rest =>
      if b = 0 then none
      else if b = 10 ∧ beginMark.isPrefixOf rest then some rest
      else go rest

/-- The reverse of a line end, dropped from the front. -/
def dropEndReversed : Bytes → Option Bytes
  | 10 :: 13 :: rest => some rest
  | 10 :: rest => some rest
  | 13 :: rest => some rest
  | _ => none

def dropLineEnd : Bytes → Option Bytes
  | 13 :: 10 :: rest => some rest
  | 10 :: rest => some rest
  | 13 :: rest => some rest
  | _ => none

def dropReversed (suffix bs : Bytes) : Option Bytes :=
  if suffix.reverse.isPrefixOf bs then some (bs.drop suffix.length) else none

/-- Cuts text into lines of `width` bytes, the last of which may be shorter. -/
def unwrap (width : Nat) (bs : Bytes) : Option Bytes :=
  if bs.length ≤ width then some bs
  else
    match _h : dropLineEnd (bs.drop width) with
    | none => none
    | some rest => (unwrap width rest).map (bs.take width ++ ·)
termination_by bs.length
decreasing_by
  have : rest.length < (bs.drop width).length := by
    unfold dropLineEnd at _h
    split at _h <;> simp only [Option.some.injEq, reduceCtorEq] at _h <;>
      simp only [*, List.length_cons] <;> omega
  rw [List.length_drop] at this
  omega

def decode? (text : String) : Option (Bytes × Bytes) := do
  let bs ← skipPreamble (Bytes.ofText text)
  let afterMark := bs.drop beginMark.length
  let label := afterMark.takeWhile (· ≠ 45)
  let body := afterMark.drop label.length
  if !dashes.isPrefixOf body then none
  else
    let body ← dropLineEnd (body.drop dashes.length)
    let reversed := body.reverse
    let reversed := (dropEndReversed reversed).getD reversed
    let reversed ← dropReversed dashes reversed
    let reversed ← dropReversed label reversed
    let reversed ← dropReversed endMark reversed
    let lines ← (← dropEndReversed reversed).reverse
    let width := (lines.takeWhile fun b => b ≠ 10 ∧ b ≠ 13).length
    let armor ← unwrap width lines
    match Base64.decode armor with
    | .ok content => some (label, content)
    | .error _ => none

def content? (label text : String) : Option Bytes :=
  match decode? text with
  | some (found, content) => if found = Bytes.ofText label then some content else none
  | none => none

end SealedHttp.Pem
