import SealedHttp.Compression.DeflateCode
import SealedHttp.Compression.Token

/-!
# Unpacking deflate streams

A stream is a sequence of blocks, stored or coded, the last of which is marked. Unpacking stops with
`overLimit` as soon as the output exceeds the limit, whatever would follow.
-/

set_option linter.unusedVariables false

namespace SealedHttp.Inflate

open DeflateCode

inductive Stop where
  | malformed (reason : String)
  | overLimit
  deriving DecidableEq, Repr

def truncated : Stop := .malformed "unexpected end of data"

inductive Item where
  | token (t : Token)
  | endOfBlock

def inRange (ranges : Array (Nat × Nat)) (k : Nat) (r : BitReader) :
    Except Stop (Nat × BitReader) :=
  match ranges[k]? with
  | none => .error (.malformed "invalid symbol")
  | some (base, extra) =>
    match r.bits extra with
    | none => .error truncated
    | some (v, r) => .ok (base + v, r)

theorem size_of_inRange {ranges : Array (Nat × Nat)} {k v : Nat} {r r' : BitReader}
    (h : inRange ranges k r = .ok (v, r')) : r'.size ≤ r.size := by
  unfold inRange at h
  split at h
  · cases h
  · split at h
    · cases h
    · next hb =>
      simp only [Except.ok.injEq, Prod.mk.injEq] at h
      obtain ⟨-, rfl⟩ := h
      have := BitReader.size_of_bits hb
      omega

def symbol (t : HuffmanTable) (r : BitReader) : Except Stop (Nat × BitReader) :=
  match t.decode r with
  | .error reason => .error (.malformed reason)
  | .ok p => .ok p

theorem size_of_symbol {t : HuffmanTable} {r r' : BitReader} {s : Nat}
    (h : symbol t r = .ok (s, r')) : r'.size < r.size := by
  unfold symbol at h
  split at h
  · cases h
  · next hd =>
    simp only [Except.ok.injEq] at h
    exact HuffmanTable.size_of_decode (h ▸ hd)

def item (codes : Codes) (r : BitReader) : Except Stop (Item × BitReader) :=
  match symbol codes.literals r with
  | .error e => .error e
  | .ok (s, r) =>
    if s < 256 then .ok (.token (.literal (UInt8.ofNat s)), r)
    else if s = 256 then .ok (.endOfBlock, r)
    else match inRange lengthRanges (s - 257) r with
    | .error e => .error e
    | .ok (length, r) =>
      match symbol codes.distances r with
      | .error e => .error e
      | .ok (d, r) =>
        match inRange distanceRanges d r with
        | .error e => .error e
        | .ok (distance, r) => .ok (.token (.copy length distance), r)

theorem size_of_item {codes : Codes} {r r' : BitReader} {i : Item}
    (h : item codes r = .ok (i, r')) : r'.size < r.size := by
  unfold item at h
  split at h
  · cases h
  · next hs =>
    have h₁ := size_of_symbol hs
    split at h
    · simp only [Except.ok.injEq, Prod.mk.injEq] at h
      exact h.2 ▸ h₁
    · split at h
      · simp only [Except.ok.injEq, Prod.mk.injEq] at h
        exact h.2 ▸ h₁
      · split at h
        · cases h
        · next hl =>
          have h₂ := size_of_inRange hl
          split at h
          · cases h
          · next hd =>
            have h₃ := size_of_symbol hd
            split at h
            · cases h
            · next hr =>
              have h₄ := size_of_inRange hr
              simp only [Except.ok.injEq, Prod.mk.injEq] at h
              obtain ⟨-, rfl⟩ := h
              omega

def emit (limit : Nat) (t : Token) (out : Array UInt8) : Except Stop (Array UInt8) :=
  match t with
  | .literal b =>
    if limit < out.size + 1 then .error .overLimit else .ok (out.push b)
  | .copy length distance =>
    if out.size < distance then .error (.malformed "distance too far back")
    else if limit < out.size + length then .error .overLimit
    else .ok (Token.copyBack distance length out)

def codedBlock (codes : Codes) (limit : Nat) (r : BitReader) (out : Array UInt8) :
    Except Stop (Array UInt8 × BitReader) :=
  match h : item codes r with
  | .error e => .error e
  | .ok (.endOfBlock, r) => .ok (out, r)
  | .ok (.token t, r') =>
    match emit limit t out with
    | .error e => .error e
    | .ok out => codedBlock codes limit r' out
termination_by r.size
decreasing_by exact size_of_item h

theorem size_of_codedBlock {codes : Codes} {limit : Nat} {r r' : BitReader}
    {out out' : Array UInt8} (h : codedBlock codes limit r out = .ok (out', r')) :
    r'.size < r.size := by
  fun_induction codedBlock codes limit r out with
  | case1 => cases h
  | case2 out r r₁ hi =>
    simp only [Except.ok.injEq, Prod.mk.injEq] at h
    exact h.2 ▸ size_of_item hi
  | case3 => cases h
  | case4 out r t r₁ hi out₁ he ih => exact Nat.lt_trans (ih h) (size_of_item hi)

/-- Unpacks a stored block: its length, the complement of its length, the bytes. -/
def storedBlock (limit : Nat) (r : BitReader) (out : Array UInt8) :
    Except Stop (Array UInt8 × BitReader) :=
  match r.rest with
  | a :: b :: c :: d :: rest =>
    let length := a.toNat + 256 * b.toNat
    if length + c.toNat + 256 * d.toNat ≠ 65535 then
      .error (.malformed "stored length does not match its complement")
    else
      let bytes := rest.take length
      if limit < out.size + bytes.length then .error .overLimit
      else if bytes.length < length then .error truncated
      else .ok (out ++ bytes, .ofBytes (rest.drop length))
  | _ => .error truncated

theorem size_of_storedBlock {limit : Nat} {r r' : BitReader} {out out' : Array UInt8}
    (h : storedBlock limit r out = .ok (out', r')) : r'.size ≤ r.size := by
  unfold storedBlock at h
  split at h
  · next a b c d rest hr =>
    dsimp only at h
    split at h
    · cases h
    · split at h
      · cases h
      · split at h
        · cases h
        · simp only [Except.ok.injEq, Prod.mk.injEq] at h
          obtain ⟨-, rfl⟩ := h
          simp only [BitReader.ofBytes, BitReader.size, hr, List.length_nil, List.length_drop,
            List.length_cons]
          omega
  · cases h

def threeBits : (n : Nat) → BitReader → Except Stop (List Nat × BitReader)
  | 0, r => .ok ([], r)
  | n + 1, r =>
    match r.bits 3 with
    | none => .error truncated
    | some (v, r) =>
      match threeBits n r with
      | .error e => .error e
      | .ok (vs, r) => .ok (v :: vs, r)

def ordered (sent : List Nat) : List Nat :=
  (List.range 19).map fun symbol => ((lengthOrder.zip sent).lookup symbol).getD 0

/-- Reads the rest of a run of equal word lengths: how many there are and which. Symbol 16 repeats
the previous length, the others stand for zeros. -/
def repetition (s : Nat) (done : List Nat) (r : BitReader) :
    Except Stop (Nat × Nat × BitReader) :=
  let (base, extra, value) : Nat × Nat × Option Nat :=
    if s = 16 then (3, 2, done.head?)
    else if s = 17 then (3, 3, some 0)
    else (11, 7, some 0)
  match r.bits extra, value with
  | none, _ => .error truncated
  | some _, none => .error (.malformed "nothing to repeat")
  | some (v, r), some value => .ok (base + v, value, r)

theorem size_of_repetition {s count value : Nat} {done : List Nat} {r r' : BitReader}
    (h : repetition s done r = .ok (count, value, r')) : r'.size ≤ r.size := by
  unfold repetition at h
  dsimp only at h
  split at h
  · cases h
  · cases h
  · next hb _ =>
    cases h
    have := BitReader.size_of_bits hb
    omega

/-- Reads `missing` word lengths; those read so far are given last first. Symbols from 16 on stand
for runs, and no run may go past the end. -/
def wordLengths (t : HuffmanTable) (missing : Nat) (done : List Nat) (r : BitReader) :
    Except Stop (List Nat × BitReader) :=
  if missing = 0 then .ok (done.reverse, r)
  else match h : symbol t r with
  | .error e => .error e
  | .ok (s, r') =>
    if s < 16 then wordLengths t (missing - 1) (s :: done) r'
    else match hr : repetition s done r' with
    | .error e => .error e
    | .ok (count, value, r'') =>
      if missing < count then .error (.malformed "code lengths overrun")
      else wordLengths t (missing - count) (List.replicate count value ++ done) r''
termination_by r.size
decreasing_by
  · exact size_of_symbol h
  · exact Nat.lt_of_le_of_lt (size_of_repetition hr) (size_of_symbol h)

theorem size_of_wordLengths {t : HuffmanTable} {missing : Nat} {done ls : List Nat}
    {r r' : BitReader} (h : wordLengths t missing done r = .ok (ls, r')) : r'.size ≤ r.size := by
  fun_induction wordLengths t missing done r with
  | case1 =>
    cases h
    exact Nat.le_refl _
  | case2 => cases h
  | case3 missing done r hmissing s r₁ hs hshort ih =>
    exact Nat.le_of_lt (Nat.lt_of_le_of_lt (ih h) (size_of_symbol hs))
  | case4 => cases h
  | case5 => cases h
  | case6 missing done r hmissing s r₁ hs hlong count value r₂ hr hcount ih =>
    have := ih h
    have := size_of_symbol hs
    have := size_of_repetition hr
    omega

def blockCodes (r : BitReader) : Except Stop (Codes × BitReader) :=
  match r.bits 14 with
  | none => .error truncated
  | some (v, r) =>
    let literalCount := v % 32 + 257
    let distanceCount := v / 32 % 32 + 1
    let orderCount := v / 1024 + 4
    if 286 < literalCount ∨ 30 < distanceCount then .error (.malformed "too many symbols")
    else match threeBits orderCount r with
    | .error e => .error e
    | .ok (sent, r) =>
      let lengths := ordered sent
      if !HuffmanTable.isComplete lengths then .error (.malformed "incomplete code")
      else
        match wordLengths (HuffmanTable.ofLengths lengths) (literalCount + distanceCount) [] r with
      | .error e => .error e
      | .ok (all, r) =>
        match HuffmanTable.ofLengths? (all.take literalCount),
            HuffmanTable.ofLengths? (all.drop literalCount) with
        | some literals, some distances => .ok (⟨literals, distances⟩, r)
        | _, _ => .error (.malformed "over-subscribed or incomplete code")

theorem size_of_threeBits {n : Nat} {vs : List Nat} {r r' : BitReader}
    (h : threeBits n r = .ok (vs, r')) : r'.size ≤ r.size := by
  induction n generalizing r vs with
  | zero =>
    simp only [threeBits, Except.ok.injEq, Prod.mk.injEq] at h
    exact Nat.le_of_eq (congrArg BitReader.size h.2.symm)
  | succ n ih =>
    unfold threeBits at h
    split at h
    · cases h
    · next hb =>
      split at h
      · cases h
      · next ht =>
        simp only [Except.ok.injEq, Prod.mk.injEq] at h
        obtain ⟨-, rfl⟩ := h
        have := BitReader.size_of_bits hb
        have := ih ht
        omega

theorem size_of_blockCodes {codes : Codes} {r r' : BitReader}
    (h : blockCodes r = .ok (codes, r')) : r'.size ≤ r.size := by
  unfold blockCodes at h
  split at h
  · cases h
  · next hb =>
    have := BitReader.size_of_bits hb
    dsimp only at h
    split at h
    · cases h
    · split at h
      · cases h
      · next ht =>
        have := size_of_threeBits ht
        split at h
        · cases h
        · split at h
          · cases h
          · next hw =>
            have := size_of_wordLengths hw
            split at h
            · simp only [Except.ok.injEq, Prod.mk.injEq] at h
              obtain ⟨-, rfl⟩ := h
              omega
            · cases h

def block (kind limit : Nat) (r : BitReader) (out : Array UInt8) :
    Except Stop (Array UInt8 × BitReader) :=
  if kind = 0 then storedBlock limit r.align out
  else if kind = 1 then codedBlock fixedCodes limit r out
  else if kind = 2 then
    match blockCodes r with
    | .error e => .error e
    | .ok (codes, r) => codedBlock codes limit r out
  else .error (.malformed "invalid block type")

theorem size_of_block {kind limit : Nat} {r r' : BitReader} {out out' : Array UInt8}
    (h : block kind limit r out = .ok (out', r')) : r'.size ≤ r.size := by
  unfold block at h
  split at h
  · exact Nat.le_trans (size_of_storedBlock h) r.size_align_le
  · split at h
    · exact Nat.le_of_lt (size_of_codedBlock h)
    · split at h
      · split at h
        · cases h
        · next hb =>
          exact Nat.le_trans (Nat.le_of_lt (size_of_codedBlock h)) (size_of_blockCodes hb)
      · cases h

def blocks (limit : Nat) (r : BitReader) (out : Array UInt8) :
    Except Stop (Array UInt8 × BitReader) :=
  match hb : r.bits 3 with
  | none => .error truncated
  | some (v, r') =>
    match hk : block (v / 2) limit r' out with
    | .error e => .error e
    | .ok (out, r'') => if v % 2 = 1 then .ok (out, r'') else blocks limit r'' out
termination_by r.size
decreasing_by
  have := BitReader.size_of_bits hb
  have := size_of_block hk
  omega

def run (limit : Nat) (bs : Bytes) : Except Stop (Bytes × Bytes) :=
  match blocks limit (.ofBytes bs) #[] with
  | .error e => .error e
  | .ok (out, r) => .ok (out.toList, r.rest)

end SealedHttp.Inflate
