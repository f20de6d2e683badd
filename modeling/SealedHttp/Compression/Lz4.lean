import SealedHttp.Compression.Match

/-!
# LZ4 blocks

A sequence is a run of literals and a copy; the last sequence ends after its literals. The output
must fit into a buffer whose size is given beforehand.
-/

namespace SealedHttp.Lz4

inductive Stop where
  | malformed (reason : String)
  | full
  deriving DecidableEq, Repr

/-- Adds up the bytes that continue a length, up to the first that is not 255. -/
def extension (n : Nat) : Bytes → Option (Nat × Bytes)
  | [] => none
  | b :: rest => if b = 255 then extension (n + 255) rest else some (n + b.toNat, rest)

/-- A length with its first part `n` taken from half a byte. -/
def length? (n : Nat) (bs : Bytes) : Option (Nat × Bytes) :=
  if n = 15 then extension 15 bs else some (n, bs)

theorem length_of_extension {n v : Nat} {bs rest : Bytes}
    (h : extension n bs = some (v, rest)) : rest.length ≤ bs.length := by
  induction bs generalizing n with
  | nil => cases h
  | cons b bs ih =>
    unfold extension at h
    split at h
    · exact Nat.le_succ_of_le (ih h)
    · simp only [Option.some.injEq, Prod.mk.injEq] at h
      rw [← h.2]
      exact Nat.le_succ _

theorem length_of_length? {n v : Nat} {bs rest : Bytes}
    (h : length? n bs = some (v, rest)) : rest.length ≤ bs.length := by
  unfold length? at h
  split at h
  · exact length_of_extension h
  · simp only [Option.some.injEq, Prod.mk.injEq] at h
    exact Nat.le_of_eq (congrArg List.length h.2.symm)

/-- What one sequence leaves: the finished output, or the output so far and the bytes behind. -/
inductive Step where
  | done (out : Array UInt8)
  | more (out : Array UInt8) (rest : Bytes)

def copyPart (capacity low : Nat) (bs : Bytes) (out : Array UInt8) : Except Stop Step :=
  match bs with
  | a :: b :: rest =>
    let distance := a.toNat + 256 * b.toNat
    if distance = 0 then .error (.malformed "offset zero")
    else match length? low rest with
    | none => .error (.malformed "unexpected end of data")
    | some (n, rest) =>
      if capacity < out.size + (n + 4) then .error .full
      else if out.size < distance then .error (.malformed "offset out of bounds")
      else .ok (.more (Token.copyBack distance (n + 4) out) rest)
  | _ => .error (.malformed "unexpected end of data")

def sequence (capacity : Nat) (tag : UInt8) (bs : Bytes) (out : Array UInt8) :
    Except Stop Step :=
  match length? (tag.toNat / 16) bs with
  | none => .error (.malformed "unexpected end of data")
  | some (n, rest) =>
    match Bytes.split? n rest with
    | none => .error (.malformed "literals out of bounds")
    | some (literals, rest) =>
      if capacity < out.size + n then .error .full
      else if rest = [] then .ok (.done (out ++ literals))
      else copyPart capacity (tag.toNat % 16) rest (out ++ literals)

theorem length_of_sequence {capacity : Nat} {tag : UInt8} {bs rest : Bytes}
    {out out' : Array UInt8} (h : sequence capacity tag bs out = .ok (.more out' rest)) :
    rest.length ≤ bs.length := by
  unfold sequence at h
  split at h
  · cases h
  · next hl =>
    have := length_of_length? hl
    split at h
    · cases h
    · next n₁ rest₁ _ literals rest₂ hs =>
      have : rest₂.length ≤ rest₁.length := by
        unfold Bytes.split? at hs
        dsimp only at hs
        split at hs
        · simp only [Option.some.injEq, Prod.mk.injEq] at hs
          rw [← hs.2, List.length_drop]
          omega
        · cases hs
      split at h
      · cases h
      · split at h
        · cases h
        · unfold copyPart at h
          split at h
          · dsimp only at h
            split at h
            · cases h
            · split at h
              · cases h
              · next hm =>
                have := length_of_length? hm
                split at h
                · cases h
                · split at h
                  · cases h
                  · simp only [Except.ok.injEq, Step.more.injEq] at h
                    obtain ⟨-, rfl⟩ := h
                    simp only [List.length_cons] at *
                    omega
          · cases h

def sequences (capacity : Nat) (bs : Bytes) (out : Array UInt8) : Except Stop (Array UInt8) :=
  match bs with
  | [] => .error (.malformed "unexpected end of data")
  | tag :: rest =>
    match _h : sequence capacity tag rest out with
    | .error e => .error e
    | .ok (.done out) => .ok out
    | .ok (.more out rest') => sequences capacity rest' out
termination_by bs.length
decreasing_by
  have := length_of_sequence _h
  simp only [List.length_cons]
  omega

def unpack (capacity : Nat) (bs : Bytes) : Except Stop Bytes :=
  match sequences capacity bs #[] with
  | .error e => .error e
  | .ok out => .ok out.toList

def low (n : Nat) : Nat := min n 15

def high (n : Nat) : Bytes :=
  if n < 15 then [] else List.replicate ((n - 15) / 255) 255 ++ [UInt8.ofNat ((n - 15) % 255)]

def literals (bs : Bytes) : Bytes :=
  UInt8.ofNat (16 * low bs.length) :: high bs.length ++ bs

/-- The sequences of instructions; `run` holds the literals in front, last first, and `done` all
before them, last byte first. -/
def written (run done : Bytes) : List Token → Bytes
  | [] => ((literals run.reverse).reverse ++ done).reverse
  | .literal b :: tokens => written (b :: run) done tokens
  | .copy length distance :: tokens =>
    let n := run.length
    let part := UInt8.ofNat (16 * low n + low (length - 4)) :: high n ++ run.reverse ++
      Bytes.ofNatLittle distance 2 ++ high (length - 4)
    written [] (part.reverse ++ done) tokens

/-- The block with the copies that are found. -/
def found (bs : Bytes) : Bytes := written [] [] (Match.tokens ⟨65535, 65535⟩ bs)

/-- Packs bytes into a block: with copies if that is worth it, literals otherwise. -/
def pack (bs : Bytes) : Bytes :=
  if (found bs).length < bs.length then found bs else literals bs

end SealedHttp.Lz4
