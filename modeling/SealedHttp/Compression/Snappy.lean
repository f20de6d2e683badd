import SealedHttp.Compression.Match

/-!
# Snappy blocks

The length of the output as a variable-length number, then literals and copies. The declared length
is known before anything is unpacked, and the output must have exactly that length.
-/

namespace SealedHttp.Snappy

/-- Reads a number of seven bits a byte, low groups first, modulo `2 ^ 64`; the value read so far
occupies `shift` bits. -/
def lengthFrom (shift value : Nat) : Bytes → Option (Nat × Bytes)
  | [] => none
  | b :: rest =>
    if 64 ≤ shift then none
    else
      let value := value + ((b.toNat % 128) <<< shift) % 0x10000000000000000
      if b < 128 then some (value, rest) else lengthFrom (shift + 7) value rest

def declared? (bs : Bytes) : Option (Nat × Bytes) :=
  (lengthFrom 0 0 bs).filter (·.1 < 0x100000000)

inductive Element where
  | literal (bs rest : Bytes)
  | copy (length distance : Nat) (rest : Bytes)

/-- The element with the tag byte `tag`. A literal whose length is spelled out needs four bytes
behind its tag, however many the length takes. -/
def element? (tag : UInt8) (rest : Bytes) : Option Element :=
  let n := tag.toNat
  match n % 4 with
  | 0 =>
    let literal (length : Nat) (rest : Bytes) : Option Element :=
      (Bytes.split? length rest).map fun (bs, rest) => .literal bs rest
    if n / 4 < 60 then literal (n / 4 + 1) rest
    else if (rest.take 4).length < 4 then none
    else
      let width := n / 4 - 59
      literal (Bytes.toNatLittle (rest.take width) + 1) (rest.drop width)
  | 1 => (Bytes.split? 1 rest).map fun (d, rest) =>
      .copy (n / 4 % 8 + 4) (n / 32 * 256 + Bytes.toNatLittle d) rest
  | 2 => (Bytes.split? 2 rest).map fun (d, rest) => .copy (n / 4 + 1) (Bytes.toNatLittle d) rest
  | _ => (Bytes.split? 4 rest).map fun (d, rest) => .copy (n / 4 + 1) (Bytes.toNatLittle d) rest

def Element.rest : Element → Bytes
  | .literal _ rest => rest
  | .copy _ _ rest => rest

theorem length_of_split? {n : Nat} {bs front back : Bytes}
    (h : Bytes.split? n bs = some (front, back)) : back.length ≤ bs.length := by
  unfold Bytes.split? at h
  dsimp only at h
  split at h
  · simp only [Option.some.injEq, Prod.mk.injEq] at h
    rw [← h.2, List.length_drop]
    omega
  · cases h

theorem length_of_element? {tag : UInt8} {rest : Bytes} {e : Element}
    (h : element? tag rest = some e) : e.rest.length ≤ rest.length := by
  unfold element? at h
  dsimp only at h
  split at h
  · split at h
    · obtain ⟨p, hp, rfl⟩ := Option.map_eq_some_iff.1 h
      exact length_of_split? hp
    · split at h
      · cases h
      · obtain ⟨p, hp, rfl⟩ := Option.map_eq_some_iff.1 h
        refine Nat.le_trans (length_of_split? hp) ?_
        rw [List.length_drop]
        omega
  all_goals
    obtain ⟨p, hp, rfl⟩ := Option.map_eq_some_iff.1 h
    exact length_of_split? hp

def elements (length : Nat) (bs : Bytes) (out : Array UInt8) : Except String (Array UInt8) :=
  match bs with
  | [] => .ok out
  | tag :: rest =>
    match _h : element? tag rest with
    | none => .error "unexpected end of data"
    | some (.literal l rest') =>
      if length < out.size + l.length then .error "literal too long"
      else elements length rest' (out ++ l)
    | some (.copy n distance rest') =>
      if distance = 0 ∨ out.size < distance then .error "invalid copy offset"
      else if length < out.size + n then .error "copy too long"
      else elements length rest' (Token.copyBack distance n out)
termination_by bs.length
decreasing_by
  all_goals
    have := length_of_element? _h
    simp only [Element.rest] at this
    simp only [List.length_cons]
    omega

def unpack (length : Nat) (body : Bytes) : Except String Bytes :=
  match elements length body #[] with
  | .error e => .error e
  | .ok out => if out.size = length then .ok out.toList else .error "length mismatch"

def lengthBytes (n : Nat) : Bytes :=
  if n < 128 then [UInt8.ofNat n] else UInt8.ofNat (n % 128 + 128) :: lengthBytes (n / 128)
termination_by n

def literals (bs : Bytes) : Bytes :=
  (Bytes.chunks 60 bs).flatMap fun piece => UInt8.ofNat (4 * (piece.length - 1)) :: piece

/-- The elements of instructions; `run` holds the literals in front, last first, and `done` all
before them, last byte first. -/
def written (run done : Bytes) : List Token → Bytes
  | [] => ((literals run.reverse).reverse ++ done).reverse
  | .literal b :: tokens => written (b :: run) done tokens
  | .copy length distance :: tokens =>
    let copy := UInt8.ofNat (4 * (length - 1) + 2) :: Bytes.ofNatLittle distance 2
    written [] (copy.reverse ++ ((literals run.reverse).reverse ++ done)) tokens

/-- The elements with the copies that are found. -/
def found (bs : Bytes) : Bytes := written [] [] (Match.tokens ⟨65535, 64⟩ bs)

/-- Packs bytes into a block: with copies if that is worth it, literals otherwise. -/
def pack (bs : Bytes) : Bytes :=
  lengthBytes bs.length ++ if (found bs).length < bs.length then found bs else literals bs

end SealedHttp.Snappy
