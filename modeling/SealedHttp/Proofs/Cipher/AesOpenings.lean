import Mathlib.Data.Fintype.EquivFin
import SealedHttp.Proofs.Cipher.Aes

/-!
# What AES opens is what it sealed

There are only so many blocks, and so the cipher reaches each of them: deciphering is undone by
enciphering too. The filling is checked to its last byte, which leaves one sealed form for each
payload.
-/

namespace SealedHttp.Aes

/-! ## Blocks -/

theorem State.toBytes_injective : Function.Injective toBytes := by
  intro s t h
  have hblocks := congrArg (fun bs => ofBytes (bs ++ [])) h
  simp only [ofBytes_toBytes_append] at hblocks
  exact List.head_eq_of_cons_eq hblocks

/-- The bytes of a block, read as digits. -/
def State.number (s : State) : Fin (256 ^ blockSize) :=
  ⟨Bytes.toNat s.toBytes, State.length_toBytes s ▸ Bytes.toNat_lt s.toBytes⟩

theorem State.number_injective : Function.Injective number := by
  intro s t h
  have hnumber : Bytes.toNat s.toBytes = Bytes.toNat t.toBytes := congrArg Fin.val h
  apply toBytes_injective
  rw [← Bytes.ofNat_toNat s.toBytes, ← Bytes.ofNat_toNat t.toBytes, hnumber, length_toBytes,
    length_toBytes]

theorem encipher_decipher (k : Schedule) (s : State) : k.encipher (k.decipher s) = s := by
  have hleft : Function.LeftInverse k.decipher k.encipher := decipher_encipher k
  have hfinite : Finite State := Finite.of_injective State.number State.number_injective
  exact hleft.rightInverse_of_surjective (Finite.injective_iff_surjective.mp hleft.injective) s

/-! ## Payloads -/

theorem fill_of_unfill? {filled data : Bytes} (hblocks : filled.length % blockSize = 0)
    (h : unfill? filled = some data) : fill data = filled := by
  simp only [unfill?] at h
  generalize (filled.getLastD 0).toNat = n at h
  split at h
  · next hn =>
    cases h
    obtain ⟨hpos, hle, hfilling⟩ := hn
    have hlength := congrArg List.length hfilling
    rw [List.length_drop, List.length_replicate] at hlength
    have hn : blockSize - (filled.take (filled.length - n)).length % blockSize = n := by
      rw [List.length_take]
      simp only [blockSize] at hblocks hle ⊢
      omega
    simp only [fill, hn]
    rw [← hfilling, List.take_append_drop]
  · cases h

/-- Only what was sealed is opened. -/
theorem encrypt_of_decrypt {key data ct : Bytes} (h : decrypt key ct = .ok data) :
    encrypt key data = .ok ct := by
  rw [decrypt] at h
  split at h
  · cases h
  next hct =>
  have hblocks : ct.length % blockSize = 0 := not_not.mp fun hne => hct (.inr hne)
  split at h
  · next hkey =>
    split at h
    · next out hout =>
      cases h
      have hlength := length_mapBlocks (Schedule.ofKey key).decipher hblocks
      rw [encrypt, if_pos hkey, fill_of_unfill? (hlength ▸ hblocks) hout,
        mapBlocks_mapBlocks (encipher_decipher _) hblocks]
    · cases h
  · cases h

/-! ## Outcomes -/

theorem decrypt_eq_ok_iff {key pt ct : Bytes} : decrypt key ct = .ok pt ↔ encrypt key pt = .ok ct :=
  ⟨encrypt_of_decrypt, decrypt_of_encrypt⟩

theorem isKeyLength_iff {n : Nat} : isKeyLength n = true ↔ n ∈ [16, 24, 32] := by
  simp [isKeyLength, or_assoc]

theorem encrypt_eq_error_iff {key pt : Bytes} {e : CipherError} :
    encrypt key pt = .error e ↔ key.length ∉ [16, 24, 32] ∧ e = .keyLength key.length := by
  rw [encrypt, ← isKeyLength_iff]
  split
  · next hkey => simp [hkey]
  · next hkey => simp [hkey, eq_comm]

/-- A positive number of whole blocks. -/
def IsWhole (data : Bytes) : Prop := data ≠ [] ∧ data.length % 16 = 0

/-- Why a payload is not opened. The reasons exclude each other: the length of the payload comes
before that of the key, and only what passes both is held against what can be sealed. -/
inductive Refused (key data : Bytes) : CipherError → Prop
  | unevenData (hdata : ¬IsWhole data) : Refused key data (.blockLength data.length)
  | unusableKey (hdata : IsWhole data) (hkey : key.length ∉ [16, 24, 32]) :
      Refused key data (.keyLength key.length)
  | neverSealed (hdata : IsWhole data) (hkey : key.length ∈ [16, 24, 32])
      (hnone : ∀ pt, encrypt key pt ≠ .ok data) : Refused key data .padding

section Refusals

variable {key data : Bytes}

theorem decrypt_of_uneven (hdata : ¬IsWhole data) :
    decrypt key data = .error (.blockLength data.length) := by
  rw [decrypt, if_pos]
  rwa [IsWhole, not_and_or, not_not, ← List.isEmpty_iff] at hdata

theorem decrypt_of_whole (hdata : IsWhole data) :
    decrypt key data =
      if isKeyLength key.length then
        match unfill? (mapBlocks (Schedule.ofKey key).decipher data) with
        | some out => .ok out
        | none => .error .padding
      else .error (.keyLength key.length) := by
  have huneven : ¬(data.isEmpty ∨ data.length % blockSize ≠ 0) := by
    rw [List.isEmpty_iff, not_or, not_not]
    exact hdata
  rw [decrypt]
  exact if_neg huneven

theorem decrypt_of_unusable (hdata : IsWhole data) (hkey : key.length ∉ [16, 24, 32]) :
    decrypt key data = .error (.keyLength key.length) := by
  rw [decrypt_of_whole hdata, if_neg (mt isKeyLength_iff.mp hkey)]

/-- Whole blocks under a usable key are opened, or their filling is wrong. -/
theorem decrypt_cases (hdata : IsWhole data) (hkey : key.length ∈ [16, 24, 32]) :
    (∃ pt, decrypt key data = .ok pt) ∨ decrypt key data = .error .padding := by
  rw [decrypt_of_whole hdata, if_pos (isKeyLength_iff.mpr hkey)]
  split
  · next pt _ => exact .inl ⟨pt, rfl⟩
  · exact .inr rfl

theorem decrypt_of_refused {e : CipherError} (h : Refused key data e) :
    decrypt key data = .error e := by
  cases h with
  | unevenData hdata => exact decrypt_of_uneven hdata
  | unusableKey hdata hkey => exact decrypt_of_unusable hdata hkey
  | neverSealed hdata hkey hnone =>
    rcases decrypt_cases hdata hkey with ⟨pt, hopen⟩ | hpadding
    · exact absurd (encrypt_of_decrypt hopen) (hnone pt)
    · exact hpadding

theorem exists_refused (h : ∀ pt, encrypt key pt ≠ .ok data) : ∃ e, Refused key data e := by
  by_cases hdata : IsWhole data
  · by_cases hkey : key.length ∈ [16, 24, 32]
    · exact ⟨_, .neverSealed hdata hkey h⟩
    · exact ⟨_, .unusableKey hdata hkey⟩
  · exact ⟨_, .unevenData hdata⟩

theorem decrypt_eq_error_iff {e : CipherError} :
    decrypt key data = .error e ↔ Refused key data e := by
  constructor
  · intro h
    have hnone : ∀ pt, encrypt key pt ≠ .ok data := by
      intro pt hseal
      rw [decrypt_of_encrypt hseal] at h
      cases h
    obtain ⟨e', hrefused⟩ := exists_refused hnone
    rw [decrypt_of_refused hrefused, Except.error.injEq] at h
    rwa [← h]
  · exact decrypt_of_refused

end Refusals

/-- Opening is the inverse of sealing, on just those payloads that sealing reaches. Sealing fails
for the length of the key alone, and for every payload that is not opened there is one reason. -/
theorem decrypt_inverts_encrypt (key : Bytes) :
    (∀ pt ct, decrypt key ct = .ok pt ↔ encrypt key pt = .ok ct) ∧
    (∀ pt e, encrypt key pt = .error e ↔
      key.length ∉ [16, 24, 32] ∧ e = .keyLength key.length) ∧
    ∀ data e, decrypt key data = .error e ↔ Refused key data e :=
  ⟨fun _ _ => decrypt_eq_ok_iff, fun _ _ => encrypt_eq_error_iff, fun _ _ => decrypt_eq_error_iff⟩

end SealedHttp.Aes
