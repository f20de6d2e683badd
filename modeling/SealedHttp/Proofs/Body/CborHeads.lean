import SealedHttp.Body.CborReader
import SealedHttp.Body.CborText
import SealedHttp.Proofs.ByteStrings
import SealedHttp.Proofs.Results
import SealedHttp.Proofs.Text.Utf8

/-!
# Reading CBOR heads and texts that were written

A head has the shortest argument that holds its number, and every width is read back.
-/

namespace SealedHttp.Cbor

section Heads

variable {total major n : Nat} {h : Head} {rest : Bytes}

theorem head_inline (hmajor : major < 8) (hn : n < 24)
    (hof : ofArgument? major (.inline n) = some h) :
    head total (UInt8.ofNat (32 * major + n) :: rest) = .ok (h, rest) := by
  have hfirst : (UInt8.ofNat (32 * major + n)).toNat = 32 * major + n := by
    rw [UInt8.toNat_ofNat']
    omega
  unfold head
  dsimp only
  rw [hfirst, show (32 * major + n) % 32 = n by omega, show (32 * major + n) / 32 = major by omega,
    argument, if_pos hn]
  dsimp only
  rw [hof]

theorem head_following (hmajor : major < 8) {k : Nat} (hk : k < 4) (hn : n < 256 ^ (1 <<< k))
    (hof : ofArgument? major (.following (1 <<< k) n) = some h) :
    head total (UInt8.ofNat (32 * major + (24 + k)) :: (Bytes.ofNat n (1 <<< k) ++ rest)) =
      .ok (h, rest) := by
  have hfirst : (UInt8.ofNat (32 * major + (24 + k))).toNat = 32 * major + (24 + k) := by
    rw [UInt8.toNat_ofNat']
    omega
  have hsplit : Bytes.split? (1 <<< k) (Bytes.ofNat n (1 <<< k) ++ rest) =
      some (Bytes.ofNat n (1 <<< k), rest) := by
    have happend := Bytes.split?_append (Bytes.ofNat n (1 <<< k)) rest
    rwa [Bytes.length_ofNat] at happend
  unfold head
  dsimp only
  rw [hfirst, show (32 * major + (24 + k)) % 32 = 24 + k by omega,
    show (32 * major + (24 + k)) / 32 = major by omega, argument, if_neg (by omega),
    if_pos (by omega), show 24 + k - 24 = k by omega]
  dsimp only
  rw [hsplit]
  dsimp only
  rw [Bytes.toNat_ofNat hn, hof]

theorem head_write (hmajor : major < 8) (hn : n < 0x10000000000000000)
    (hof : ∀ a : Argument, a.number? = some n → ofArgument? major a = some h) :
    head total (write major n ++ rest) = .ok (h, rest) := by
  unfold write
  dsimp only
  split
  · exact head_inline hmajor ‹_› (hof _ rfl)
  split
  · exact head_following hmajor (k := 0) (by decide) ‹_› (hof _ rfl)
  split
  · exact head_following hmajor (k := 1) (by decide) ‹_› (hof _ rfl)
  split
  · exact head_following hmajor (k := 2) (by decide) ‹_› (hof _ rfl)
  · exact head_following hmajor (k := 3) (by decide) hn (hof _ rfl)

theorem length_write_pos : 0 < (write major n).length := by
  unfold write
  dsimp only
  repeat' split
  all_goals exact Nat.succ_pos _

theorem length_write_le : (write major n).length ≤ 9 := by
  unfold write
  dsimp only
  repeat' split
  all_goals simp only [List.length_cons, List.length_nil, Bytes.length_ofNat]; decide

theorem untagged_of_head {fuel : Nat} {bs : Bytes} (hhead : head total bs = .ok (h, rest))
    (htag : ∀ n, h ≠ .tag n) : untagged total (fuel + 1) bs = .ok (h, rest) := by
  rw [untagged, bind_of_ok hhead]
  cases h with
  | tag n => exact absurd rfl (htag n)
  | _ => rfl

end Heads

section Texts

variable {total : Nat} {s : String} {rest : Bytes}

theorem head_text (hs : (Bytes.ofText s).length < 0x10000000000000000) :
    head total (Value.cborString s ++ rest) =
      .ok (.text (some (Bytes.ofText s).length), Bytes.ofText s ++ rest) := by
  rw [Value.cborString, List.append_assoc]
  exact head_write (by decide) hs fun a ha => by rw [ofArgument?, ha]

theorem text_ofText (offset : Nat) :
    text total offset (some (Bytes.ofText s).length) (Bytes.ofText s ++ rest) = .ok (s, rest) := by
  have hpiece : piece (Bytes.ofText s).length (Bytes.ofText s ++ rest) =
      .ok (Bytes.ofText s, rest) := by
    rw [piece, Bytes.split?_append]
  have hutf8 : utf8 offset (Bytes.ofText s) = .ok s.toList := by
    rw [utf8, Bytes.ofText, Utf8.decodeFrom_flatMap]
  rw [text, bind_of_ok hpiece]
  change (utf8 offset (Bytes.ofText s) >>= fun cs => Except.ok (String.ofList cs, rest)) = _
  rw [bind_of_ok hutf8, String.ofList_toList]

/-- The first name of an object is refused for its length alone. -/
theorem name_cborString (first : Bool) (hs : (Bytes.ofText s).length < 0x10000000000000000) :
    name total first (Value.cborString s ++ rest) =
      if first && maxFirstName < (Bytes.ofText s).length then .error (.mismatch "string" "str")
      else .ok (s, rest) := by
  rw [name, bind_of_ok (untagged_of_head (head_text hs) nofun)]
  change (if first && maxFirstName < (Bytes.ofText s).length then _ else text _ _ _ _) = _
  rw [text_ofText]

end Texts

end SealedHttp.Cbor
