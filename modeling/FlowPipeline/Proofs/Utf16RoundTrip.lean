import FlowPipeline.Text.Utf16
import Mathlib.Tactic.Common

/-! # Units of texts

A character is one unit or a pair of units. As no character stands for half of a pair, pairs are
found again, and decoding gives back every text that has been encoded.
-/

namespace FlowPipeline.Text.Utf16

/-- No character of a text stands for half of a pair. -/
def IsWhole (s : String) : Prop := ∀ c ∈ s.toList, isHalf c = false

instance (s : String) : Decidable (IsWhole s) :=
  List.decidableBAll (fun c => isHalf c = false) s.toList

theorem isHigh_iff {u : UInt16} : isHigh u = true ↔ 0xD800 ≤ u.toNat ∧ u.toNat < 0xDC00 := by
  simp [isHigh, UInt16.le_iff_toNat_le, UInt16.lt_iff_toNat_lt]

theorem isLow_iff {u : UInt16} : isLow u = true ↔ 0xDC00 ≤ u.toNat ∧ u.toNat < 0xE000 := by
  simp [isLow, UInt16.le_iff_toNat_le, UInt16.lt_iff_toNat_lt]

theorem toNat_ofNat {n : Nat} (h : n < 0x10000) : (UInt16.ofNat n).toNat = n := by
  simp [UInt16.toNat_ofNat', Nat.mod_eq_of_lt h]

theorem points_cons {u : UInt16} (h : isHigh u = false) (us : List UInt16) :
    points (u :: us) = u.toNat :: points us := by
  cases us with
  | nil => rfl
  | cons v us => simp [points, h]

theorem points_pair {u v : UInt16} (hu : isHigh u = true) (hv : isLow v = true)
    (us : List UInt16) : points (u :: v :: us) =
      (0x10000 + (u.toNat - 0xD800) * 0x400 + (v.toNat - 0xDC00)) :: points us := by
  rw [points, hu, hv]
  rfl

/-- The units of a character are found at the front. -/
theorem points_encodeChar {c : Char} (hc : isHalf c = false) (us : List UInt16) :
    points (encodeChar c ++ us) = c.toNat :: points us := by
  have hvalid : c.toNat < 0xD800 ∨ 0xDFFF < c.toNat ∧ c.toNat < 0x110000 := c.valid
  have hhalf : half? c = none := by simpa [isHalf] using hc
  simp only [encodeChar, hhalf]
  split_ifs with hsmall
  · have hu := toNat_ofNat hsmall
    have hhigh : isHigh (.ofNat c.toNat) = false := by
      rw [Bool.eq_false_iff, ne_eq, isHigh_iff, hu]
      omega
    rw [List.singleton_append, points_cons hhigh, hu]
  · have hu := toNat_ofNat (n := 0xD800 + (c.toNat - 0x10000) / 0x400) (by omega)
    have hv := toNat_ofNat (n := 0xDC00 + (c.toNat - 0x10000) % 0x400) (by omega)
    have hhigh : isHigh (.ofNat (0xD800 + (c.toNat - 0x10000) / 0x400)) = true := by
      rw [isHigh_iff, hu]
      omega
    have hlow : isLow (.ofNat (0xDC00 + (c.toNat - 0x10000) % 0x400)) = true := by
      rw [isLow_iff, hv]
      omega
    have hpoint : 0x10000 + (0xD800 + (c.toNat - 0x10000) / 0x400 - 0xD800) * 0x400 +
        (0xDC00 + (c.toNat - 0x10000) % 0x400 - 0xDC00) = c.toNat := by
      omega
    rw [List.cons_append, List.singleton_append, points_pair hhigh hlow, hu, hv, hpoint]

theorem points_encode {cs : List Char} (h : ∀ c ∈ cs, isHalf c = false) :
    points (cs.flatMap encodeChar) = cs.map Char.toNat := by
  induction cs with
  | nil => rfl
  | cons c cs ih =>
    obtain ⟨hc, hcs⟩ := List.forall_mem_cons.1 h
    rw [List.flatMap_cons, points_encodeChar hc, ih hcs, List.map_cons]

theorem charOf_toNat (c : Char) : charOf c.toNat = c := by
  have hvalid : c.toNat.isValidChar := c.valid
  rw [charOf, if_pos hvalid, Char.ofNat_toNat]

theorem decode_encode {s : String} (h : IsWhole s) : decode (encode s) = s := by
  have hmap : s.toList.map (fun c => charOf c.toNat) = s.toList := by
    simp only [charOf_toNat, List.map_id']
  rw [decode, encode, points_encode h, List.map_map]
  exact (congrArg String.ofList hmap).trans String.ofList_toList

/-- Different texts have different units. -/
theorem encode_injective {s t : String} (hs : IsWhole s) (ht : IsWhole t)
    (h : encode s = encode t) : s = t := by
  rw [← decode_encode hs, ← decode_encode ht, h]

end FlowPipeline.Text.Utf16
