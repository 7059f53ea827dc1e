import FlowPipeline.Text.Utf8
import Mathlib.Tactic.Common

/-! # Decoding what has been encoded

The bytes of a character are a first byte that tells their number, and others that may follow it.
Decoding takes them off one character at a time, so that it gives back every text that has been
encoded.
-/

namespace FlowPipeline.Text.Utf8

theorem isTail_iff {b : UInt8} : isTail b = true ↔ 0x80 ≤ b.toNat ∧ b.toNat < 0xC0 := by
  simp [isTail, UInt8.le_iff_toNat_le, UInt8.lt_iff_toNat_lt]

theorem isSecond_iff {a b : UInt8} : isSecond a b = true ↔ isTail b = true ∧
    (a.toNat = 0xE0 → 0xA0 ≤ b.toNat) ∧ (a.toNat = 0xED → b.toNat < 0xA0) ∧
    (a.toNat = 0xF0 → 0x90 ≤ b.toNat) ∧ (a.toNat = 0xF4 → b.toNat < 0x90) := by
  simp only [isSecond, Bool.and_eq_true, Bool.or_eq_true, bne_iff_ne, ne_eq, ← UInt8.toNat_inj,
    decide_eq_true_eq, UInt8.le_iff_toNat_le, UInt8.lt_iff_toNat_lt, UInt8.reduceToNat, and_assoc,
    imp_iff_not_or]

theorem width?_eq {a : UInt8} : width? a =
    if a.toNat < 0x80 then some 1
    else if a.toNat < 0xC2 then none
    else if a.toNat < 0xE0 then some 2
    else if a.toNat < 0xF0 then some 3
    else if a.toNat < 0xF5 then some 4
    else none := by
  simp only [width?, UInt8.lt_iff_toNat_lt, UInt8.reduceToNat]

/-- A byte and those that follow it are the bytes of a character. -/
structure Encodes (c : Char) (a : UInt8) (tail : List UInt8) : Prop where
  width : width? a = some (tail.length + 1)
  follows : ∀ rest, tailOf a tail.length (tail ++ rest) = tail
  codePoint : codePoint a tail = c.toNat

theorem tailOf_append {a b : UInt8} {bs : List UInt8} (hb : isSecond a b = true)
    (hbs : ∀ b ∈ bs, isTail b = true) (rest : List UInt8) :
    tailOf a (b :: bs).length (b :: bs ++ rest) = b :: bs := by
  simp [tailOf, hb, List.takeWhile_append_of_pos hbs]

theorem toNat_ofNat {n : Nat} (h : n < 256) : (UInt8.ofNat n).toNat = n := by
  simp [UInt8.toNat_ofNat', Nat.mod_eq_of_lt h]

theorem isTail_ofNat (n : Nat) : isTail (.ofNat (0x80 + n % 64)) = true := by
  rw [isTail_iff, toNat_ofNat (by omega)]
  omega

theorem encodeChar_eq (c : Char) : ∃ a tail, encodeChar c = a :: tail ∧ Encodes c a tail := by
  have hvalid : c.toNat < 0xD800 ∨ 0xDFFF < c.toNat ∧ c.toNat < 0x110000 := c.valid
  unfold encodeChar
  simp only [Nat.div_one]
  generalize hn : c.toNat = n at hvalid
  split_ifs with h₁ h₂ h₃
  · have ha := toNat_ofNat (n := n) (by omega)
    refine ⟨_, [], rfl, ?_, fun rest => rfl, by simp [codePoint, ha, hn]⟩
    simp [width?_eq, ha, h₁]
  · have ha := toNat_ofNat (n := 0xC0 + n / 64) (by omega)
    have hb := toNat_ofNat (n := 0x80 + n % 64) (by omega)
    refine ⟨_, _, rfl, ?_, tailOf_append ?_ (by simp), ?_⟩
    · rw [width?_eq, ha]
      split_ifs <;> first | rfl | omega
    · rw [isSecond_iff, isTail_iff, ha, hb]
      omega
    · simp only [codePoint, List.length_cons, List.length_nil, List.foldl_cons, List.foldl_nil,
        ha, hb, hn]
      omega
  · have ha := toNat_ofNat (n := 0xE0 + n / 4096) (by omega)
    have hb := toNat_ofNat (n := 0x80 + n / 64 % 64) (by omega)
    have hc := toNat_ofNat (n := 0x80 + n % 64) (by omega)
    have htail : ∀ b ∈ [UInt8.ofNat (0x80 + n % 64)], isTail b = true :=
      List.forall_mem_singleton.2 (isTail_ofNat n)
    refine ⟨_, _, rfl, ?_, tailOf_append ?_ htail, ?_⟩
    · rw [width?_eq, ha]
      split_ifs <;> first | rfl | omega
    · rw [isSecond_iff, isTail_iff, ha, hb]
      omega
    · simp only [codePoint, List.length_cons, List.length_nil, List.foldl_cons, List.foldl_nil,
        ha, hb, hc, hn]
      omega
  · have ha := toNat_ofNat (n := 0xF0 + n / 262144) (by omega)
    have hb := toNat_ofNat (n := 0x80 + n / 4096 % 64) (by omega)
    have hc := toNat_ofNat (n := 0x80 + n / 64 % 64) (by omega)
    have hd := toNat_ofNat (n := 0x80 + n % 64) (by omega)
    have htail : ∀ b ∈ [UInt8.ofNat (0x80 + n / 64 % 64), UInt8.ofNat (0x80 + n % 64)],
        isTail b = true :=
      List.forall_mem_cons.2 ⟨isTail_ofNat (n / 64), List.forall_mem_singleton.2 (isTail_ofNat n)⟩
    refine ⟨_, _, rfl, ?_, tailOf_append ?_ htail, ?_⟩
    · rw [width?_eq, ha]
      split_ifs <;> first | rfl | omega
    · rw [isSecond_iff, isTail_iff, ha, hb]
      omega
    · simp only [codePoint, List.length_cons, List.length_nil, List.foldl_cons, List.foldl_nil,
        ha, hb, hc, hd, hn]
      omega

theorem Encodes.decodeFrom {c : Char} {a : UInt8} {tail : List UInt8} (h : Encodes c a tail)
    (position fuel : Nat) (rest : List UInt8) :
    Utf8.decodeFrom position (fuel + 1) (a :: tail ++ rest) =
      (Utf8.decodeFrom (position + (tail.length + 1)) fuel rest).map (c :: ·) := by
  have htail := h.follows rest
  simp only [Utf8.decodeFrom, List.cons_append, h.width, Nat.add_sub_cancel, htail, if_true,
    List.drop_left, h.codePoint, Char.ofNat_toNat]

theorem decodeFrom_encode (cs : List Char) (position : Nat) {fuel : Nat}
    (hfuel : (cs.flatMap encodeChar).length ≤ fuel) :
    decodeFrom position fuel (cs.flatMap encodeChar) = .ok cs := by
  induction cs generalizing position fuel with
  | nil => cases fuel <;> rfl
  | cons c cs ih =>
    obtain ⟨a, tail, hc, henc⟩ := encodeChar_eq c
    rw [List.flatMap_cons, hc] at hfuel ⊢
    simp only [List.cons_append, List.length_cons, List.length_append] at hfuel
    obtain ⟨fuel, rfl⟩ : ∃ k, fuel = k + 1 := ⟨fuel - 1, by omega⟩
    rw [henc.decodeFrom, ih _ (by omega)]
    rfl

theorem decode_encode (s : String) : decode (encode s) = .ok s := by
  rw [decode, encode, decodeFrom_encode s.toList 0 (Nat.le_refl _)]
  simp [Except.map]

/-- A text can be read back from its bytes. -/
theorem decode_of_encoded {s : String} {bytes : List UInt8} (h : encoded s = .ok bytes) :
    decode bytes = .ok s := by
  have hbytes : bytes = encode s := by
    simp only [encoded] at h
    split at h
    · exact (Except.ok.inj h).symm
    · cases h
  rw [hbytes, decode_encode]

end FlowPipeline.Text.Utf8
