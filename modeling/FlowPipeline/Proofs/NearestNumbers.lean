import FlowPipeline.Number.Decimal
import Mathlib.Algebra.Order.Field.Power
import Mathlib.Algebra.Order.Floor.Semifield
import Mathlib.Data.Int.Log
import Mathlib.Data.Rat.Floor
import Mathlib.Tactic.Linarith
import Mathlib.Tactic.Positivity
import Mathlib.Tactic.Ring

/-! # Numbers nearest to ratios

Numbers in the binary64 format are rounded ratios. The rounding is stated here for ratios on their
own: it keeps order and whole numbers of 53 binary digits, and it errs by one part in `2 ^ 53` at
most. Decimals, products and integer parts in the format are what it makes of the exact ones.
-/

namespace FlowPipeline.Binary64

/-! ## Nearest whole numbers -/

/-- The whole number nearest to a ratio, of two the even one. -/
def nearestNat (x : ℚ) : ℕ :=
  if 2 * (x - ⌊x⌋₊) < 1 ∨ (2 * (x - ⌊x⌋₊) = 1 ∧ ⌊x⌋₊ % 2 = 0) then ⌊x⌋₊ else ⌊x⌋₊ + 1

variable {x y : ℚ}

theorem floor_le_nearestNat (x : ℚ) : ⌊x⌋₊ ≤ nearestNat x := by
  rw [nearestNat]
  split_ifs <;> omega

theorem nearestNat_le_floor (x : ℚ) : nearestNat x ≤ ⌊x⌋₊ + 1 := by
  rw [nearestNat]
  split_ifs <;> omega

theorem nearestNat_natCast (n : ℕ) : nearestNat n = n := by
  simp [nearestNat]

theorem nearestNat_mono (h : x ≤ y) : nearestNat x ≤ nearestNat y := by
  rcases (Nat.floor_mono h).lt_or_eq with hlt | heq
  · exact (nearestNat_le_floor x).trans (hlt.trans_le (floor_le_nearestNat y))
  · rw [nearestNat, nearestNat, heq]
    split_ifs with hx hy hy
    · exact le_rfl
    · exact Nat.le_succ _
    · -- From the same floor, `x` is no farther up than `y`.
      rcases hy with hless | ⟨hhalf, heven⟩
      · exact absurd (.inl (by linarith)) hx
      · rcases h.lt_or_eq with hlt | rfl
        · exact absurd (.inl (by linarith)) hx
        · exact absurd (.inr ⟨hhalf, heven⟩) hx
    · exact le_rfl

theorem abs_nearestNat_sub_le (hx : 0 ≤ x) : |(nearestNat x : ℚ) - x| ≤ 1 / 2 := by
  have hlow := Nat.floor_le hx
  have hhigh := Nat.lt_floor_add_one x
  rw [nearestNat, abs_le]
  split_ifs with h
  · constructor
    · rcases h with h | h <;> linarith
    · linarith
  · have hhalf := not_lt.1 (not_or.1 h).1
    push_cast
    constructor <;> linarith

theorem divRound_eq (a : ℕ) {b : ℕ} (hb : 0 < b) : divRound a b = nearestNat (a / b) := by
  have hb' : (0 : ℚ) < b := Nat.cast_pos.2 hb
  have hfloor : ⌊(a / b : ℚ)⌋₊ = a / b := Nat.floor_div_eq_div a b
  have hrest : (a / b : ℚ) - (a / b : ℕ) = (a % b : ℕ) / b := by
    have hsplit : ((a % b : ℕ) : ℚ) + b * (a / b : ℕ) = a := by exact_mod_cast Nat.mod_add_div a b
    rw [sub_eq_iff_eq_add, ← hsplit, add_div, mul_div_cancel_left₀ _ hb'.ne']
  have hless : 2 * ((a % b : ℕ) / b : ℚ) < 1 ↔ 2 * (a % b) < b := by
    rw [← mul_div_assoc, div_lt_one hb']
    exact_mod_cast Iff.rfl
  have hhalf : 2 * ((a % b : ℕ) / b : ℚ) = 1 ↔ 2 * (a % b) = b := by
    rw [← mul_div_assoc, div_eq_one_iff_eq hb'.ne']
    exact_mod_cast Iff.rfl
  rw [nearestNat, hfloor, hrest]
  simp only [hless, hhalf]
  rfl

/-! ## Nearest numbers of 53 binary digits -/

/-- The exponent of the last binary digit that is kept of a ratio. -/
def place (q : ℚ) : ℤ := max minExponent (Int.log 2 q - 52)

/-- The number of the format that is nearest to a ratio, as if the format had no greatest one. -/
def nearest (q : ℚ) : ℚ := nearestNat (q / 2 ^ place q) * 2 ^ place q

variable {q r : ℚ}

theorem two_zpow_pos (e : ℤ) : (0 : ℚ) < 2 ^ e := zpow_pos two_pos e

theorem nearest_zero : nearest 0 = 0 := by
  simp [nearest, nearestNat]

theorem nearest_nonneg (q : ℚ) : 0 ≤ nearest q :=
  mul_nonneg (Nat.cast_nonneg _) (two_zpow_pos _).le

/-- There are at most 53 binary digits in front of the last one that is kept. -/
theorem div_place_lt (q : ℚ) : q / 2 ^ place q < 2 ^ 53 := by
  have hplace : Int.log 2 q - 52 ≤ place q := le_max_right _ _
  rw [div_lt_iff₀ (two_zpow_pos _), ← zpow_natCast, ← zpow_add₀ two_ne_zero]
  calc q
    _ < 2 ^ (Int.log 2 q + 1) := Int.lt_zpow_succ_log_self (b := 2) (by decide) q
    _ ≤ 2 ^ (((53 : ℕ) : ℤ) + place q) := zpow_le_zpow_right₀ one_le_two (by omega)

/-- There are exactly 53 of them unless the ratio is too small. -/
theorem le_div_place (hq : 0 < q) (h : place q = Int.log 2 q - 52) :
    2 ^ 52 ≤ q / 2 ^ place q := by
  have hexponent : ((52 : ℕ) : ℤ) + (Int.log 2 q - 52) = Int.log 2 q := by omega
  rw [h, le_div_iff₀ (two_zpow_pos _), ← zpow_natCast, ← zpow_add₀ two_ne_zero, hexponent]
  exact Int.zpow_log_le_self (b := 2) (by decide) hq

theorem place_eq (hq : 2 ^ (-1022 : ℤ) ≤ q) : place q = Int.log 2 q - 52 := by
  have hlog := (Int.zpow_le_iff_le_log (b := 2) (by decide) ((two_zpow_pos _).trans_le hq)).1 hq
  rw [place, minExponent]
  omega

theorem place_mono (hq : 0 < q) (h : q ≤ r) : place q ≤ place r :=
  max_le_max_left _ (Int.sub_le_sub_right (Int.log_mono_right hq h) _)

theorem nearest_mono (hq : 0 ≤ q) (h : q ≤ r) : nearest q ≤ nearest r := by
  rcases hq.eq_or_lt with rfl | hq
  · rw [nearest_zero]
    exact nearest_nonneg r
  rcases (place_mono hq h).lt_or_eq with hlt | heq
  · -- With different places, a power of two lies between the two numbers.
    have hlow : (nearestNat (q / 2 ^ place q) : ℚ) ≤ 2 ^ 53 := by
      have hbound := nearestNat_mono (div_place_lt q).le
      have hpower : nearestNat (2 ^ 53) = 2 ^ 53 := nearestNat_natCast (2 ^ 53)
      rw [hpower] at hbound
      exact_mod_cast hbound
    have hhigh : (2 : ℚ) ^ 52 ≤ nearestNat (r / 2 ^ place r) := by
      have hplace : place r = Int.log 2 r - 52 := by
        rw [place] at hlt ⊢
        rw [place] at hlt
        omega
      have hbound := nearestNat_mono (le_div_place (hq.trans_le h) hplace)
      have hpower : nearestNat (2 ^ 52) = 2 ^ 52 := nearestNat_natCast (2 ^ 52)
      rw [hpower] at hbound
      exact_mod_cast hbound
    calc nearest q
      _ ≤ 2 ^ 53 * 2 ^ place q := mul_le_mul_of_nonneg_right hlow (two_zpow_pos _).le
      _ = 2 ^ 52 * 2 ^ (place q + 1) := by rw [zpow_add_one₀ two_ne_zero]; ring
      _ ≤ 2 ^ 52 * 2 ^ place r := by gcongr; exacts [one_le_two, hlt]
      _ ≤ nearest r := mul_le_mul_of_nonneg_right hhigh (two_zpow_pos _).le
  · rw [nearest, nearest, heq]
    have hdiv := div_le_div_of_nonneg_right h (two_zpow_pos (place r)).le
    exact mul_le_mul_of_nonneg_right (Nat.cast_le.2 (nearestNat_mono hdiv)) (two_zpow_pos _).le

/-- Whole numbers of 53 binary digits are kept. -/
theorem nearest_natCast {n : ℕ} (hn : n < 2 ^ 53) : nearest n = n := by
  rcases Nat.eq_zero_or_pos n with rfl | hpos
  · exact nearest_zero
  have hplace : place n ≤ 0 := by
    have hlog : Int.log 2 (n : ℚ) < 53 := by
      refine (Int.lt_zpow_iff_log_lt (b := 2) (by decide) (Nat.cast_pos.2 hpos)).1 ?_
      exact_mod_cast hn
    rw [place, minExponent]
    omega
  obtain ⟨k, hk⟩ : ∃ k : ℕ, place n = -k := ⟨(-place n).toNat, by omega⟩
  have hscaled : (n : ℚ) / 2 ^ place n = (n * 2 ^ k : ℕ) := by
    rw [hk, zpow_neg, zpow_natCast, div_inv_eq_mul]
    push_cast
    rfl
  rw [nearest, hscaled, nearestNat_natCast, ← hscaled, div_mul_cancel₀ _ (two_zpow_pos _).ne']

/-- The relative error, for what is not too small for 53 binary digits. -/
theorem abs_nearest_sub_le (hq : 2 ^ (-1022 : ℤ) ≤ q) : |nearest q - q| ≤ q / 2 ^ 53 := by
  have hpos : 0 < q := (two_zpow_pos _).trans_le hq
  have hplace := le_div_place hpos (place_eq hq)
  have hpower := two_zpow_pos (place q)
  rw [le_div_iff₀ hpower] at hplace
  have hscaled :
      nearest q - q = (nearestNat (q / 2 ^ place q) - q / 2 ^ place q) * 2 ^ place q := by
    rw [sub_mul, div_mul_cancel₀ _ hpower.ne', nearest]
  rw [hscaled, abs_mul, abs_of_pos hpower]
  calc |(nearestNat (q / 2 ^ place q) : ℚ) - q / 2 ^ place q| * 2 ^ place q
    _ ≤ 1 / 2 * 2 ^ place q :=
      mul_le_mul_of_nonneg_right (abs_nearestNat_sub_le (by positivity)) hpower.le
    _ ≤ q / 2 ^ 53 := by linarith

theorem mul_le_nearest (hq : 2 ^ (-1022 : ℤ) ≤ q) : (1 - 1 / 2 ^ 53) * q ≤ nearest q := by
  have herror := (abs_le.1 (abs_nearest_sub_le hq)).1
  linarith

theorem nearest_le_mul (hq : 2 ^ (-1022 : ℤ) ≤ q) : nearest q ≤ (1 + 1 / 2 ^ 53) * q := by
  have herror := (abs_le.1 (abs_nearest_sub_le hq)).2
  linarith

theorem nearest_le (hq : 0 ≤ q) : nearest q ≤ 2 * max q 1 := by
  have hone : (1 : ℚ) ≤ max q 1 := le_max_right q 1
  have hnormal : (2 : ℚ) ^ (-1022 : ℤ) ≤ max q 1 :=
    (zpow_le_one_of_nonpos₀ one_le_two (by decide)).trans hone
  calc nearest q
    _ ≤ nearest (max q 1) := nearest_mono hq (le_max_left q 1)
    _ ≤ (1 + 1 / 2 ^ 53) * max q 1 := nearest_le_mul hnormal
    _ ≤ 2 * max q 1 := by linarith

/-! ## Numbers of the format -/

/-- The number is finite and has the given sign and size. -/
def HasSize (x : Binary64) (negative : Bool) (size : ℚ) : Prop :=
  ∃ m e, x = .finite negative m e ∧ (m : ℚ) * 2 ^ e = size

theorem hasSize_zero (negative : Bool) : HasSize (.zero negative) negative 0 :=
  ⟨0, _, rfl, by simp⟩

theorem scale_pos (num : ℕ) {den : ℕ} (hden : 0 < den) (e : ℤ) : 0 < (scale num den e).2 := by
  rw [scale]
  split_ifs
  · exact Nat.mul_pos hden (Nat.pow_pos two_pos)
  · exact hden

theorem cast_two_pow (n : ℕ) : ((Nat.pow 2 n : ℕ) : ℚ) = 2 ^ n := Nat.cast_pow 2 n

theorem scale_div (num den : ℕ) (e : ℤ) :
    ((scale num den e).1 : ℚ) / (scale num den e).2 = num / den / 2 ^ e := by
  rw [scale]
  split_ifs with he
  · obtain ⟨k, rfl⟩ := Int.eq_ofNat_of_zero_le he
    rw [Nat.cast_mul, cast_two_pow, div_div, zpow_natCast, Int.toNat_natCast]
  · obtain ⟨k, rfl⟩ : ∃ k : ℕ, e = -k := ⟨(-e).toNat, by omega⟩
    rw [Nat.cast_mul, cast_two_pow, zpow_neg, zpow_natCast, div_inv_eq_mul, div_mul_eq_mul_div,
      neg_neg, Int.toNat_natCast]

/-- The comparison of bit lengths finds the power of two below a ratio up to one place. -/
theorem ratioLog_eq {num den : ℕ} (hnum : 0 < num) (hden : 0 < den) :
    ratioLog num den = Int.log 2 (num / den : ℚ) := by
  have hnum' : (0 : ℚ) < num := Nat.cast_pos.2 hnum
  have hden' : (0 : ℚ) < den := Nat.cast_pos.2 hden
  have hpos : (0 : ℚ) < num / den := div_pos hnum' hden'
  have hnumLow : (2 : ℚ) ^ num.log2 ≤ num := by exact_mod_cast Nat.log2_self_le hnum.ne'
  have hnumHigh : (num : ℚ) < 2 ^ (num.log2 + 1) := by exact_mod_cast Nat.lt_log2_self
  have hdenLow : (2 : ℚ) ^ den.log2 ≤ den := by exact_mod_cast Nat.log2_self_le hden.ne'
  have hdenHigh : (den : ℚ) < 2 ^ (den.log2 + 1) := by exact_mod_cast Nat.lt_log2_self
  have hlow : (num.log2 : ℤ) - den.log2 - 1 ≤ Int.log 2 (num / den : ℚ) := by
    refine (Int.zpow_le_iff_le_log (b := 2) (by decide) hpos).1 ?_
    push_cast
    rw [le_div_iff₀ hden']
    calc (2 : ℚ) ^ ((num.log2 : ℤ) - den.log2 - 1) * den
      _ ≤ 2 ^ ((num.log2 : ℤ) - den.log2 - 1) * 2 ^ (den.log2 + 1) := by gcongr
      _ = 2 ^ num.log2 := by
        rw [← zpow_natCast, ← zpow_natCast, ← zpow_add₀ two_ne_zero]
        congr 1
        push_cast
        ring
      _ ≤ num := hnumLow
  have hhigh : Int.log 2 (num / den : ℚ) < (num.log2 : ℤ) - den.log2 + 1 := by
    refine (Int.lt_zpow_iff_log_lt (b := 2) (by decide) hpos).1 ?_
    push_cast
    rw [div_lt_iff₀ hden']
    calc (num : ℚ)
      _ < 2 ^ (num.log2 + 1) := hnumHigh
      _ = 2 ^ ((num.log2 : ℤ) - den.log2 + 1) * 2 ^ den.log2 := by
        rw [← zpow_natCast, ← zpow_natCast, ← zpow_add₀ two_ne_zero]
        congr 1
        push_cast
        ring
      _ ≤ 2 ^ ((num.log2 : ℤ) - den.log2 + 1) * den := by gcongr
  have hscale := scale_div num den (num.log2 - den.log2)
  have hscaled : (scale num den (num.log2 - den.log2)).2 ≤ (scale num den (num.log2 - den.log2)).1 ↔
      (num.log2 : ℤ) - den.log2 ≤ Int.log 2 (num / den : ℚ) := by
    rw [← Int.zpow_le_iff_le_log (b := 2) (by decide) hpos, ← Nat.cast_le (α := ℚ),
      ← one_le_div (Nat.cast_pos.2 (scale_pos num hden _)), hscale, one_le_div (two_zpow_pos _)]
    rfl
  rw [ratioLog]
  dsimp only
  split_ifs with h
  · have hle := hscaled.1 h
    omega
  · have hlt := mt hscaled.2 h
    omega

/-- A significand that is rounded up to 54 binary digits loses the last one, which is zero. -/
theorem hasSize_carry (negative : Bool) (m : ℕ) {e : ℤ} (he : e < maxExponent) :
    HasSize
      (match if m = Nat.pow 2 precision then (Nat.pow 2 (precision - 1), e + 1) else (m, e) with
      | (m, e) => if maxExponent < e then .infinite negative else .finite negative m e)
      negative (m * 2 ^ e) := by
  split_ifs with hcarry
  · dsimp only
    rw [if_neg (by omega), hcarry]
    refine ⟨_, _, rfl, ?_⟩
    rw [cast_two_pow, cast_two_pow, zpow_add_one₀ two_ne_zero, precision]
    ring
  · dsimp only
    rw [if_neg (by omega)]
    exact ⟨m, e, rfl, rfl⟩

/-- Ratios are rounded to the nearest number of the format. -/
theorem hasSize_ofRatio (negative : Bool) (num : ℕ) {den : ℕ} (hden : 0 < den)
    (hsmall : (num / den : ℚ) < 2 ^ 1000) :
    HasSize (ofRatio negative num den) negative (nearest (num / den)) := by
  rw [ofRatio]
  split_ifs with hzero
  · rw [hzero, Nat.cast_zero, zero_div, nearest_zero]
    exact hasSize_zero negative
  have hnum := Nat.pos_of_ne_zero hzero
  have hpos : (0 : ℚ) < num / den := div_pos (Nat.cast_pos.2 hnum) (Nat.cast_pos.2 hden)
  have hplace : max minExponent (ratioLog num den - (precision - 1)) = place (num / den) := by
    rw [ratioLog_eq hnum hden]
    rfl
  have hbelow : place (num / den) < maxExponent := by
    have hlog : Int.log 2 (num / den : ℚ) < 1000 :=
      (Int.lt_zpow_iff_log_lt (b := 2) (by decide) hpos).1 (by exact_mod_cast hsmall)
    rw [place, minExponent, maxExponent]
    omega
  have hround : nearestNat (num / den / 2 ^ place (num / den)) =
      divRound (scale num den (place (num / den))).1 (scale num den (place (num / den))).2 := by
    rw [divRound_eq _ (scale_pos num hden _), scale_div]
  dsimp only
  rw [hplace, nearest, hround]
  exact hasSize_carry negative _ hbelow

theorem hasSize_ofNat {n : ℕ} (hn : n < 2 ^ 53) : HasSize (ofNat n) false n := by
  have hsmall : (n / (1 : ℕ) : ℚ) < 2 ^ 1000 := by
    rw [Nat.cast_one, div_one]
    exact (show (n : ℚ) < 2 ^ 53 by exact_mod_cast hn).trans
      (pow_lt_pow_right₀ one_lt_two (by decide))
  have hsize := hasSize_ofRatio false n one_pos hsmall
  rwa [Nat.cast_one, div_one, nearest_natCast hn] at hsize

theorem hasSize_ofScaled (negative : Bool) (m : ℕ) (e : ℤ) (hsmall : (m * 2 ^ e : ℚ) < 2 ^ 1000) :
    HasSize (ofScaled negative m e) negative (nearest (m * 2 ^ e)) := by
  rw [ofScaled]
  split_ifs with he
  · obtain ⟨k, rfl⟩ := Int.eq_ofNat_of_zero_le he
    have hratio : (m * 2 ^ (k : ℤ) : ℚ) = (m * Nat.pow 2 k : ℕ) / (1 : ℕ) := by
      rw [Nat.cast_mul, cast_two_pow, zpow_natCast, Nat.cast_one, div_one]
    rw [hratio] at hsmall ⊢
    exact hasSize_ofRatio negative _ one_pos hsmall
  · obtain ⟨k, rfl⟩ : ∃ k : ℕ, e = -k := ⟨(-e).toNat, by omega⟩
    have hratio : (m * 2 ^ (-k : ℤ) : ℚ) = m / (Nat.pow 2 k : ℕ) := by
      rw [cast_two_pow, zpow_neg, zpow_natCast, div_eq_mul_inv]
    rw [hratio] at hsmall ⊢
    rw [neg_neg, Int.toNat_natCast]
    exact hasSize_ofRatio negative m (Nat.pow_pos two_pos) hsmall

/-- Products are rounded once. -/
theorem HasSize.mul {a b : Binary64} {s t : Bool} {v w : ℚ} (ha : HasSize a s v)
    (hb : HasSize b t w) (hsmall : v * w < 2 ^ 1000) :
    HasSize (a.mul b) (s != t) (nearest (v * w)) := by
  obtain ⟨m, e, rfl, rfl⟩ := ha
  obtain ⟨n, f, rfl, rfl⟩ := hb
  have hproduct : (m * 2 ^ e * (n * 2 ^ f) : ℚ) = (m * n : ℕ) * 2 ^ (e + f) := by
    rw [zpow_add₀ two_ne_zero, Nat.cast_mul]
    ring
  rw [hproduct] at hsmall ⊢
  exact hasSize_ofScaled _ _ _ hsmall

/-- What is cut off is the fractional part of the size. -/
theorem HasSize.truncate? {a : Binary64} {s : Bool} {v : ℚ} (ha : HasSize a s v) :
    a.truncate? = some (signed s ⌊v⌋₊) := by
  obtain ⟨m, e, rfl, rfl⟩ := ha
  rw [Binary64.truncate?]
  split_ifs with he
  · obtain ⟨k, rfl⟩ := Int.eq_ofNat_of_zero_le he
    have hsize : (m * 2 ^ (k : ℤ) : ℚ) = (m * Nat.pow 2 k : ℕ) := by
      rw [Nat.cast_mul, cast_two_pow, zpow_natCast]
    rw [hsize, Nat.floor_natCast]
    rfl
  · obtain ⟨k, rfl⟩ : ∃ k : ℕ, e = -k := ⟨(-e).toNat, by omega⟩
    have hsize : (m * 2 ^ (-k : ℤ) : ℚ) = m / (Nat.pow 2 k : ℕ) := by
      rw [cast_two_pow, zpow_neg, zpow_natCast, div_eq_mul_inv]
    rw [hsize, Nat.floor_div_eq_div, neg_neg, Int.toNat_natCast]

/-- A decimal of at most a hundred digits is rounded once. -/
theorem hasSize_toBinary64 (negative : Bool) {coefficient places : ℕ}
    (hcoefficient : coefficient < 10 ^ 100) (hplaces : places ≤ 100) :
    HasSize (Decimal.toBinary64 ⟨negative, coefficient, -places⟩) negative
      (nearest (coefficient / 10 ^ places)) := by
  have hlength : Decimal.length coefficient ≤ 100 := by
    rw [Decimal.length]
    split_ifs
    · exact Nat.zero_le _
    · exact (Nat.length_toDigits_le_iff (by decide) (by decide)).2 hcoefficient
  have hsmall : (coefficient / (10 ^ places : ℕ) : ℚ) < 2 ^ 1000 := by
    rw [Nat.cast_pow]
    calc (coefficient / 10 ^ places : ℚ)
      _ ≤ coefficient := div_le_self (Nat.cast_nonneg _) (one_le_pow₀ (by norm_num))
      _ < 10 ^ 100 := by exact_mod_cast hcoefficient
      _ < (2 ^ 10) ^ 100 := pow_lt_pow_left₀ (by norm_num) (by norm_num) (by decide)
      _ = 2 ^ 1000 := (pow_mul 2 10 100).symm
  have hsize := hasSize_ofRatio negative coefficient (Nat.pow_pos (by decide)) hsmall
  rw [Nat.cast_pow] at hsize
  rw [Decimal.toBinary64]
  dsimp only
  by_cases hzero : coefficient = 0
  · rw [if_pos (.inl hzero), hzero, Nat.cast_zero, zero_div, nearest_zero]
    exact hasSize_zero negative
  · rw [if_neg (by omega), if_neg (by omega)]
    rcases places with _ | places
    · have hwhole : coefficient * Nat.pow 10 (-((0 : ℕ) : ℤ)).toNat = coefficient := Nat.mul_one _
      rw [if_pos (by omega), hwhole]
      simpa using hsize
    · rw [if_neg (by omega), neg_neg, Int.toNat_natCast]
      exact hsize

end FlowPipeline.Binary64
