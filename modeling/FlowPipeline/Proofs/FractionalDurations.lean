import FlowPipeline.Proofs.WrittenDurations

/-! # Durations with decimal places

The number of a duration is rounded to binary64, and so is its product with the unit, before the
fraction is cut off. What is read is therefore the exact product cut off but for two relative errors
of one part in `2 ^ 53`. A whole millisecond may be missed by that, and a little less than five
minutes may pass for five; five minutes are never taken for less.
-/

namespace FlowPipeline.Cadence
open Text Binary64

/-! ## Two roundings -/

/-- The least factor by which two roundings change a number. -/
def leastFactor : ℚ := (1 - 1 / 2 ^ 53) ^ 2

/-- The greatest factor by which two roundings change a number. -/
def greatestFactor : ℚ := (1 + 1 / 2 ^ 53) ^ 2

namespace Written

variable {w : Written}

/-- The milliseconds that are written, without the sign. -/
def milliseconds (w : Written) : ℚ := w.number.size * w.length

/-- A number of a hundred digits is far from the least one of the format. -/
theorem le_size (h : w.chars.length ≤ 100) (hsize : w.number.size ≠ 0) :
    (2 : ℚ) ^ (-1000 : ℤ) ≤ w.number.size := by
  rw [Numeral.size_eq] at hsize ⊢
  have hvalue : (1 : ℚ) ≤ valueOf (w.number.whole ++ w.number.places) := by
    rw [Nat.one_le_cast, Nat.one_le_iff_ne_zero]
    rintro hzero
    exact hsize (by rw [hzero, Nat.cast_zero, zero_div])
  calc (2 : ℚ) ^ (-1000 : ℤ)
    _ = 1 / (2 ^ 10) ^ 100 := by
      rw [zpow_neg, one_div, ← pow_mul]
      rfl
    _ ≤ 1 / 10 ^ 100 := by
      gcongr
      norm_num
    _ ≤ 1 / 10 ^ w.number.places.length := by
      gcongr
      exacts [by norm_num, w.length_places_le h]
    _ ≤ _ := by gcongr

theorem normal_size (h : w.chars.length ≤ 100) (hsize : w.number.size ≠ 0) :
    (2 : ℚ) ^ (-1022 : ℤ) ≤ w.number.size :=
  (zpow_le_zpow_right₀ one_le_two (by decide)).trans (le_size h hsize)

theorem normal_product (h : w.chars.length ≤ 100) (hsize : w.number.size ≠ 0) :
    (2 : ℚ) ^ (-1022 : ℤ) ≤ nearest w.number.size * w.length := by
  have hlength : (1 : ℚ) ≤ w.length := by exact_mod_cast w.length_pos
  calc (2 : ℚ) ^ (-1022 : ℤ)
    _ ≤ 2 ^ ((-1000 : ℤ) - 1) := zpow_le_zpow_right₀ one_le_two (by omega)
    _ = 1 / 2 * 2 ^ (-1000 : ℤ) := by rw [zpow_sub_one₀ two_ne_zero, mul_comm, one_div]
    _ ≤ (1 - 1 / 2 ^ 53) * w.number.size := by
      gcongr
      exacts [by norm_num, le_size h hsize]
    _ ≤ nearest w.number.size := mul_le_nearest (normal_size h hsize)
    _ ≤ nearest w.number.size * w.length := le_mul_of_one_le_right (nearest_nonneg _) hlength

theorem product_between (h : w.chars.length ≤ 100) :
    leastFactor * w.milliseconds ≤ w.product ∧ w.product ≤ greatestFactor * w.milliseconds := by
  by_cases hzero : w.number.size = 0
  · simp [product, milliseconds, hzero, nearest_zero]
  have hlow := mul_le_nearest (normal_size h hzero)
  have hhigh := nearest_le_mul (normal_size h hzero)
  constructor
  · calc leastFactor * w.milliseconds
      _ = (1 - 1 / 2 ^ 53) * ((1 - 1 / 2 ^ 53) * w.number.size * w.length) := by
        rw [leastFactor, milliseconds]
        ring
      _ ≤ (1 - 1 / 2 ^ 53) * (nearest w.number.size * w.length) := by gcongr
      _ ≤ w.product := mul_le_nearest (normal_product h hzero)
  · calc w.product
      _ ≤ (1 + 1 / 2 ^ 53) * (nearest w.number.size * w.length) :=
        nearest_le_mul (normal_product h hzero)
      _ ≤ (1 + 1 / 2 ^ 53) * ((1 + 1 / 2 ^ 53) * w.number.size * w.length) := by gcongr
      _ = greatestFactor * w.milliseconds := by
        rw [greatestFactor, milliseconds]
        ring

/-- Five minutes of any unit do not get less by the two roundings. -/
theorem shortest_le_units {name : String} {length : ℕ} (h : (name, length) ∈ units) :
    (shortest : ℚ) ≤ nearest (nearest (shortest / length) * length) := by
  have hcheck : ∀ p ∈ units, ∀ r ∈ ((ofRatio false shortest p.2).mul (.ofNat p.2)).truncate?,
      (shortest : ℤ) ≤ r := by decide
  have hratio : (shortest / length : ℚ) ≤ 2 ^ 400 := by
    have hpos : (1 : ℚ) ≤ length := by exact_mod_cast units_pos _ h
    have hshortest : shortest ≤ 2 ^ 20 := by decide
    calc (shortest / length : ℚ)
      _ ≤ shortest := div_le_self (Nat.cast_nonneg _) hpos
      _ ≤ 2 ^ 20 := by exact_mod_cast hshortest
      _ ≤ 2 ^ 400 := pow_le_pow_right₀ one_le_two (by decide)
  have hbound := nearest_mul_lt (by positivity) hratio (units_lt _ h)
  have hpower : (2 : ℚ) ^ 400 < 2 ^ 1000 := pow_lt_pow_right₀ one_lt_two (by decide)
  have hnumber := hasSize_ofRatio false shortest (units_pos _ h) (hratio.trans_lt hpower)
  have hproduct := hnumber.mul (hasSize_ofNat (units_lt _ h)) hbound
  have hcut : (shortest : ℤ) ≤ (⌊nearest (nearest (shortest / length) * length)⌋₊ : ℕ) :=
    hcheck _ h _ hproduct.truncate?
  exact (Nat.le_floor_iff (nearest_nonneg _)).1 (by exact_mod_cast hcut)

theorem shortest_le_product (h : (shortest : ℚ) ≤ w.milliseconds) : (shortest : ℚ) ≤ w.product := by
  have hlength : (0 : ℚ) < w.length := Nat.cast_pos.2 w.length_pos
  have hsize : (shortest / w.length : ℚ) ≤ w.number.size := (div_le_iff₀ hlength).2 h
  calc (shortest : ℚ)
    _ ≤ nearest (nearest (shortest / w.length) * w.length) := shortest_le_units (mem_units w.known)
    _ ≤ w.product := by
      refine nearest_mono (mul_nonneg (nearest_nonneg _) hlength.le) ?_
      gcongr
      exact nearest_mono (by positivity) hsize

/-- The milliseconds are those that are written, rounded twice and cut off. -/
structure Reads (w : Written) (r : ℤ) : Prop where
  eq : r = signed w.number.negative ⌊w.product⌋₊
  ge : ⌊leastFactor * w.milliseconds⌋₊ ≤ r.natAbs
  le : r.natAbs ≤ ⌊greatestFactor * w.milliseconds⌋₊

theorem natAbs_signed (negative : Bool) (n : ℕ) : (signed negative n).natAbs = n := by
  rcases negative with _ | _
  · exact Int.natAbs_natCast n
  · exact Int.natAbs_neg n

theorem reads_rounded (h : w.chars.length ≤ 100) : w.Reads w.rounded := by
  obtain ⟨hlow, hhigh⟩ := product_between h
  refine ⟨rfl, ?_, ?_⟩
  · rw [rounded, natAbs_signed]
    exact Nat.floor_mono hlow
  · rw [rounded, natAbs_signed]
    exact Nat.floor_mono hhigh

/-- No whole number of milliseconds lies where the roundings could cross it. -/
def IsClear (w : Written) : Prop :=
  ⌊leastFactor * w.milliseconds⌋₊ = ⌊greatestFactor * w.milliseconds⌋₊

theorem milliseconds_nonneg (w : Written) : 0 ≤ w.milliseconds :=
  mul_nonneg w.number.size_nonneg (Nat.cast_nonneg _)

theorem Reads.eq_of_isClear {r : ℤ} (h : w.Reads r) (hclear : w.IsClear) :
    r = signed w.number.negative ⌊w.milliseconds⌋₊ := by
  have hleast : leastFactor ≤ 1 := by norm_num [leastFactor]
  have hgreatest : 1 ≤ greatestFactor := by norm_num [greatestFactor]
  have hlow : ⌊leastFactor * w.milliseconds⌋₊ ≤ ⌊w.milliseconds⌋₊ :=
    Nat.floor_mono (mul_le_of_le_one_left w.milliseconds_nonneg hleast)
  have hhigh : ⌊w.milliseconds⌋₊ ≤ ⌊greatestFactor * w.milliseconds⌋₊ :=
    Nat.floor_mono (le_mul_of_one_le_left w.milliseconds_nonneg hgreatest)
  have hproduct : r.natAbs = ⌊w.product⌋₊ := by rw [h.eq, natAbs_signed]
  have hsame : ⌊w.product⌋₊ = ⌊w.milliseconds⌋₊ := by
    have hge := h.ge
    have hle := h.le
    rw [IsClear] at hclear
    omega
  rw [← hsame]
  exact h.eq

/-- What is accepted has no sign and is long enough after the roundings. -/
theorem Reads.of_shortest_le {r : ℤ} (h : w.Reads r) (hr : shortest ≤ r) :
    w.number.negative = false ∧ (shortest : ℚ) ≤ greatestFactor * w.milliseconds := by
  have hpos : (0 : ℤ) < shortest := by decide
  have heq := h.eq
  have hnegative : w.number.negative = false := by
    rcases hnegative : w.number.negative with _ | _
    · rfl
    · rw [hnegative, signed, if_pos rfl] at heq
      omega
  have hcut : shortest ≤ ⌊greatestFactor * w.milliseconds⌋₊ := by
    refine le_trans ?_ h.le
    omega
  have hnonneg := mul_nonneg (sq_nonneg (1 + 1 / 2 ^ 53)) w.milliseconds_nonneg
  exact ⟨hnegative, (Nat.le_floor_iff hnonneg).1 hcut⟩

end Written

variable {text : String} {r : ℤ}

/-- What is read of a duration is what is written, rounded twice and cut off. A cadence that is five
minutes long is accepted, and what is accepted is five minutes long but for the two roundings. -/
theorem duration?_reads (h : duration? text = some r) :
    (∃ w : Written, trimChars text.toList = w.chars) ∧
      ∀ w : Written, trimChars text.toList = w.chars →
        (w.Reads r ∧ (w.IsClear → r = signed w.number.negative ⌊w.milliseconds⌋₊)) ∧
        ∀ cadence now, intervalText cadence = (text, false) →
          (w.number.negative = false → (shortest : ℚ) ≤ w.milliseconds →
            ∃ i, resolve cadence now = .ok i) ∧
          ∀ i, resolve cadence now = .ok i →
            w.number.negative = false ∧ (shortest : ℚ) ≤ greatestFactor * w.milliseconds := by
  obtain ⟨v, hlength, hv, -⟩ := exists_written h
  refine ⟨⟨v, hv⟩, fun w hw => ?_⟩
  obtain rfl : w.rounded = r :=
    Option.some.inj ((duration?_of_written w hlength hw).symm.trans h)
  have hshort : w.chars.length ≤ 100 := hw ▸ (length_trimChars_le _).trans hlength
  have hreads := w.reads_rounded hshort
  refine ⟨⟨hreads, hreads.eq_of_isClear⟩, fun cadence now htext => ?_⟩
  have hresolve := resolve_eq htext h now
  constructor
  · intro hnegative hlong
    have hcut : shortest ≤ ⌊w.product⌋₊ := Nat.le_floor (Written.shortest_le_product hlong)
    refine ⟨_, hresolve.trans (if_neg ?_)⟩
    rw [Written.rounded, hnegative]
    exact not_lt.2 (Int.ofNat_le.2 hcut)
  · intro i hi
    rw [hresolve] at hi
    split_ifs at hi with htooShort
    exact hreads.of_shortest_le (not_lt.1 htooShort)

def overFiveMinutes : Written where
  number := ⟨false, "300".toList, "0005".toList, List.all_eq_true.1 (by decide),
    List.all_eq_true.1 (by decide), by decide⟩
  spaces := 1
  unit := "s".toList
  length := 1000
  known := by decide

def noon : Moment := ⟨⟨2024, 1, 1⟩, 12, 0, 0, 0, some 0⟩

/-- Half a millisecond over five minutes is cut off. -/
theorem duration?_reads_half :
    (duration? "300.0005 s" = some 300000 ∧ trimChars "300.0005 s".toList = overFiveMinutes.chars ∧
      overFiveMinutes.IsClear ∧ intervalText "every 300.0005 s" = ("300.0005 s", false)) ∧
    overFiveMinutes.Reads 300000 ∧ 300000 = signed false ⌊overFiveMinutes.milliseconds⌋₊ ∧
    ∃ i, resolve "every 300.0005 s" noon = .ok i := by
  have hread : duration? "300.0005 s" = some 300000 := by decide
  have hchars : trimChars "300.0005 s".toList = overFiveMinutes.chars := by decide
  have htext : intervalText "every 300.0005 s" = ("300.0005 s", false) := by decide
  have hmilliseconds : overFiveMinutes.milliseconds = 300000 + 1 / 2 := by
    have hwhole : valueOf "300".toList = 300 := by decide
    have hplaces : valueOf "0005".toList = 5 := by decide
    change ((valueOf "300".toList : ℚ) + valueOf "0005".toList / 10 ^ 4) * (1000 : ℕ) = _
    rw [hwhole, hplaces]
    norm_num
  have hclear : overFiveMinutes.IsClear := by
    have hleast : ⌊leastFactor * (300000 + 1 / 2)⌋₊ = 300000 := by
      rw [Nat.floor_eq_iff (by norm_num [leastFactor]), leastFactor]
      norm_num
    have hgreatest : ⌊greatestFactor * (300000 + 1 / 2)⌋₊ = 300000 := by
      rw [Nat.floor_eq_iff (by norm_num [greatestFactor]), greatestFactor]
      norm_num
    rw [Written.IsClear, hmilliseconds, hleast, hgreatest]
  obtain ⟨⟨hreads, hexact⟩, hresolve⟩ := (duration?_reads hread).2 overFiveMinutes hchars
  have hlong : (shortest : ℚ) ≤ overFiveMinutes.milliseconds := by
    have hshortest : shortest = 300000 := rfl
    rw [hmilliseconds, hshortest]
    norm_num
  exact ⟨⟨hread, hchars, hclear, htext⟩, hreads, hexact hclear,
    (hresolve _ noon htext).1 rfl hlong⟩

def overOneSecond : Written where
  number := ⟨false, "1".toList, "001".toList, List.all_eq_true.1 (by decide),
    List.all_eq_true.1 (by decide), by decide⟩
  spaces := 0
  unit := "s".toList
  length := 1000
  known := by decide

def belowFiveMinutes : Written where
  number := ⟨false, "4".toList, "9999999999999999".toList, List.all_eq_true.1 (by decide),
    List.all_eq_true.1 (by decide), by decide⟩
  spaces := 0
  unit := "m".toList
  length := 60000
  known := by decide

/-- Of 1001 milliseconds 1000 are read, and five minutes of what is less. -/
theorem not_read_exactly :
    (¬∀ text r (w : Written), duration? text = some r → trimChars text.toList = w.chars →
      '.' ∈ text.toList → w.milliseconds < 2 ^ 53 →
        r = signed w.number.negative ⌊w.milliseconds⌋₊) ∧
    ¬∀ cadence now i (w : Written), resolve cadence now = .ok i →
      trimChars i.text.toList = w.chars → '.' ∈ i.text.toList →
        (shortest : ℚ) ≤ w.milliseconds := by
  constructor
  · intro h
    have hmilliseconds : overOneSecond.milliseconds = (1001 : ℕ) := by
      have hwhole : valueOf "1".toList = 1 := by decide
      have hplaces : valueOf "001".toList = 1 := by decide
      change ((valueOf "1".toList : ℚ) + valueOf "001".toList / 10 ^ 3) * (1000 : ℕ) = _
      rw [hwhole, hplaces]
      norm_num
    have hread : duration? "1.001s" = some 1000 := by decide
    have hexact := h "1.001s" 1000 overOneSecond hread (by decide) (by decide)
      (by rw [hmilliseconds]; norm_num)
    rw [hmilliseconds, Nat.floor_natCast] at hexact
    exact absurd hexact (by decide)
  · intro h
    have hless : belowFiveMinutes.milliseconds < shortest := by
      have hwhole : valueOf "4".toList = 4 := by decide
      have hplaces : valueOf "9999999999999999".toList = 9999999999999999 := by decide
      have hshortest : shortest = 300000 := rfl
      change ((valueOf "4".toList : ℚ) + valueOf "9999999999999999".toList / 10 ^ 16) *
        (60000 : ℕ) < _
      rw [hwhole, hplaces, hshortest]
      norm_num
    have hread : resolve "every 4.9999999999999999m" noon =
        .ok ⟨"4.9999999999999999m", 300000, 0⟩ := by decide
    exact absurd (h _ _ _ belowFiveMinutes hread (by decide) (by decide)) (not_le.2 hless)

end FlowPipeline.Cadence
