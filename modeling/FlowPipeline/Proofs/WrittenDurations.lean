import FlowPipeline.Cadence
import FlowPipeline.Proofs.NearestNumbers
import Mathlib.Data.List.DropRight
import Mathlib.Data.List.TakeWhile

/-! # Durations as they are written

A duration is written as a numeral, spaces and the name of a unit. What is read is exactly that, and
its milliseconds are the product of numeral and unit, both rounded to binary64 and cut off.
-/

namespace FlowPipeline

/-! ## Digits -/

namespace Text

variable {c : Char} {cs ds : List Char}

/-- The character is a decimal digit of some script. -/
def isDigit (c : Char) : Bool := (digit? c).isSome

/-- The number that digits write. -/
def valueOf (cs : List Char) : ℕ := natOfDigits (cs.filterMap digit?)

theorem digit?_range {d : ℕ} (h : digit? c = some d) : ∃ z ∈ zeros, c.toNat = z + d ∧ d < 10 := by
  obtain ⟨z, hz, rfl⟩ := Option.map_eq_some_iff.1 h
  have hrange := List.find?_some hz
  simp only [Bool.and_eq_true, decide_eq_true_eq] at hrange
  exact ⟨z, List.mem_of_find?_eq_some hz, by omega, by omega⟩

theorem natOfDigits_append (as bs : List ℕ) :
    natOfDigits (as ++ bs) = natOfDigits as * 10 ^ bs.length + natOfDigits bs := by
  induction bs using List.reverseRecOn with
  | nil => simp [natOfDigits]
  | append_singleton bs b ih =>
    have hlast (ns : List ℕ) : natOfDigits (ns ++ [b]) = 10 * natOfDigits ns + b := by
      simp [natOfDigits]
    rw [← List.append_assoc, hlast, hlast, ih, List.length_append, List.length_singleton, pow_succ]
    ring

theorem natOfDigits_lt {ns : List ℕ} (h : ∀ n ∈ ns, n < 10) : natOfDigits ns < 10 ^ ns.length := by
  induction ns using List.reverseRecOn with
  | nil => exact one_pos
  | append_singleton ns n ih =>
    have hns := ih fun m hm => h m (List.mem_append_left _ hm)
    have hn := h n (by simp)
    rw [natOfDigits_append, List.length_append, List.length_singleton, pow_succ]
    simp only [natOfDigits, List.foldl_cons, List.foldl_nil, Nat.mul_zero, Nat.zero_add] at hns ⊢
    omega

theorem valueOf_lt (cs : List Char) : valueOf cs < 10 ^ cs.length := by
  have hdigits : ∀ n ∈ cs.filterMap digit?, n < 10 := by
    intro n hn
    obtain ⟨c, -, hc⟩ := List.mem_filterMap.1 hn
    obtain ⟨-, -, -, hlt⟩ := digit?_range hc
    exact hlt
  exact (natOfDigits_lt hdigits).trans_le
    (Nat.pow_le_pow_right (by decide) (List.length_filterMap_le _ _))

theorem length_filterMap_digit? (h : ∀ c ∈ cs, isDigit c = true) :
    (cs.filterMap digit?).length = cs.length :=
  List.filterMap_length_eq_length.2 h

theorem valueOf_append (cs : List Char) (hds : ∀ c ∈ ds, isDigit c = true) :
    valueOf (cs ++ ds) = valueOf cs * 10 ^ ds.length + valueOf ds := by
  rw [valueOf, List.filterMap_append, natOfDigits_append, length_filterMap_digit? hds]
  rfl

theorem takeWhile_isDigit_append {rest : List Char} (hcs : ∀ c ∈ cs, isDigit c = true)
    (hrest : ∀ c ∈ rest.head?, isDigit c = false) : (cs ++ rest).takeWhile isDigit = cs := by
  rw [List.takeWhile_append_of_pos hcs]
  rcases rest with _ | ⟨c, rest⟩
  · simp
  · simp [hrest c rfl]

/-- The values of the digits that a text begins with, and what follows them. -/
def splitDigits (cs : List Char) : List ℕ × List Char :=
  ((cs.takeWhile isDigit).filterMap digit?, cs.drop (cs.takeWhile isDigit).length)

theorem splitDigits_append {rest : List Char} (hcs : ∀ c ∈ cs, isDigit c = true)
    (hrest : ∀ c ∈ rest.head?, isDigit c = false) :
    splitDigits (cs ++ rest) = (cs.filterMap digit?, rest) := by
  rw [splitDigits, takeWhile_isDigit_append hcs hrest, List.drop_left]

/-- The character counts as an ASCII letter. -/
def IsLetter (c : Char) : Prop := 97 ≤ (fold c).toNat ∧ (fold c).toNat ≤ 122

theorem IsLetter.code (h : IsLetter c) : c.toNat = 0x212A ∨ 65 ≤ c.toNat ∧ c.toNat ≤ 122 := by
  rw [IsLetter, fold] at h
  split_ifs at h with hkelvin
  · exact .inl hkelvin
  · unfold Char.toLower at h
    split at h
    case isTrue hcapital =>
      have hlow : 65 ≤ c.toNat := UInt32.le_iff_toNat_le.1 hcapital.1
      have hhigh : c.toNat ≤ 90 := UInt32.le_iff_toNat_le.1 hcapital.2
      exact .inr ⟨hlow, by omega⟩
    case isFalse => exact .inr ⟨by omega, h.2⟩

theorem IsLetter.isDigit_eq_false (h : IsLetter c) : isDigit c = false := by
  have hcode := h.code
  have hzeros : ∀ z ∈ zeros, z + 10 ≤ 65 ∨ 122 < z ∧ (z + 10 ≤ 0x212A ∨ 0x212A < z) := by decide
  rw [isDigit, Option.isSome_eq_false_iff, Option.isNone_iff_eq_none,
    Option.eq_none_iff_forall_ne_some]
  intro d hd
  obtain ⟨z, hz, hvalue, hlt⟩ := digit?_range hd
  have hzero := hzeros z hz
  omega

theorem length_trimChars_le (cs : List Char) : (trimChars cs).length ≤ cs.length :=
  ((List.rdropWhile_prefix isBlank _).length_le).trans (List.dropWhile_suffix isBlank).length_le

end Text

namespace Cadence
open Text Binary64

/-! ## Numerals -/

/-- The point and the digits behind it that text begins with; none of them without digits. -/
def pointPart : List Char → List Char
  | '.' :: cs => if (cs.takeWhile isDigit).isEmpty then [] else '.' :: cs.takeWhile isDigit
  | _ => []

theorem pointPart_of_head {cs : List Char} (h : ∀ c ∈ cs.head?, c ≠ '.') : pointPart cs = [] := by
  unfold pointPart
  split
  case h_1 => exact absurd rfl (h '.' rfl)
  case h_2 => rfl

theorem numberPart_eq {cs sign body whole tail : List Char}
    (hsign : (cs.take 1).takeWhile (· == '-') = sign) (hbody : cs.drop sign.length = body)
    (hwhole : body.takeWhile isDigit = whole) (htail : body.drop whole.length = tail) :
    numberPart cs = sign ++ whole ++ pointPart tail := by
  subst hsign hbody hwhole
  unfold numberPart
  dsimp only
  split
  case h_1 hpoint =>
    obtain rfl := hpoint.symm.trans htail
    rfl
  case h_2 hpoint =>
    rw [pointPart_of_head, List.append_nil]
    · rfl
    · rintro c hc rfl
      obtain ⟨cs, hcs⟩ := List.head?_eq_some_iff.1 hc
      exact hpoint cs (htail.trans hcs)

theorem exists_sign (cs : List Char) :
    ∃ (negative : Bool) (body : List Char),
      (cs.take 1).takeWhile (· == '-') = (if negative then ['-'] else []) ∧
        cs = (if negative then ['-'] else []) ++ body := by
  rcases cs with _ | ⟨c, cs⟩
  · exact ⟨false, [], rfl, rfl⟩
  · by_cases hc : c = '-'
    · exact ⟨true, cs, by simp [hc], by rw [hc]; rfl⟩
    · exact ⟨false, c :: cs, by simp [hc], rfl⟩

theorem exists_places (cs : List Char) :
    ∃ places rest : List Char, (∀ c ∈ places, isDigit c = true) ∧
      pointPart cs = (if places.isEmpty then [] else '.' :: places) ∧
        cs = pointPart cs ++ rest := by
  by_cases hpoint : cs.head? = some '.'
  · obtain ⟨cs, rfl⟩ := List.head?_eq_some_iff.1 hpoint
    refine ⟨cs.takeWhile isDigit, ?_⟩
    rw [pointPart]
    split_ifs
    · exact ⟨'.' :: cs, fun c => List.mem_takeWhile_imp, rfl, rfl⟩
    · refine ⟨cs.dropWhile isDigit, fun c => List.mem_takeWhile_imp, rfl, ?_⟩
      rw [List.cons_append, List.takeWhile_append_dropWhile]
  · rw [pointPart_of_head (by rintro c hc rfl; exact hpoint hc)]
    exact ⟨[], cs, by simp, rfl, rfl⟩

/-- A numeral: a hyphen or none, digits, and behind them a point with more digits or none. -/
structure Numeral where
  negative : Bool
  whole : List Char
  places : List Char
  whole_digits : ∀ c ∈ whole, isDigit c = true
  places_digits : ∀ c ∈ places, isDigit c = true
  ne_nil : whole ++ places ≠ []

namespace Numeral

/-- The point and the digits behind it. -/
def pointed (n : Numeral) : List Char := if n.places.isEmpty then [] else '.' :: n.places

/-- The numeral without its sign. -/
def body (n : Numeral) : List Char := n.whole ++ n.pointed

def chars (n : Numeral) : List Char := (if n.negative then ['-'] else []) ++ n.body

/-- The number that is written, without its sign. -/
def size (n : Numeral) : ℚ := valueOf n.whole + valueOf n.places / 10 ^ n.places.length

variable {rest : List Char}

theorem body_head (n : Numeral) : ∃ c cs, n.body = c :: cs ∧ (isDigit c = true ∨ c = '.') := by
  obtain ⟨-, whole, places, hwhole, hplaces, hne⟩ := n
  rcases whole with _ | ⟨c, whole⟩
  · rcases places with _ | ⟨d, places⟩
    · exact absurd rfl hne
    · exact ⟨'.', d :: places, rfl, .inr rfl⟩
  · exact ⟨c, _, rfl, .inl (hwhole c List.mem_cons_self)⟩

theorem body_head_ne (n : Numeral) : ∃ c cs, n.body = c :: cs ∧ c ≠ '-' ∧ c ≠ '+' := by
  obtain ⟨c, cs, hbody, hc⟩ := n.body_head
  refine ⟨c, cs, hbody, ?_, ?_⟩
  · rintro rfl
    exact absurd hc (by decide)
  · rintro rfl
    exact absurd hc (by decide)

/-- What goes on behind the whole digits begins with the point. -/
theorem pointed_head (n : Numeral) :
    ∀ c ∈ n.pointed.head?, isDigit c = false := by
  intro c hc
  rw [pointed] at hc
  split_ifs at hc
  · simp at hc
  · obtain rfl : '.' = c := Option.some.inj hc
    decide

theorem isDigit_of_mem (n : Numeral) : ∀ c ∈ n.whole ++ n.places, isDigit c = true := by
  intro c hc
  exact (List.mem_append.1 hc).elim (n.whole_digits c) (n.places_digits c)

/-- A numeral is read up to what does not go on with it. -/
theorem numberPart_chars (n : Numeral) (hrest : ∀ c ∈ rest.head?, isDigit c = false ∧ c ≠ '.') :
    numberPart (n.chars ++ rest) = n.chars := by
  have hsign : ((n.chars ++ rest).take 1).takeWhile (· == '-') =
      if n.negative then ['-'] else [] := by
    obtain ⟨c, cs, hbody, hc, -⟩ := n.body_head_ne
    rw [chars, hbody]
    rcases n.negative with _ | _
    · simp [hc]
    · simp
  have hbody :
      (n.chars ++ rest).drop (if n.negative then ['-'] else []).length = n.body ++ rest := by
    rw [chars, List.append_assoc, List.drop_left]
  have htail : ∀ c ∈ (n.pointed ++ rest).head?, isDigit c = false := by
    intro c hc
    rw [List.head?_append] at hc
    rcases Option.or_eq_some_iff.1 hc with hpointed | ⟨-, hfirst⟩
    · exact n.pointed_head c hpointed
    · exact (hrest c hfirst).1
  have hwhole : (n.body ++ rest).takeWhile isDigit = n.whole := by
    rw [body, List.append_assoc, takeWhile_isDigit_append n.whole_digits htail]
  have hdrop : (n.body ++ rest).drop n.whole.length = n.pointed ++ rest := by
    rw [body, List.append_assoc, List.drop_left]
  have hplaces : (n.places ++ rest).takeWhile isDigit = n.places :=
    takeWhile_isDigit_append n.places_digits fun c hc => (hrest c hc).1
  rw [numberPart_eq hsign hbody hwhole hdrop, chars, Numeral.body, ← List.append_assoc]
  congr 1
  rw [pointed]
  split_ifs with hempty
  · exact pointPart_of_head fun c hc => (hrest c hc).2
  · rw [List.cons_append, pointPart, hplaces, if_neg hempty]

theorem digits_ne_nil (n : Numeral) : (n.whole ++ n.places).filterMap digit? ≠ [] := by
  rw [← List.length_pos_iff, length_filterMap_digit? n.isDigit_of_mem]
  exact List.length_pos_iff.2 n.ne_nil

theorem ofChars?_chars (n : Numeral) :
    Decimal.ofChars? n.chars =
      some ⟨n.negative, valueOf (n.whole ++ n.places), -n.places.length⟩ := by
  unfold Decimal.ofChars?
  split
  case h_1 negative cs hsign =>
    obtain ⟨rfl, rfl⟩ : n.negative = negative ∧ n.body = cs := by
      obtain ⟨c, cs, hbody, hminus, hplus⟩ := n.body_head_ne
      rw [chars] at hsign
      split_ifs at hsign with hnegative
      · rw [hnegative]
        exact Prod.mk.inj hsign
      · rw [Bool.eq_false_of_not_eq_true hnegative]
        rw [hbody] at hsign ⊢
        split at hsign
        case h_1 heq => exact absurd (List.cons.inj heq).1 hminus
        case h_2 heq => exact absurd (List.cons.inj heq).1 hplus
        case h_3 => exact Prod.mk.inj hsign
    clear hsign
    extract_lets digits
    have hdigits {cs rest : List Char} (hcs : ∀ c ∈ cs, isDigit c = true)
        (hrest : ∀ c ∈ rest.head?, isDigit c = false) :
        digits (cs ++ rest) = (cs.filterMap digit?, rest) := splitDigits_append hcs hrest
    clear_value digits
    rw [body, hdigits n.whole_digits n.pointed_head]
    split
    case h_1 whole cs hwhole =>
      obtain ⟨rfl, rfl⟩ := Prod.mk.inj hwhole
      split
      case h_1 places cs hplaces =>
        obtain ⟨rfl, rfl⟩ : n.places.filterMap digit? = places ∧ [] = cs := by
          rw [pointed] at hplaces
          split_ifs at hplaces with hempty
          · rw [List.isEmpty_iff.1 hempty]
            exact Prod.mk.inj hplaces
          · have hall : digits (n.places ++ []) = (n.places.filterMap digit?, []) :=
              hdigits n.places_digits (by simp)
            rw [List.append_nil] at hall
            exact Prod.mk.inj (hall.symm.trans hplaces)
        have hne := n.digits_ne_nil
        rw [List.filterMap_append] at hne
        rw [if_neg (by simpa using hne)]
        rw [valueOf, List.filterMap_append]
        dsimp only
        rw [Option.map_some, length_filterMap_digit? n.places_digits, Int.zero_sub]

theorem size_eq (n : Numeral) :
    n.size = valueOf (n.whole ++ n.places) / (10 : ℚ) ^ n.places.length := by
  have hpower : (10 : ℚ) ^ n.places.length ≠ 0 := by positivity
  rw [valueOf_append _ n.places_digits, size, Nat.cast_add, Nat.cast_mul, Nat.cast_pow, add_div]
  rw [Nat.cast_ofNat, mul_div_cancel_right₀ _ hpower]

theorem size_nonneg (n : Numeral) : 0 ≤ n.size := by
  rw [size]
  positivity

theorem size_lt (n : Numeral) : n.size < 10 ^ (n.whole ++ n.places).length := by
  have hvalue : (valueOf (n.whole ++ n.places) : ℚ) < 10 ^ (n.whole ++ n.places).length := by
    exact_mod_cast valueOf_lt _
  rw [size_eq]
  exact (div_le_self (Nat.cast_nonneg _) (one_le_pow₀ (by norm_num))).trans_lt hvalue

theorem length_digits_le (n : Numeral) : (n.whole ++ n.places).length ≤ n.chars.length := by
  have hplaces : n.places.length ≤ n.pointed.length := by
    rw [pointed]
    split_ifs with hempty
    · rw [List.isEmpty_iff.1 hempty]
    · exact Nat.le_succ _
  rw [chars, body, List.length_append, List.length_append, List.length_append]
  omega

end Numeral

/-- What is read of a number is a numeral, unless there are no digits. -/
theorem exists_numeral {cs : List Char} (h : Decimal.ofChars? (numberPart cs) ≠ none) :
    ∃ (n : Numeral) (rest : List Char), numberPart cs = n.chars ∧ cs = n.chars ++ rest := by
  obtain ⟨negative, body, hsign, rfl⟩ := exists_sign cs
  obtain ⟨tail, hbody⟩ := List.takeWhile_prefix (l := body) isDigit
  obtain ⟨places, rest, hplaces, hpoint, htail⟩ := exists_places tail
  have hdrop : body.drop (body.takeWhile isDigit).length = tail :=
    (congrArg _ hbody.symm).trans List.drop_left
  have hnumber := numberPart_eq hsign List.drop_left rfl hdrop
  rw [hnumber, hpoint, List.append_assoc] at h ⊢
  by_cases hnil : body.takeWhile isDigit ++ places = []
  · -- Without digits the sign is left alone.
    obtain ⟨hwhole, rfl⟩ := List.append_eq_nil_iff.1 hnil
    rw [hwhole] at h
    rcases negative with _ | _
    · exact absurd rfl h
    · exact absurd rfl h
  · refine ⟨⟨negative, _, places, fun _ => List.mem_takeWhile_imp, hplaces, hnil⟩, rest, rfl, ?_⟩
    rw [Numeral.chars, Numeral.body, Numeral.pointed, ← hpoint, List.append_assoc,
      List.append_assoc, ← htail, hbody]

/-! ## Units -/

/-- The unit that a text names; none at all is milliseconds. -/
def unitName (unit : List Char) : String := if (lower unit).isEmpty then "ms" else lower unit

variable {unit : List Char} {length : ℕ}

theorem mem_units (h : units.lookup (unitName unit) = some length) :
    (unitName unit, length) ∈ units := by
  obtain ⟨before, after, hunits, -⟩ := List.lookup_eq_some_iff.1 h
  rw [hunits]
  exact List.mem_append_right before List.mem_cons_self

theorem units_pos : ∀ p ∈ units, 0 < p.2 := by decide

theorem units_lt : ∀ p ∈ units, p.2 < 2 ^ 53 := by decide

/-- Products of numbers and units do not come near the greatest number of the format. -/
theorem nearest_mul_lt {q : ℚ} (hq : 0 ≤ q) (hle : q ≤ 2 ^ 400) (hlength : length < 2 ^ 53) :
    nearest q * length < 2 ^ 1000 := by
  have hlength' : (length : ℚ) ≤ 2 ^ 53 := by exact_mod_cast hlength.le
  calc nearest q * length
    _ ≤ 2 * max q 1 * 2 ^ 53 := by
      gcongr
      exact nearest_le hq
    _ ≤ 2 * 2 ^ 400 * 2 ^ 53 := by
      gcongr
      exact max_le hle (one_le_pow₀ one_le_two)
    _ = 2 ^ 454 := by rw [← pow_succ', ← pow_add]
    _ < 2 ^ 1000 := pow_lt_pow_right₀ one_lt_two (by decide)

theorem unit_letters (h : units.lookup (unitName unit) = some length) : ∀ c ∈ unit, IsLetter c := by
  -- A bounded quantifier would be decided by trying every character there is.
  have hnames : ∀ p ∈ units, p.1.toList.all (fun c => 97 ≤ c.toNat ∧ c.toNat ≤ 122) = true := by
    decide
  intro c hc
  have hne : ¬(lower unit).isEmpty = true := by
    simpa [lower] using List.ne_nil_of_mem hc
  have hletters := List.all_eq_true.1 (hnames _ (mem_units h))
  rw [IsLetter]
  refine of_decide_eq_true (hletters (fold c) ?_)
  rw [unitName, if_neg hne, lower, String.toList_ofList]
  exact List.mem_map_of_mem hc

/-- The unit begins with nothing that could go on with the number or the spaces. -/
theorem unit_head (h : units.lookup (unitName unit) = some length) :
    ∀ c ∈ unit.head?, isDigit c = false ∧ c ≠ '.' ∧ c ≠ ' ' := by
  intro c hc
  have hletter := unit_letters h c (List.mem_of_mem_head? hc)
  refine ⟨hletter.isDigit_eq_false, ?_, ?_⟩
  · rintro rfl
    exact absurd hletter.1 (by decide)
  · rintro rfl
    exact absurd hletter.1 (by decide)

/-! ## Durations -/

/-- A duration as it is written: a numeral, spaces and a unit that is known. -/
structure Written where
  number : Numeral
  spaces : ℕ
  unit : List Char
  length : ℕ
  known : units.lookup (unitName unit) = some length

namespace Written

/-- What stands behind the number. -/
def tail (w : Written) : List Char := List.replicate w.spaces ' ' ++ w.unit

def chars (w : Written) : List Char := w.number.chars ++ w.tail

/-- The milliseconds as binary64 numbers give them, without the sign. -/
def product (w : Written) : ℚ := nearest (nearest w.number.size * w.length)

/-- What is left of them without their fraction. -/
def rounded (w : Written) : ℤ := signed w.number.negative ⌊w.product⌋₊

theorem tail_head (w : Written) : ∀ c ∈ w.tail.head?, isDigit c = false ∧ c ≠ '.' := by
  obtain ⟨-, spaces, unit, -, known⟩ := w
  rcases spaces with _ | spaces
  · intro c hc
    have hunit := unit_head known c (by simpa [tail] using hc)
    exact ⟨hunit.1, hunit.2.1⟩
  · rintro c ⟨⟩
    decide

theorem dropWhile_tail (w : Written) : w.tail.dropWhile (· == ' ') = w.unit := by
  rw [tail, List.dropWhile_append_of_pos (by simp)]
  rcases hunit : w.unit with _ | ⟨c, unit⟩
  · rfl
  · have hspace := (unit_head w.known c (by rw [hunit]; rfl)).2.2
    exact List.dropWhile_cons_of_neg (by simpa using hspace)

theorem length_digits_le (w : Written) (h : w.chars.length ≤ 100) :
    (w.number.whole ++ w.number.places).length ≤ 100 := by
  rw [chars, List.length_append] at h
  have hnumber := w.number.length_digits_le
  omega

theorem length_places_le (w : Written) (h : w.chars.length ≤ 100) :
    w.number.places.length ≤ 100 := by
  have hdigits := w.length_digits_le h
  rw [List.length_append] at hdigits
  omega

theorem length_pos (w : Written) : 0 < w.length := units_pos _ (mem_units w.known)

/-- The number is rounded, then its product with the length of the unit. -/
theorem truncate?_eq (w : Written) (h : w.chars.length ≤ 100) :
    (Binary64.mul (Decimal.toBinary64 ⟨w.number.negative,
      valueOf (w.number.whole ++ w.number.places), -w.number.places.length⟩)
        (.ofNat w.length)).truncate? = some w.rounded := by
  have hdigits := w.length_digits_le h
  have hvalue := (valueOf_lt (w.number.whole ++ w.number.places)).trans_le
    (Nat.pow_le_pow_right (by decide) hdigits)
  have hnumber := hasSize_toBinary64 w.number.negative hvalue (w.length_places_le h)
  rw [← w.number.size_eq] at hnumber
  have hsize : w.number.size ≤ 2 ^ 400 := by
    calc w.number.size
      _ ≤ 10 ^ (w.number.whole ++ w.number.places).length := w.number.size_lt.le
      _ ≤ 10 ^ 100 := pow_le_pow_right₀ (by norm_num) hdigits
      _ ≤ (2 ^ 4) ^ 100 := pow_le_pow_left₀ (by norm_num) (by norm_num) _
      _ = 2 ^ 400 := (pow_mul 2 4 100).symm
  have hlength := hasSize_ofNat (units_lt _ (mem_units w.known))
  have hsmall := nearest_mul_lt w.number.size_nonneg hsize (units_lt _ (mem_units w.known))
  rw [(hnumber.mul hlength hsmall).truncate?, Bool.bne_false]
  rfl

end Written

variable {text : String}

theorem duration?_of_written (w : Written) (hlength : text.length ≤ 100)
    (hchars : trimChars text.toList = w.chars) : duration? text = some w.rounded := by
  have hshort : w.chars.length ≤ 100 := hchars ▸ (length_trimChars_le _).trans hlength
  have hnumber : numberPart w.chars = w.number.chars := w.number.numberPart_chars w.tail_head
  have hunit : (w.chars.drop w.number.chars.length).dropWhile (· == ' ') = w.unit := by
    rw [Written.chars, List.drop_left, w.dropWhile_tail]
  have hknown : units.lookup (if (lower w.unit).isEmpty then "ms" else lower w.unit) =
      some w.length := w.known
  unfold duration?
  rw [if_neg (Nat.not_lt.2 hlength)]
  dsimp only
  rw [hchars, hnumber, hunit, w.number.ofChars?_chars, hknown]
  exact w.truncate?_eq hshort

/-- Only what is written as a duration is read as one. -/
theorem exists_written {r : ℤ} (h : duration? text = some r) :
    ∃ w : Written, text.length ≤ 100 ∧ trimChars text.toList = w.chars ∧ r = w.rounded := by
  have hlength : text.length ≤ 100 := by
    by_contra hlong
    unfold duration? at h
    rw [if_pos (by omega)] at h
    cases h
  suffices hwritten : ∃ w : Written, trimChars text.toList = w.chars by
    obtain ⟨w, hw⟩ := hwritten
    exact ⟨w, hlength, hw, Option.some.inj (h.symm.trans (duration?_of_written w hlength hw))⟩
  unfold duration? at h
  rw [if_neg (by omega)] at h
  dsimp only at h
  generalize trimChars text.toList = cs at h
  split at h
  case h_1 d length hd hunit =>
    obtain ⟨n, rest, hnumber, rfl⟩ := exists_numeral (hd.symm ▸ Option.some_ne_none d)
    rw [hnumber, List.drop_left] at hunit
    refine ⟨⟨n, (rest.takeWhile (· == ' ')).length, rest.dropWhile (· == ' '), length, hunit⟩, ?_⟩
    rw [Written.chars, Written.tail]
    have hspaces : rest.takeWhile (· == ' ') =
        List.replicate (rest.takeWhile (· == ' ')).length ' ' :=
      List.eq_replicate_of_mem fun c hc => by simpa using List.mem_takeWhile_imp hc
    rw [← hspaces, List.takeWhile_append_dropWhile]
  case h_2 => cases h

/-- Other cadences than the phrases are accepted by their length. -/
theorem resolve_eq {cadence : String} {r : ℤ} (htext : intervalText cadence = (text, false))
    (h : duration? text = some r) (now : Moment) :
    resolve cadence now =
      if r < shortest then .error .tooShort else .ok ⟨text, r, offset r now⟩ := by
  unfold resolve
  rw [htext]
  dsimp only
  rw [h]
  simp only [Bool.not_false, Bool.true_and, decide_eq_true_eq]

end Cadence
end FlowPipeline
