import FlowPipeline.Proofs.WrittenDurations

/-! # Cadences with whole durations

A cadence that says `every` and then a duration is taken at its word, however many spaces are in it.
The milliseconds of a whole number of units are exact as long as binary64 numbers count in ones, and
past that they are never rounded below the shortest interval.
-/

namespace FlowPipeline

/-! ## Words -/

namespace Text

variable {c : Char} {w rest : List Char}

theorem words_blank_cons (hc : isBlank c = true) : words (c :: rest) = words rest := by
  conv_lhs => unfold words
  rw [if_pos hc]

theorem words_replicate_append (n : ℕ) (rest : List Char) :
    words (List.replicate n ' ' ++ rest) = words rest := by
  induction n with
  | zero => rfl
  | succ n ih => rw [List.replicate_succ, List.cons_append, words_blank_cons (by decide), ih]

/-- The first word ends where the first blank stands. -/
theorem words_append (hw : ∀ c ∈ w, isBlank c = false) (hne : w ≠ [])
    (hrest : ∀ c ∈ rest.head?, isBlank c = true) : words (w ++ rest) = w :: words rest := by
  induction w with
  | nil => exact absurd rfl hne
  | cons c w ih =>
    have hc : ¬isBlank c = true := by simp [hw c List.mem_cons_self]
    conv_lhs => unfold words
    rw [List.cons_append]
    dsimp only
    rw [if_neg hc]
    rcases w with _ | ⟨d, w⟩
    · rcases rest with _ | ⟨d, rest⟩
      · rfl
      · exact if_pos (hrest d rfl)
    · have hd : ¬isBlank d = true := by simp [hw d (by simp)]
      have htail := ih (fun c hc => hw c (List.mem_cons_of_mem _ hc)) (List.cons_ne_nil d w)
      rw [List.cons_append] at htail ⊢
      dsimp only
      rw [if_neg hd, htail]

theorem words_eq_singleton (hw : ∀ c ∈ w, isBlank c = false) (hne : w ≠ []) : words w = [w] := by
  have hwords : words (w ++ []) = w :: words [] := words_append hw hne (by simp)
  rwa [List.append_nil] at hwords

theorem isBlank_of_isDigit (h : isDigit c = true) : isBlank c = false := by
  have hzeros : ∀ z ∈ zeros, ∀ d < 10, isBlank (Char.ofNat (z + d)) = false := by decide +kernel
  obtain ⟨d, hd⟩ := Option.isSome_iff_exists.1 h
  obtain ⟨z, hz, hvalue, hlt⟩ := digit?_range hd
  rw [← Char.ofNat_toNat c, hvalue]
  exact hzeros z hz d hlt

theorem IsLetter.isBlank_eq_false (h : IsLetter c) : isBlank c = false := by
  have hcode := h.code
  simp only [isBlank, Bool.or_eq_false_iff, Bool.and_eq_false_iff, decide_eq_false_iff_not,
    beq_eq_false_iff_ne]
  omega

/-- Texts that begin and end with no blank are trimmed already. -/
theorem trimChars_append_append {v w : List Char} (hv : ∀ c ∈ v, isBlank c = false) (hvne : v ≠ [])
    (hw : ∀ c ∈ w, isBlank c = false) (hwne : w ≠ []) (cs : List Char) :
    trimChars (v ++ (cs ++ w)) = v ++ (cs ++ w) := by
  obtain ⟨c, v, rfl⟩ := List.exists_cons_of_ne_nil hvne
  have hc : ¬isBlank c = true := by simp [hv c List.mem_cons_self]
  have hend : ∀ hne, ¬isBlank ((c :: v ++ (cs ++ w)).getLast hne) = true := by
    intro hne
    rw [List.getLast_append_of_ne_nil _ (by simp [hwne]), List.getLast_append_of_ne_nil _ hwne,
      hw _ (List.getLast_mem hwne)]
    exact Bool.false_ne_true
  rw [trimChars, List.cons_append, List.dropWhile_cons_of_neg hc]
  exact List.rdropWhile_eq_self_iff.2 hend

end Text

namespace Cadence
open Text Binary64

/-! ## Cadences that are written as durations -/

namespace Numeral

theorem chars_head (n : Numeral) : ∃ c cs, n.chars = c :: cs ∧ ¬IsLetter c := by
  rw [chars]
  split_ifs
  · exact ⟨'-', n.body, rfl, fun h => absurd h.1 (by decide)⟩
  · obtain ⟨c, cs, hbody, hdigit | rfl⟩ := n.body_head
    · exact ⟨c, cs, hbody, fun h => Bool.false_ne_true (h.isDigit_eq_false.symm.trans hdigit)⟩
    · exact ⟨'.', cs, hbody, fun h => absurd h.1 (by decide)⟩

theorem isBlank_eq_false (n : Numeral) : ∀ c ∈ n.chars, isBlank c = false := by
  intro c hc
  rw [chars, body, pointed] at hc
  simp only [List.mem_append] at hc
  rcases hc with hsign | hwhole | hpointed
  · split_ifs at hsign
    · obtain rfl := List.mem_singleton.1 hsign
      decide
    · cases hsign
  · exact isBlank_of_isDigit (n.whole_digits c hwhole)
  · split_ifs at hpointed
    · cases hpointed
    · rcases List.mem_cons.1 hpointed with rfl | hplaces
      · decide
      · exact isBlank_of_isDigit (n.places_digits c hplaces)

end Numeral

namespace Written

/-- The same duration with one space at most. -/
def collapsed (w : Written) : Written := { w with spaces := min w.spaces 1 }

theorem rounded_collapsed (w : Written) : w.collapsed.rounded = w.rounded := by
  simp only [rounded, product, collapsed]

theorem unit_isBlank_eq_false (w : Written) : ∀ c ∈ w.unit, isBlank c = false :=
  fun c hc => (unit_letters w.known c hc).isBlank_eq_false

theorem number_ne_nil (w : Written) : w.number.chars ≠ [] := by
  obtain ⟨c, cs, hchars, -⟩ := w.number.chars_head
  rw [hchars]
  exact List.cons_ne_nil c cs

theorem chars_head (w : Written) : ∃ c cs, w.chars = c :: cs ∧ ¬IsLetter c := by
  obtain ⟨c, cs, hchars, hc⟩ := w.number.chars_head
  exact ⟨c, cs ++ w.tail, by rw [chars, hchars]; rfl, hc⟩

theorem words_chars (w : Written) (hunit : w.unit ≠ []) :
    [' '].intercalate (words w.chars) = w.collapsed.chars := by
  rcases hspaces : w.spaces with _ | spaces
  · have hchars : w.chars = w.number.chars ++ w.unit := by rw [chars, tail, hspaces]; rfl
    have hcollapsed : w.collapsed.chars = w.number.chars ++ w.unit := by
      rw [chars, tail, collapsed, hspaces]; rfl
    have hword : ∀ c ∈ w.number.chars ++ w.unit, isBlank c = false := fun c hc =>
      (List.mem_append.1 hc).elim (w.number.isBlank_eq_false c) (w.unit_isBlank_eq_false c)
    rw [hchars, hcollapsed, words_eq_singleton hword (by simp [hunit])]
    simp
  · have hcollapsed : w.collapsed.chars = w.number.chars ++ ' ' :: w.unit := by
      rw [chars, tail, collapsed, hspaces, Nat.min_eq_right (Nat.le_add_left 1 spaces)]; rfl
    rw [chars, tail, words_append w.number.isBlank_eq_false w.number_ne_nil, words_replicate_append,
      words_eq_singleton w.unit_isBlank_eq_false hunit, hcollapsed]
    · simp
    · rw [hspaces]
      rintro c ⟨⟩
      decide

end Written

theorem collapse_every {cs : List Char} (hne : words cs ≠ []) :
    collapse (String.ofList ("every ".toList ++ cs)) =
      String.ofList ("every ".toList ++ [' '].intercalate (words cs)) := by
  obtain ⟨first, others, hcons⟩ := List.exists_cons_of_ne_nil hne
  have hlead : "every ".toList ++ cs = "every".toList ++ ' ' :: cs := rfl
  have hword : ∀ c ∈ "every".toList, isBlank c = false := by
    simpa using (show ("every".toList.all fun c => !isBlank c) = true by decide)
  have hevery : words ("every".toList ++ ' ' :: cs) = "every".toList :: words cs := by
    rw [words_append hword (by decide), words_blank_cons (by decide)]
    rintro c ⟨⟩
    decide
  rw [collapse, String.toList_ofList, hlead, hevery, hcons]
  simp

/-- A text is no phrase if all phrases have a letter where it has none. -/
theorem lookup_phrases_eq_none (n : Nat)
    (hletters : ∀ p ∈ phrases,
      p.1.toList[n]?.all (fun c => 97 ≤ c.toNat ∧ c.toNat ≤ 122) = true)
    {cs : List Char} {c : Char} (hcs : cs[n]? = some c) (hc : ¬IsLetter c) :
    phrases.lookup (lower cs) = none := by
  refine List.lookup_eq_none_iff.2 fun p hp => bne_iff_ne.2 fun heq => hc ?_
  rw [IsLetter]
  refine of_decide_eq_true ((Option.all_eq_true _ _).1 (hletters p hp) (fold c) ?_)
  rw [← heq, lower, String.toList_ofList, List.getElem?_map, hcs]
  rfl

theorem isPrefixOf_every (cs : List Char) :
    "every ".toList.isPrefixOf (("every ".toList ++ cs).map fold) = true := by
  have hlead : "every ".toList.map fold = "every ".toList := by decide
  rw [List.map_append, hlead, List.isPrefixOf_iff_prefix]
  exact List.prefix_append _ _

/-- Behind `every` stands a duration, unless a letter comes next. -/
theorem intervalText_every {cs ds : List Char} {c : Char} (hc : ¬IsLetter c)
    (hwords : [' '].intercalate (words cs) = c :: ds) :
    intervalText (String.ofList ("every ".toList ++ cs)) = (String.ofList (c :: ds), false) := by
  have hne : words cs ≠ [] := by
    intro hnil
    rw [hnil] at hwords
    cases hwords
  have hlead := isPrefixOf_every (c :: ds)
  rw [intervalText, collapse_every hne, hwords]
  dsimp only
  -- What follows the first space of a phrase is a letter.
  rw [String.toList_ofList, lookup_phrases_eq_none 6 (by decide) rfl hc]
  -- The six characters must not be looked into when they are dropped.
  generalize "every ".toList = lead at hlead
  dsimp only
  rw [if_pos hlead, List.drop_left]

theorem resolve_every (w : Written) (hunit : w.unit ≠ []) (hlength : w.collapsed.chars.length ≤ 100)
    (now : Moment) :
    resolve (String.ofList ("every ".toList ++ w.chars)) now =
      if w.rounded < shortest then .error .tooShort
      else .ok ⟨String.ofList w.collapsed.chars, w.rounded, offset w.rounded now⟩ := by
  have hread : duration? (String.ofList w.collapsed.chars) = some w.collapsed.rounded := by
    refine duration?_of_written _ ?_ ?_
    · rw [String.length_ofList]
      exact hlength
    · rw [String.toList_ofList]
      exact trimChars_append_append w.number.isBlank_eq_false w.number_ne_nil
        w.unit_isBlank_eq_false hunit _
  rw [w.rounded_collapsed] at hread
  have htext : intervalText (String.ofList ("every ".toList ++ w.chars)) =
      (String.ofList w.collapsed.chars, false) := by
    obtain ⟨c, cs, hchars, hc⟩ := w.collapsed.chars_head
    rw [hchars]
    exact intervalText_every hc ((w.words_chars hunit).trans hchars)
  exact resolve_eq htext hread now

/-! ## Whole numbers of units -/

theorem nearest_mul_natCast {n length : ℕ} (hlength : 0 < length) (h : n * length < 2 ^ 53) :
    nearest (nearest n * length) = (n * length : ℕ) := by
  rw [nearest_natCast ((Nat.le_mul_of_pos_right n hlength).trans_lt h), ← Nat.cast_mul,
    nearest_natCast h]

/-- Neither of the two roundings goes below a bound that is kept by them. -/
theorem le_nearest_mul {k n length : ℕ} (hlength : 0 < length) (hk : k < 2 ^ 53)
    (h : k ≤ n * length) : (k : ℚ) ≤ nearest (nearest n * length) := by
  have hone : (1 : ℚ) ≤ length := by exact_mod_cast hlength
  rw [← nearest_natCast hk]
  refine nearest_mono (Nat.cast_nonneg k) ?_
  by_cases hn : n < 2 ^ 53
  · rw [nearest_natCast hn]
    exact_mod_cast h
  · have hkn : (k : ℚ) ≤ n := by exact_mod_cast hk.le.trans (not_lt.1 hn)
    calc (k : ℚ)
      _ = nearest k := (nearest_natCast hk).symm
      _ ≤ nearest n := nearest_mono (Nat.cast_nonneg k) hkn
      _ ≤ nearest n * length := le_mul_of_one_le_right (nearest_nonneg _) hone

namespace Written

variable {digits unit : List Char} {length : ℕ}

/-- The duration of a whole number, in digits, and a unit. -/
def ofDigits (hdigits : ∀ c ∈ digits, isDigit c = true) (hne : digits ≠ []) (spaces : ℕ)
    (hunit : units.lookup (unitName unit) = some length) : Written where
  number := ⟨false, digits, [], hdigits, by simp, by simpa using hne⟩
  spaces := spaces
  unit := unit
  length := length
  known := hunit

variable {hdigits : ∀ c ∈ digits, isDigit c = true} {hne : digits ≠ []} {spaces : ℕ}
  {hunit : units.lookup (unitName unit) = some length}

theorem chars_ofDigits : (ofDigits hdigits hne spaces hunit).chars =
    digits ++ (List.replicate spaces ' ' ++ unit) := by
  simp [chars, tail, ofDigits, Numeral.chars, Numeral.body, Numeral.pointed]

theorem collapsed_ofDigits : (ofDigits hdigits hne spaces hunit).collapsed =
    ofDigits hdigits hne (min spaces 1) hunit :=
  rfl

theorem rounded_ofDigits : (ofDigits hdigits hne spaces hunit).rounded =
    ⌊nearest (nearest (valueOf digits) * length)⌋₊ := by
  have hsize : (ofDigits hdigits hne spaces hunit).number.size = valueOf digits := by
    simp [ofDigits, Numeral.size, valueOf, natOfDigits]
  rw [rounded, product, hsize]
  rfl

end Written

variable {digits unit : List Char} {name : String} {length : ℕ}

theorem lookup_unit (hname : (name, length) ∈ units) (hunit : unit.map Char.toLower = name.toList) :
    units.lookup (unitName unit) = some length := by
  have hnames : ∀ p ∈ units, p.1 ≠ "" ∧ units.lookup p.1 = some p.2 ∧
    p.1.toList.all (fun c => c.toNat ≤ 122) = true := by decide
  obtain ⟨hne, hlookup, hletters⟩ := hnames _ hname
  have hfold : unit.map fold = name.toList := by
    rw [← hunit]
    refine List.map_congr_left fun c hc => if_neg fun hkelvin => ?_
    obtain rfl : c = Char.ofNat 0x212A := by rw [← hkelvin, Char.ofNat_toNat]
    exact absurd (List.all_eq_true.1 hletters _ (hunit ▸ List.mem_map_of_mem hc)) (by decide)
  have hlower : lower unit = name := by rw [lower, hfold, String.ofList_toList]
  rw [unitName, hlower, if_neg (by simpa using hne)]
  exact hlookup

theorem unit_ne_nil (hname : (name, length) ∈ units) (hunit : unit.map Char.toLower = name.toList) :
    unit ≠ [] := by
  have hnames : ∀ p ∈ units, p.1.toList ≠ [] := by decide
  rintro rfl
  exact hnames _ hname hunit.symm

/-- The cadence of a number and a unit with spaces between them. -/
def every (digits : List Char) (spaces : ℕ) (unit : List Char) : String :=
  String.ofList ("every ".toList ++ (digits ++ (List.replicate spaces ' ' ++ unit)))

/-- The milliseconds of a whole number of units are exact below `2 ^ 53`, and all in all they are on
the right side of the shortest interval. -/
theorem resolve_whole (hdigits : ∀ c ∈ digits, isDigit c = true) (hne : digits ≠ [])
    (hname : (name, length) ∈ units) (hunit : unit.map Char.toLower = name.toList) {spaces : ℕ}
    (hlength : digits.length + min spaces 1 + unit.length ≤ 100) (now : Moment) :
    (valueOf digits * length < shortest →
      resolve (every digits spaces unit) now = .error .tooShort) ∧
    (shortest ≤ valueOf digits * length →
      ∃ i, resolve (every digits spaces unit) now = .ok i ∧
        (valueOf digits * length < 2 ^ 53 → i.length = valueOf digits * length)) := by
  have hpos : 0 < length := units_pos _ hname
  set w := Written.ofDigits hdigits hne spaces (lookup_unit hname hunit) with hw
  have hrounded : w.rounded = ⌊nearest (nearest (valueOf digits) * length)⌋₊ :=
    Written.rounded_ofDigits
  have hchars : String.ofList ("every ".toList ++ w.chars) = every digits spaces unit :=
    congrArg (fun cs => String.ofList ("every ".toList ++ cs)) Written.chars_ofDigits
  have hshort : w.collapsed.chars.length ≤ 100 := by
    rw [hw, Written.collapsed_ofDigits, Written.chars_ofDigits, List.length_append,
      List.length_append, List.length_replicate]
    omega
  have hresolve := resolve_every w (unit_ne_nil hname hunit) hshort now
  rw [hchars, hrounded] at hresolve
  have hexact (h : valueOf digits * length < 2 ^ 53) :
      ⌊nearest (nearest (valueOf digits) * length)⌋₊ = valueOf digits * length := by
    rw [nearest_mul_natCast hpos h, Nat.floor_natCast]
  constructor
  · intro hless
    rw [hresolve, hexact (hless.trans (by decide))]
    exact if_pos (by exact_mod_cast hless)
  · intro hmore
    have hbound : shortest ≤ ⌊nearest (nearest (valueOf digits) * length)⌋₊ :=
      Nat.le_floor (le_nearest_mul hpos (by decide) hmore)
    refine ⟨_, hresolve.trans (if_neg ?_), fun h => ?_⟩
    · exact_mod_cast not_lt.2 hbound
    · dsimp only
      exact_mod_cast hexact h

def afternoon : Moment := ⟨⟨2024, 1, 1⟩, 15, 36, 12, 345000, some 0⟩

/-- Five minutes with leading zeros and spaces, and one millisecond less. -/
theorem resolve_whole_five_minutes :
    ((∀ c ∈ "0005".toList, isDigit c = true) ∧ ("mins", 60000) ∈ units ∧
      "MiNs".toList.map Char.toLower = "mins".toList ∧ shortest ≤ valueOf "0005".toList * 60000) ∧
    (∃ i, resolve "every 0005   MiNs" afternoon = .ok i ∧ i.length = 300000) ∧
    resolve "every 299999ms" afternoon = .error .tooShort := by
  have hdigits : ∀ c ∈ "0005".toList, isDigit c = true := List.all_eq_true.1 (by decide)
  have hname : ("mins", 60000) ∈ units := by decide
  have hunit : "MiNs".toList.map Char.toLower = "mins".toList := by decide
  have hlength : "0005".toList.length + min 3 1 + "MiNs".toList.length ≤ 100 := by decide
  have hlong : shortest ≤ valueOf "0005".toList * 60000 := by decide
  have haccepted := resolve_whole hdigits (by decide) hname hunit hlength afternoon
  have hdigits' : ∀ c ∈ "299999".toList, isDigit c = true := List.all_eq_true.1 (by decide)
  have hname' : ("ms", 1) ∈ units := by decide
  have hunit' : "ms".toList.map Char.toLower = "ms".toList := by decide
  have hlength' : "299999".toList.length + min 0 1 + "ms".toList.length ≤ 100 := by decide
  have hshort : valueOf "299999".toList * 1 < shortest := by decide
  have hrejected := resolve_whole hdigits' (by decide) hname' hunit' hlength' afternoon
  obtain ⟨i, hi, hexact⟩ := haccepted.2 hlong
  exact ⟨⟨hdigits, hname, hunit, hlong⟩, ⟨i, hi, hexact (by decide)⟩, hrejected.1 hshort⟩

end Cadence
end FlowPipeline
