import FlowPipeline.Proofs.EmittedIntervals

/-! # Spellings of cadences

Neither the case of ASCII letters nor the blanks of a cadence decide on its schedule. The fixed
phrases, the lead `every`, the digits and the units are all found in the text with small letters and
one space for every run of blanks.
-/

namespace FlowPipeline

namespace Text

variable {c e : Char} {cs : List Char}

/-! ## Runs of blanks -/

/-- One space for every run of blanks. -/
def squeeze : List Char → List Char
  | [] => []
  | c :: cs =>
    if isBlank c then if cs.head?.any isBlank then squeeze cs else ' ' :: squeeze cs
    else c :: squeeze cs

theorem words_cons_of_not_blank (hc : ¬isBlank c = true) :
    words (c :: cs) =
      if cs.head?.any isBlank then [c] :: words cs
      else (c :: (words cs).headD []) :: (words cs).tail := by
  conv_lhs => unfold words
  rw [if_neg hc]
  rcases cs with _ | ⟨d, cs⟩
  · rfl
  · dsimp only [List.head?_cons, Option.any_some]
    by_cases hd : isBlank d = true
    · exact (if_pos hd).trans (if_pos hd).symm
    · refine (if_neg hd).trans (Eq.trans ?_ (if_neg hd).symm)
      rcases words (d :: cs) with _ | ⟨w, ws⟩ <;> rfl

theorem words_append_blank (hc : isBlank c = true) : words (cs ++ [c]) = words cs := by
  induction cs with
  | nil => rw [List.nil_append, words_blank_cons hc]
  | cons d cs ih =>
    rw [List.cons_append]
    by_cases hd : isBlank d = true
    · rw [words_blank_cons hd, words_blank_cons hd, ih]
    · rw [words_cons_of_not_blank hd, words_cons_of_not_blank hd, ih]
      rcases cs with _ | ⟨f, cs⟩
      · exact if_pos hc
      · rfl

theorem words_trimChars (cs : List Char) : words (trimChars cs) = words cs := by
  have hend (cs : List Char) : words (dropBlankEnd cs) = words cs := by
    induction cs using List.reverseRecOn with
    | nil => rfl
    | append_singleton cs c ih =>
      by_cases hc : isBlank c = true
      · rw [words_append_blank hc, ← ih]
        exact congrArg words (List.rdropWhile_concat_pos isBlank cs c hc)
      · exact congrArg words (List.rdropWhile_concat_neg isBlank cs c hc)
  have hstart : words (cs.dropWhile isBlank) = words cs := by
    induction cs with
    | nil => rfl
    | cons c cs ih =>
      by_cases hc : isBlank c = true
      · rw [List.dropWhile_cons_of_pos hc, ih, words_blank_cons hc]
      · rw [List.dropWhile_cons_of_neg hc]
  rw [trimChars, hend, hstart]

theorem words_ne_nil (hlast : ∀ c ∈ cs.getLast?, isBlank c = false) (hne : cs ≠ []) :
    words cs ≠ [] := by
  induction cs with
  | nil => exact absurd rfl hne
  | cons c cs ih =>
    by_cases hc : isBlank c = true
    · rcases cs with _ | ⟨d, cs⟩
      · exact absurd hc (by simp [hlast c rfl])
      · rw [words_blank_cons hc]
        exact ih (by simpa using hlast) (List.cons_ne_nil d cs)
    · rw [words_cons_of_not_blank hc]
      split_ifs <;> exact List.cons_ne_nil _ _

/-- Up to blanks in front, the words stand one space apart. -/
theorem squeeze_eq (hlast : ∀ c ∈ cs.getLast?, isBlank c = false) :
    squeeze cs = (if cs.head?.any isBlank then [' '] else []) ++ [' '].intercalate (words cs) := by
  induction cs with
  | nil => rfl
  | cons c cs ih =>
    rcases cs with _ | ⟨d, cs⟩
    · have hc : isBlank c = false := hlast c rfl
      have hwords : words [c] = [[c]] := words_eq_singleton (by simpa using hc) (by simp)
      simp [squeeze, hc, hwords]
    · have hlast' : ∀ e ∈ (d :: cs).getLast?, isBlank e = false := by simpa using hlast
      have hsqueeze := ih hlast'
      obtain ⟨w, ws, hwords⟩ :=
        List.exists_cons_of_ne_nil (words_ne_nil hlast' (List.cons_ne_nil d cs))
      rw [squeeze, hsqueeze]
      by_cases hc : isBlank c = true <;> by_cases hd : isBlank d = true
      · simp [hc, hd, words_blank_cons]
      · simp [hc, hd, words_blank_cons]
      · simp [hc, hd, words_cons_of_not_blank hc, hwords]
      · rcases ws with _ | ⟨v, vs⟩ <;> simp [hc, hd, words_cons_of_not_blank hc, hwords]

theorem toList_collapse (s : String) : (collapse s).toList = squeeze (trimChars s.toList) := by
  have hlast : ∀ c ∈ (trimChars s.toList).getLast?, isBlank c = false := by
    intro c hc
    obtain ⟨hne, rfl⟩ := List.mem_getLast?_eq_getLast hc
    exact Bool.eq_false_iff.2 (List.rdropWhile_last_not isBlank _ hne)
  have hhead : (trimChars s.toList).head?.any isBlank = false := by
    rcases htrim : trimChars s.toList with _ | ⟨d, ds⟩
    · rfl
    · obtain ⟨es, hes⟩ : d :: ds <+: s.toList.dropWhile isBlank :=
        htrim ▸ List.rdropWhile_prefix isBlank _
      have hd := List.head?_dropWhile_not isBlank s.toList
      rw [← hes] at hd
      exact hd
  rw [squeeze_eq hlast, hhead, words_trimChars, collapse, String.toList_ofList]
  rfl

/-! ## Small letters -/

theorem fold_fold (c : Char) : fold (fold c) = fold c := by
  by_cases hc : IsLetter c
  · have hcapital : ¬('A' ≤ fold c ∧ fold c ≤ 'Z') := by
      rintro ⟨-, hhigh⟩
      have hcode : (fold c).toNat ≤ 90 := UInt32.le_iff_toNat_le.1 hhigh
      exact absurd (hc.1.trans hcode) (by decide)
    have hkelvin : (fold c).toNat ≠ 0x212A := (hc.2.trans_lt (by decide)).ne
    generalize fold c = d at hcapital hkelvin
    rw [fold, if_neg hkelvin]
    exact dif_neg hcapital
  · rw [fold_eq_self hc, fold_eq_self hc]

theorem IsLetter.fold (h : IsLetter c) : IsLetter (fold c) := by
  rw [IsLetter, fold_fold]
  exact h

/-- Only letters have another small form. -/
theorem toLower_cases (c : Char) : c.toLower = c ∨ IsLetter c ∧ c.toLower = fold c := by
  by_cases hkelvin : c.toNat = 0x212A
  · obtain rfl : c = Char.ofNat 0x212A := by rw [← hkelvin, Char.ofNat_toNat]
    exact .inl (by decide)
  · have hfold : c.toLower = fold c := (if_neg hkelvin).symm
    by_cases hc : IsLetter c
    · exact .inr ⟨hc, hfold⟩
    · exact .inl (hfold.trans (fold_eq_self hc))

theorem fold_toLower (c : Char) : fold c.toLower = fold c := by
  obtain h | ⟨-, h⟩ := toLower_cases c
  · rw [h]
  · rw [h, fold_fold]

theorem isBlank_toLower (c : Char) : isBlank c.toLower = isBlank c := by
  obtain h | ⟨hc, h⟩ := toLower_cases c
  · rw [h]
  · rw [h, hc.isBlank_eq_false, hc.fold.isBlank_eq_false]

theorem isDigit_toLower (c : Char) : isDigit c.toLower = isDigit c := by
  obtain h | ⟨hc, h⟩ := toLower_cases c
  · rw [h]
  · rw [h, hc.isDigit_eq_false, hc.fold.isDigit_eq_false]

theorem toLower_beq (he : ¬IsLetter e) (c : Char) : (c.toLower == e) = (c == e) := by
  have hne {d : Char} (hd : IsLetter d) : (d == e) = false := by
    rw [beq_eq_false_iff_ne]
    rintro rfl
    exact he hd
  obtain h | ⟨hc, h⟩ := toLower_cases c
  · rw [h]
  · rw [h, hne hc, hne hc.fold]

/-- The text with small ASCII letters. -/
def lowered (cs : List Char) : List Char := cs.map Char.toLower

theorem lowered_eq_self (h : ∀ c ∈ cs, ¬IsLetter c) : lowered cs = cs := by
  have hsame : ∀ c ∈ cs, c.toLower = id c := fun c hc =>
    (toLower_cases c).resolve_right fun hcase => h c hc hcase.1
  rw [lowered, List.map_congr_left hsame, List.map_id]

theorem length_lowered (cs : List Char) : (lowered cs).length = cs.length := List.length_map ..

theorem takeWhile_lowered {p : Char → Bool} (hp : ∀ c, p c.toLower = p c) (cs : List Char) :
    (lowered cs).takeWhile p = lowered (cs.takeWhile p) := by
  rw [lowered, List.takeWhile_map]
  exact congrArg (fun q => lowered (cs.takeWhile q)) (funext hp)

theorem dropWhile_lowered {p : Char → Bool} (hp : ∀ c, p c.toLower = p c) (cs : List Char) :
    (lowered cs).dropWhile p = lowered (cs.dropWhile p) := by
  rw [lowered, List.dropWhile_map]
  exact congrArg (fun q => lowered (cs.dropWhile q)) (funext hp)

theorem drop_lowered (n : ℕ) (cs : List Char) : (lowered cs).drop n = lowered (cs.drop n) :=
  List.map_drop.symm

theorem trimChars_lowered (cs : List Char) : trimChars (lowered cs) = lowered (trimChars cs) := by
  have hreverse (cs : List Char) : (lowered cs).reverse = lowered cs.reverse :=
    List.map_reverse.symm
  rw [trimChars, dropBlankEnd, dropWhile_lowered isBlank_toLower, hreverse,
    dropWhile_lowered isBlank_toLower, hreverse]
  rfl

theorem map_fold_lowered (cs : List Char) : (lowered cs).map fold = cs.map fold := by
  rw [lowered, List.map_map]
  exact congrArg (cs.map ·) (funext fold_toLower)

theorem takeWhile_isDigit_lowered (cs : List Char) :
    (lowered cs).takeWhile isDigit = cs.takeWhile isDigit := by
  rw [takeWhile_lowered isDigit_toLower]
  refine lowered_eq_self fun c hc hletter => ?_
  exact Bool.false_ne_true (hletter.isDigit_eq_false.symm.trans (List.mem_takeWhile_imp hc))

end Text

namespace Cadence
open Text

/-! ## Durations -/

theorem lower_lowered (cs : List Char) : lower (lowered cs) = lower cs :=
  congrArg String.ofList (map_fold_lowered cs)

theorem not_isLetter_of_mem {c : Char} (h : c ∈ ['-', '.', ' ']) : ¬IsLetter c := by
  have hnone : ['-', '.', ' '].all (fun c => ¬(97 ≤ (fold c).toNat ∧ (fold c).toNat ≤ 122)) =
      true := by decide
  rw [IsLetter]
  exact of_decide_eq_true (List.all_eq_true.1 hnone c h)

theorem pointPart_lowered (cs : List Char) : pointPart (lowered cs) = pointPart cs := by
  by_cases hpoint : cs.head? = some '.'
  · obtain ⟨cs, rfl⟩ := List.head?_eq_some_iff.1 hpoint
    have hlowered : lowered ('.' :: cs) = '.' :: lowered cs := rfl
    rw [hlowered, pointPart, pointPart, takeWhile_isDigit_lowered]
  · have hnone : ∀ c, cs.head? = some c → c ≠ '.' := by
      rintro c hc rfl
      exact hpoint hc
    rw [pointPart_of_head hnone, pointPart_of_head]
    intro c hc hdot
    rw [lowered, List.head?_map] at hc
    obtain ⟨d, hd, rfl⟩ := Option.map_eq_some_iff.1 hc
    have hbeq := toLower_beq (not_isLetter_of_mem (c := '.') (by simp)) d
    rw [hdot, beq_self_eq_true, eq_comm, beq_iff_eq] at hbeq
    exact hpoint (hbeq ▸ hd)

theorem numberPart_lowered (cs : List Char) : numberPart (lowered cs) = numberPart cs := by
  have hsign : ((lowered cs).take 1).takeWhile (· == '-') = (cs.take 1).takeWhile (· == '-') := by
    have htake : (lowered cs).take 1 = lowered (cs.take 1) := List.map_take.symm
    rw [htake, takeWhile_lowered (toLower_beq (not_isLetter_of_mem (by simp)))]
    refine lowered_eq_self fun c hc => not_isLetter_of_mem ?_
    have hhyphen := List.mem_takeWhile_imp hc
    obtain rfl := beq_iff_eq.1 hhyphen
    exact List.mem_cons_self
  rw [numberPart_eq hsign (drop_lowered _ _) (takeWhile_isDigit_lowered _) (drop_lowered _ _),
    pointPart_lowered]
  exact (numberPart_eq rfl rfl rfl rfl).symm

/-- Small letters write the same duration. -/
theorem duration?_lowered (text : String) :
    duration? (String.ofList (lowered text.toList)) = duration? text := by
  have hspace := toLower_beq (not_isLetter_of_mem (c := ' ') (by simp))
  unfold duration?
  rw [String.length_ofList, length_lowered, String.toList_ofList, trimChars_lowered,
    String.length_toList]
  dsimp only
  rw [numberPart_lowered, drop_lowered, dropWhile_lowered hspace, lower_lowered]

theorem duration?_congr {text text' : String} (h : lowered text.toList = lowered text'.toList) :
    duration? text = duration? text' := by
  rw [← duration?_lowered text, h, duration?_lowered]

/-! ## Cadences -/

/-- The cadence with small letters and one space for every run of blanks, and no blanks around. -/
def plain (cadence : String) : List Char := lowered (squeeze (trimChars cadence.toList))

/-- The same outcome, up to the case of letters in the text of the interval. -/
inductive Alike : Except Fault Interval → Except Fault Interval → Prop where
  | ok {i j : Interval} (length : i.length = j.length) (offset : i.offset = j.offset)
    (text : lowered i.text.toList = lowered j.text.toList) : Alike (.ok i) (.ok j)
  | error (e : Fault) : Alike (.error e) (.error e)

variable {cadence cadence' : String}

theorem intervalText_congr (h : plain cadence = plain cadence') :
    lowered (intervalText cadence).1.toList = lowered (intervalText cadence').1.toList ∧
      (intervalText cadence).2 = (intervalText cadence').2 := by
  have htext : lowered (collapse cadence).toList = lowered (collapse cadence').toList := by
    rw [toList_collapse, toList_collapse]
    exact h
  have hfold : (collapse cadence).toList.map fold = (collapse cadence').toList.map fold := by
    rw [← map_fold_lowered, htext, map_fold_lowered]
  have hlower : lower (collapse cadence).toList = lower (collapse cadence').toList :=
    congrArg String.ofList hfold
  unfold intervalText
  generalize "every ".toList = lead
  dsimp only
  rw [hlower, hfold]
  split
  · exact ⟨rfl, rfl⟩
  · split_ifs
    · rw [String.toList_ofList, String.toList_ofList, ← drop_lowered, htext, drop_lowered]
      exact ⟨rfl, rfl⟩
    · exact ⟨htext, rfl⟩

/-- Cadences that differ in case and blanks alone have the same schedule or the same fault. -/
theorem resolve_alike (h : plain cadence = plain cadence') (now : Moment) :
    Alike (resolve cadence now) (resolve cadence' now) := by
  obtain ⟨htext, hfixed⟩ := intervalText_congr h
  have hread := duration?_congr htext
  unfold resolve
  generalize intervalText cadence = read at htext hfixed hread ⊢
  generalize intervalText cadence' = read' at htext hfixed hread ⊢
  obtain ⟨text, fixed⟩ := read
  obtain ⟨text', fixed'⟩ := read'
  obtain rfl : fixed = fixed' := hfixed
  dsimp only at htext hread ⊢
  rw [hread]
  rcases duration? text' with _ | length
  · exact .error .invalid
  · dsimp only
    split_ifs
    · exact .error .tooShort
    · exact .ok rfl rfl htext

/-- Capitals, tabs and line breaks. -/
theorem resolve_alike_spelled :
    plain "every 7 min" = plain "\t EVERY  7\nMin " ∧
    (resolve "every 7 min" afternoon = .ok ⟨"7 min", 420000, 72345⟩ ∧
      Alike (resolve "every 7 min" afternoon) (resolve "\t EVERY  7\nMin " afternoon)) := by
  have hplain : plain "every 7 min" = plain "\t EVERY  7\nMin " := by decide
  have hresolve : resolve "every 7 min" afternoon = .ok ⟨"7 min", 420000, 72345⟩ := by
    decide
  exact ⟨hplain, hresolve, resolve_alike hplain afternoon⟩

end Cadence
end FlowPipeline
