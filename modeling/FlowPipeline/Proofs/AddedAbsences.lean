import FlowPipeline.Proofs.TypeTags

/-! # Absences behind a tag

Behind a tag any number of alternatives may say that a value can be missing, in any order and with
any blanks. All of them are taken off before the type is looked up, and nothing of the tag is. What
was taken off is written once behind the type, `null` before `undefined`.
-/

namespace FlowPipeline

/-! ## Texts that end with no blank -/

namespace Text

variable {a b cs w : List Char}

theorem dropWhile_eq_self_of_trimChars (h : trimChars cs = cs) : cs.dropWhile isBlank = cs := by
  have hprefix : trimChars cs <+: cs.dropWhile isBlank := List.rdropWhile_prefix _ _
  refine (List.dropWhile_suffix _).eq_of_length_le ?_
  calc cs.length
    _ = (trimChars cs).length := by rw [h]
    _ ≤ (cs.dropWhile isBlank).length := hprefix.length_le

theorem dropBlankEnd_eq_self_of_trimChars (h : trimChars cs = cs) : dropBlankEnd cs = cs := by
  rwa [trimChars, dropWhile_eq_self_of_trimChars h] at h

/-- What ends with no blank is kept in front of any other text. -/
theorem dropBlankEnd_append_of_end (ha : dropBlankEnd a = a) (b : List Char) :
    dropBlankEnd (a ++ b) = a ++ dropBlankEnd b := by
  have hreverse : a.reverse.dropWhile isBlank = a.reverse := by
    rw [← List.reverse_inj, List.reverse_reverse]
    exact ha
  rw [dropBlankEnd, dropBlankEnd, List.reverse_append, List.dropWhile_append, hreverse]
  split_ifs with hempty
  · rw [List.isEmpty_iff.1 hempty, List.reverse_reverse, List.reverse_nil, List.append_nil]
  · rw [List.reverse_append, List.reverse_reverse]

theorem dropBlankEnd_append_word (hw : ∀ c ∈ w, isBlank c = false) (hne : w ≠ []) :
    dropBlankEnd (a ++ w) = a ++ w := by
  refine List.rdropWhile_eq_self_iff.2 fun _ => ?_
  rw [List.getLast_append_of_ne_nil _ hne, hw _ (List.getLast_mem hne)]
  exact Bool.false_ne_true

/-- A text that ends with no blank has no suffix of blanks. -/
theorem dropWhile_ne_nil (ha : dropBlankEnd a = a) (hsuffix : w <:+ a) (hne : w ≠ []) :
    w.dropWhile isBlank ≠ [] := by
  intro hnil
  obtain ⟨before, rfl⟩ := hsuffix
  rw [dropBlankEnd_append (List.dropWhile_eq_nil_iff.1 hnil)] at ha
  have hshort : (dropBlankEnd before).length ≤ before.length :=
    (List.rdropWhile_prefix isBlank before).length_le
  have hlength := congrArg List.length ha
  rw [List.length_append] at hlength
  have hpos := List.length_pos_iff.2 hne
  omega

/-! ## Words that do not cross -/

theorem prefix_of_prefix_append (h : w <+: a ++ b) (hb : ∀ c ∈ b.head?, c ∉ w) : w <+: a := by
  induction a generalizing w with
  | nil =>
    rcases w with _ | ⟨c, w⟩
    · exact List.nil_prefix
    · obtain ⟨rest, hrest⟩ := h
      have hhead : c ∈ b.head? := by simp [show b = c :: (w ++ rest) from hrest.symm]
      exact absurd List.mem_cons_self (hb c hhead)
  | cons d a ih =>
    rcases w with _ | ⟨c, w⟩
    · exact List.nil_prefix
    · obtain ⟨rfl, hrest⟩ := List.cons_prefix_cons.1 h
      exact List.cons_prefix_cons.2
        ⟨rfl, ih hrest fun e he => List.not_mem_of_not_mem_cons (hb e he)⟩

/-- A word stands on one side of a character that it does not have. -/
theorem infix_append_iff_of_head (hb : ∀ c ∈ b.head?, c ∉ w) :
    w <:+: a ++ b ↔ w <:+: a ∨ w <:+: b := by
  induction a with
  | nil => simp +contextual [List.nil_infix]
  | cons d a ih =>
    have hprefix : w <+: d :: (a ++ b) ↔ w <+: d :: a :=
      ⟨fun h => prefix_of_prefix_append h hb, fun h => h.trans (List.prefix_append (d :: a) b)⟩
    rw [List.cons_append, List.infix_cons_iff, List.infix_cons_iff, ih, hprefix, or_assoc]

theorem infix_blanks_append (ha : ∀ c ∈ a, isBlank c = true) (hw : ∀ c ∈ w, isBlank c = false)
    (hne : w ≠ []) : w <:+: a ++ b ↔ w <:+: b := by
  rw [← infix_dropWhile hw hne, List.dropWhile_append_of_pos ha, infix_dropWhile hw hne]

theorem after?_append (w cs : List Char) : after? w (w ++ cs) = some cs := by
  induction w with
  | nil => rfl
  | cons c w ih => rw [List.cons_append, after?, if_pos rfl, ih]

end Text

namespace FieldType
open Text

/-- The text adds the absences `words` to a tag: in order, each behind a bar, with any blanks around
the bars. -/
inductive Adds : List String → List Char → Prop where
  | nil : Adds [] []
  | cons {word : String} {words : List String} {before between cs : List Char}
      (hword : word ∈ absences) (hbefore : ∀ c ∈ before, isBlank c = true)
      (hbetween : ∀ c ∈ between, isBlank c = true) (h : Adds words cs) :
      Adds (word :: words) (before ++ '|' :: (between ++ (word.toList ++ cs)))

variable {word : String} {words : List String} {a base cs w whole : List Char} {fuel : Nat}

/-- No absence stands within another one. -/
theorem absence_infix_iff : ∀ word ∈ absences, ∀ other ∈ absences,
    word.toList <:+: other.toList ↔ word = other := by
  decide +kernel

namespace Adds

theorem mem_absences (h : Adds words cs) : ∀ word ∈ words, word ∈ absences := by
  induction h with
  | nil => exact fun _ hmem => absurd hmem List.not_mem_nil
  | cons hword _ _ _ ih => exact List.forall_mem_cons.2 ⟨hword, ih⟩

theorem dropWhile (h : Adds words cs) : Adds words (cs.dropWhile isBlank) := by
  rcases h with _ | ⟨hword, hbefore, hbetween, h⟩
  · exact nil
  · rw [List.dropWhile_append_of_pos hbefore]
    have hnone : ∀ c ∈ ([] : List Char), isBlank c = true := List.forall_mem_nil _
    exact cons hword hnone hbetween h

theorem head (h : Adds words cs) : ∀ c ∈ cs.head?, isBlank c = true ∨ c = '|' := by
  rcases h with _ | ⟨-, hbefore, -, -⟩
  · exact fun _ hc => nomatch hc
  · rename_i before _ _
    rcases before with _ | ⟨d, before⟩
    · rintro c ⟨⟩
      exact .inr rfl
    · rintro c ⟨⟩
      exact .inl (hbefore _ List.mem_cons_self)

theorem head_not_mem (h : Adds words cs) (hw : IsPlain w) : ∀ c ∈ cs.head?, c ∉ w := by
  rintro c hc hmem
  rcases h.head c hc with hblank | rfl
  · simp [hw.blank c hmem] at hblank
  · exact hw.bar hmem

theorem bar_mem (h : Adds words cs) (hword : word ∈ words) : '|' ∈ cs := by
  rcases h with _ | ⟨_, _, _, _⟩
  · exact absurd hword List.not_mem_nil
  · simp

theorem dropBlankEnd_eq_self (h : Adds words cs) : dropBlankEnd cs = cs := by
  induction h with
  | nil => rfl
  | @cons word words before between cs hword _ _ _ ih =>
    have hplain := isPlain_of_mem hword
    have hend : dropBlankEnd (before ++ '|' :: between ++ word.toList) =
        before ++ '|' :: between ++ word.toList :=
      dropBlankEnd_append_word hplain.blank hplain.ne_nil
    have happend := dropBlankEnd_append_of_end hend cs
    rw [ih] at happend
    simpa using happend

/-- The words that stand in the text are the ones that it adds. -/
theorem infix_iff (h : Adds words cs) (hword : word ∈ absences) :
    word.toList <:+: cs ↔ word ∈ words := by
  have hplain := isPlain_of_mem hword
  induction h with
  | nil => simp [hplain.ne_nil]
  | @cons other words before between cs hother hbefore hbetween h ih =>
    have hbar : ¬word.toList <+: '|' :: (between ++ (other.toList ++ cs)) := by
      rintro ⟨rest, hrest⟩
      obtain ⟨c, cs, hcs⟩ := List.exists_cons_of_ne_nil hplain.ne_nil
      rw [hcs] at hrest
      exact hplain.bar (hcs ▸ (List.cons.inj hrest).1 ▸ List.mem_cons_self)
    rw [infix_blanks_append hbefore hplain.blank hplain.ne_nil, List.infix_cons_iff,
      or_iff_right hbar, infix_blanks_append hbetween hplain.blank hplain.ne_nil,
      infix_append_iff_of_head (h.head_not_mem hplain), absence_infix_iff word hword other hother,
      List.mem_cons]
    exact or_congr_right ih

end Adds

/-! ## Taking alternatives off -/

theorem afterAlternative?_eq_none
    (h : ∀ r, cs.dropWhile isBlank = '|' :: r → ¬w <+: r.dropWhile isBlank) :
    afterAlternative? w cs = none := by
  rw [afterAlternative?]
  split
  case h_1 r hbar =>
    rw [Option.map_eq_none_iff]
    rcases hafter : after? w (r.dropWhile isBlank) with _ | rest
    · rfl
    · exact absurd (prefix_of_after? hafter) (h r hbar)
  case h_2 => rfl

theorem afterAlternative?_append (hw : IsPlain w) {before between : List Char}
    (hbefore : ∀ c ∈ before, isBlank c = true) (hbetween : ∀ c ∈ between, isBlank c = true)
    (cs : List Char) :
    afterAlternative? w (before ++ '|' :: (between ++ (w ++ cs))) =
      some (cs.dropWhile isBlank) := by
  have hbar : ('|' :: (between ++ (w ++ cs))).dropWhile isBlank = '|' :: (between ++ (w ++ cs)) :=
    List.dropWhile_cons_of_neg (by decide)
  have hword : (w ++ cs).dropWhile isBlank = w ++ cs := by
    obtain ⟨c, r, rfl⟩ := List.exists_cons_of_ne_nil hw.ne_nil
    exact List.dropWhile_cons_of_neg (by simp [hw.blank c List.mem_cons_self])
  rw [afterAlternative?, List.dropWhile_append_of_pos hbefore, hbar]
  show (after? w ((between ++ (w ++ cs)).dropWhile isBlank)).map (·.dropWhile isBlank) = _
  rw [List.dropWhile_append_of_pos hbetween, hword, after?_append, Option.map_some]

theorem dropAlternatives_of_some {r : List Char} (h : afterAlternative? w cs = some r) :
    dropAlternatives w (fuel + 1) cs = dropAlternatives w fuel r := by
  rcases cs with _ | ⟨c, cs⟩
  · cases h
  · conv_lhs => unfold dropAlternatives
    rw [h]

theorem dropAlternatives_of_none {c : Char} (h : afterAlternative? w (c :: cs) = none) :
    dropAlternatives w (fuel + 1) (c :: cs) = c :: dropAlternatives w fuel cs := by
  conv_lhs => unfold dropAlternatives
  rw [h]

/-- A text that ends with no blank and does not have the word: nothing of it is taken off. -/
structure Spares (w a : List Char) : Prop where
  ends : dropBlankEnd a = a
  out : ¬w <:+: a

theorem Spares.afterAlternative?_eq_none (h : Spares w a) (hw : IsPlain w) (hcs : Adds words cs)
    {s : List Char} (hsuffix : s <:+ a) (hne : s ≠ []) : afterAlternative? w (s ++ cs) = none := by
  refine FieldType.afterAlternative?_eq_none fun r hr hprefix => ?_
  have hinside := dropWhile_ne_nil h.ends hsuffix hne
  rw [List.dropWhile_append, if_neg (mt List.isEmpty_iff.1 hinside)] at hr
  obtain ⟨c, t, ht⟩ := List.exists_cons_of_ne_nil hinside
  rw [ht, List.cons_append] at hr
  obtain ⟨rfl, rfl⟩ := List.cons.inj hr
  rw [List.dropWhile_append] at hprefix
  split_ifs at hprefix
  · -- Behind the bar the text is over, and what is added starts with a bar itself.
    exact hw.ne_nil (List.prefix_nil.1
      (prefix_of_prefix_append (a := []) hprefix (hcs.dropWhile.head_not_mem hw)))
  · have htail : t.dropWhile isBlank <:+: a :=
      ((List.dropWhile_suffix _).trans ((List.suffix_cons _ _).trans
        (ht ▸ (List.dropWhile_suffix _).trans hsuffix))).isInfix
    exact h.out ((prefix_of_prefix_append hprefix (hcs.head_not_mem hw)).isInfix.trans htail)

theorem Spares.dropAlternatives_append (h : Spares w a) (hw : IsPlain w) (hcs : Adds words cs)
    (fuel : Nat) :
    dropAlternatives w (a.length + fuel) (a ++ cs) = a ++ dropAlternatives w fuel cs := by
  have hskip (s : List Char) (hsuffix : s <:+ a) :
      dropAlternatives w (s.length + fuel) (s ++ cs) = s ++ dropAlternatives w fuel cs := by
    induction s with
    | nil => rw [List.length_nil, Nat.zero_add, List.nil_append, List.nil_append]
    | cons c s ih =>
      have hnone := h.afterAlternative?_eq_none hw hcs hsuffix (List.cons_ne_nil c s)
      have hrest := ih ((List.suffix_cons c s).trans hsuffix)
      rw [List.cons_append] at hnone ⊢
      rw [List.length_cons, Nat.add_right_comm, dropAlternatives_of_none hnone, hrest,
        List.cons_append]
  exact hskip a List.suffix_rfl

/-- An alternative of the other word is spared. -/
theorem spares_alternative {other : String} {before between : List Char} (hword : word ∈ absences)
    (hother : other ∈ absences) (hne : other ≠ word) (hbefore : ∀ c ∈ before, isBlank c = true)
    (hbetween : ∀ c ∈ between, isBlank c = true) :
    Spares word.toList (before ++ '|' :: (between ++ other.toList)) := by
  have hadds := Adds.cons hother hbefore hbetween .nil
  rw [List.append_nil] at hadds
  refine ⟨hadds.dropBlankEnd_eq_self, fun hinfix => hne ?_⟩
  exact (List.mem_singleton.1 ((hadds.infix_iff hword).1 hinfix)).symm

/-- Of what is added, exactly the alternatives of the word are taken off. -/
theorem Adds.dropAlternatives (hw : word ∈ absences) (h : Adds words cs)
    (hfuel : cs.length < fuel) :
    Adds (words.filter (· ≠ word)) (dropAlternatives word.toList fuel cs) := by
  have hplain := isPlain_of_mem hw
  induction words generalizing cs fuel with
  | nil =>
    cases h
    obtain ⟨fuel, rfl⟩ := Nat.exists_eq_add_of_lt hfuel
    exact nil
  | cons other words ih =>
    rcases h with _ | @⟨_, _, before, between, cs, hother, hbefore, hbetween, h⟩
    by_cases heq : other = word
    · subst heq
      obtain ⟨fuel, rfl⟩ := Nat.exists_eq_add_of_lt hfuel
      rw [dropAlternatives_of_some (afterAlternative?_append hplain hbefore hbetween cs),
        List.filter_cons_of_neg (by simp)]
      have hshort := (List.dropWhile_suffix (l := cs) isBlank).length_le
      refine ih h.dropWhile ?_
      simp only [List.length_append, List.length_cons]
      omega
    · have hspares := spares_alternative hw hother heq hbefore hbetween
      have htext : before ++ '|' :: (between ++ (other.toList ++ cs)) =
          before ++ '|' :: (between ++ other.toList) ++ cs := by simp
      rw [htext, List.length_append] at hfuel
      obtain ⟨more, rfl⟩ := Nat.exists_eq_add_of_lt hfuel
      rw [htext, Nat.add_assoc, Nat.add_assoc, hspares.dropAlternatives_append hplain h,
        List.filter_cons_of_pos (by simpa)]
      simpa using cons hother hbefore hbetween (ih h (by omega))

/-! ## Tags with absences behind them -/

theorem trimChars_append_adds (htrim : trimChars base = base) (h : Adds words cs) :
    ∃ cs', trimChars (base ++ cs) = base ++ cs' ∧ Adds words cs' := by
  rw [trimChars, List.dropWhile_append, dropWhile_eq_self_of_trimChars htrim]
  split_ifs with hempty
  · rw [List.isEmpty_iff.1 hempty]
    exact ⟨_, h.dropWhile.dropBlankEnd_eq_self, h.dropWhile⟩
  · refine ⟨cs, ?_, h⟩
    rw [dropBlankEnd_append_of_end (dropBlankEnd_eq_self_of_trimChars htrim),
      h.dropBlankEnd_eq_self]

theorem mentions_append_iff (hword : word ∈ absences) (hout : ¬word.toList <:+: base)
    (h : Adds words cs) : mentions word (base ++ cs) = true ↔ word ∈ words := by
  have hplain := isPlain_of_mem hword
  rw [mentions, Bool.and_eq_true, occursIn_iff, infix_append_iff_of_head (h.head_not_mem hplain),
    or_iff_right hout, h.infix_iff hword, bne_iff_ne]
  refine and_iff_left_of_imp fun hmem heq => hplain.bar ?_
  rw [← heq]
  exact List.mem_append_right base (h.bar_mem hmem)

/-- What is left of a text when one word is cut off: the tag, and what adds the other words. -/
theorem cut_append (hword : word ∈ absences) (hbase : Spares word.toList base) (h : Adds words cs)
    (hmentions : word ∈ words → mentions word whole = true) :
    ∃ cs', cut word whole (base ++ cs) = base ++ cs' ∧ Adds (words.filter (· ≠ word)) cs' := by
  rw [cut]
  split_ifs with hcut
  · refine ⟨_, ?_, h.dropAlternatives hword (Nat.lt_succ_self cs.length)⟩
    rw [List.length_append, Nat.add_assoc]
    exact hbase.dropAlternatives_append (isPlain_of_mem hword) h _
  · refine ⟨cs, rfl, ?_⟩
    have hall : ∀ other ∈ words, decide (other ≠ word) = true := by
      rintro other hmem
      exact decide_eq_true fun heq => hcut (hmentions (heq ▸ hmem))
    rwa [List.filter_eq_self.2 hall]

/-- All that is added is taken off, and nothing of the tag. -/
theorem left_eq_of_adds {tag : String} (hbase : ∀ word ∈ absences, Spares word.toList base)
    (h : Adds words cs) (hwhole : trimChars tag.toList = base ++ cs) : left tag = base := by
  have hmentions (word : String) (hword : word ∈ absences) (hmem : word ∈ words) :
      mentions word (base ++ cs) = true :=
    (mentions_append_iff hword (hbase word hword).out h).2 hmem
  obtain ⟨cs', hnull, hcs'⟩ := cut_append (by decide) (hbase "null" (by decide)) h
    (hmentions "null" (by decide))
  obtain ⟨cs'', hundefined, hcs''⟩ := cut_append (by decide) (hbase "undefined" (by decide)) hcs'
    fun hmem => hmentions "undefined" (by decide) (List.mem_of_mem_filter hmem)
  have hnone : (words.filter (· ≠ "null")).filter (· ≠ "undefined") = [] := by
    simp only [List.filter_filter, List.filter_eq_nil_iff]
    intro word hmem
    have hword := h.mem_absences word hmem
    simp only [absences, List.mem_cons, List.not_mem_nil, or_false] at hword
    rcases hword with rfl | rfl <;> decide
  rw [hnone] at hcs''
  cases hcs''
  rw [left, hwhole, hnull, hundefined, List.append_nil]

/-- The type of a tag is looked up as if nothing were added; what is added stands behind it. -/
theorem ofTag_eq_of_adds {base : String} {added blanks : List Char} (htrim : trim base = base)
    (hout : ∀ word ∈ absences, ¬Within word base) (hadded : Adds words added)
    (hblanks : ∀ c ∈ blanks, isBlank c = true) :
    ofTag (base ++ String.ofList (added ++ blanks)) =
      scriptName base ++ (if "null" ∈ words then " | null" else "") ++
        (if "undefined" ∈ words then " | undefined" else "") := by
  generalize htag : base ++ String.ofList (added ++ blanks) = tag
  have htrim' : trimChars base.toList = base.toList := by
    rw [← String.ofList_inj, String.ofList_toList]
    exact htrim
  obtain ⟨cs, hcs, hadds⟩ := trimChars_append_adds htrim' hadded
  have hwhole : trimChars tag.toList = base.toList ++ cs := by
    rw [← htag, String.toList_append, String.toList_ofList, ← List.append_assoc,
      trimChars_append hblanks, hcs]
  have hleft : left tag = base.toList :=
    left_eq_of_adds (fun word hword => ⟨dropBlankEnd_eq_self_of_trimChars htrim', hout word hword⟩)
      hadds hwhole
  have hsuffix (word : String) (hword : word ∈ absences) :
      (if mentions word (trimChars tag.toList) then " | " ++ word else "") =
        if word ∈ words then " | " ++ word else "" := by
    rw [hwhole]
    exact if_congr (mentions_append_iff hword (hout word hword) hadds) rfl rfl
  calc ofTag tag
    _ = scriptName (String.ofList (left tag)) ++
          (if mentions "null" (trimChars tag.toList) then " | " ++ "null" else "") ++
          (if mentions "undefined" (trimChars tag.toList) then " | " ++ "undefined" else "") := rfl
    _ = _ := by
      rw [hleft, String.ofList_toList, hsuffix "null" (by decide), hsuffix "undefined" (by decide)]
      rfl

/-- Absences behind a tag, in any number, order and spacing, are the alternatives of its type, each
at most once and `null` in front. -/
theorem ofTag_append_absences {base : String} {added blanks : List Char} (htrim : trim base = base)
    (hout : ∀ word ∈ absences, ¬Within word base) (hadded : Adds words added)
    (hblanks : ∀ c ∈ blanks, isBlank c = true) :
    ofTag (base ++ String.ofList (added ++ blanks)) =
      ofTag base ++ (if "null" ∈ words then " | null" else "") ++
        (if "undefined" ∈ words then " | undefined" else "") := by
  have hbase : ofTag base = scriptName base := by
    have hnothing := ofTag_eq_of_adds htrim hout .nil (List.forall_mem_nil _)
    simpa using hnothing
  rw [ofTag_eq_of_adds htrim hout hadded hblanks, hbase]

/-- Blanks of every kind around three absences of an integer. -/
theorem ofTag_append_absences_integer :
    Adds ["undefined", "null", "undefined"] "|undefined \t|\n null| undefined".toList ∧
      ofTag "integer|undefined \t|\n null| undefined  " = "number | null | undefined" := by
  have hnone : ∀ c ∈ ([] : List Char), isBlank c = true := List.forall_mem_nil _
  have hspace : ∀ c ∈ [' '], isBlank c = true := List.all_eq_true.1 (by decide)
  have hspaces : ∀ c ∈ [' ', ' '], isBlank c = true := List.all_eq_true.1 (by decide)
  have htab : ∀ c ∈ [' ', '\t'], isBlank c = true := List.all_eq_true.1 (by decide)
  have hline : ∀ c ∈ ['\n', ' '], isBlank c = true := List.all_eq_true.1 (by decide)
  have hadds : Adds ["undefined", "null", "undefined"]
      "|undefined \t|\n null| undefined".toList :=
    .cons (by decide) hnone hnone <| .cons (by decide) htab hline <|
      .cons (by decide) hnone hspace .nil
  have htrim : trim "integer" = "integer" := by decide
  have hout : ∀ word ∈ absences, ¬Within word "integer" := by decide +kernel
  exact ⟨hadds, (ofTag_append_absences htrim hout hadds hspaces).trans (by decide)⟩

end FieldType
end FlowPipeline
