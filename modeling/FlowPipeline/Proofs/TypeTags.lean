import FlowPipeline.Proofs.ModelReferences
import Mathlib.Data.List.DropRight

/-! # Tags that pass through

A tag is read as alternatives between bars. The alternatives `null` and `undefined` are set apart
from the type, but they are looked for as mere parts of the tag. So a tag without them passes
through if and only if neither word stands within it. Otherwise the word becomes an alternative, and
it is cut off a name that starts with it behind a bar.
-/

namespace FlowPipeline

/-! ## Trimmed parts -/

namespace Text

variable {a b cs w : List Char} {sep : Char}

theorem dropBlankEnd_append (hb : ∀ c ∈ b, isBlank c = true) :
    dropBlankEnd (a ++ b) = dropBlankEnd a := by
  rw [dropBlankEnd, List.reverse_append,
    List.dropWhile_append_of_pos fun c hc => hb c (List.mem_reverse.1 hc)]
  rfl

theorem trimChars_append (hb : ∀ c ∈ b, isBlank c = true) : trimChars (a ++ b) = trimChars a := by
  rw [trimChars, trimChars, List.dropWhile_append]
  split_ifs with hempty
  · rw [List.isEmpty_iff.1 hempty, List.dropWhile_eq_nil_iff.2 hb]
  · exact dropBlankEnd_append hb

theorem trimChars_blank_cons {c : Char} (hc : isBlank c = true) :
    trimChars (c :: cs) = trimChars cs := by
  rw [trimChars, trimChars, List.dropWhile_cons_of_pos hc]

/-- The parts of a text between separators, trimmed. -/
def trimmedParts (sep : Char) (cs : List Char) : List (List Char) := (parts sep cs).map trimChars

theorem trimmedParts_append (sep : Char) (a b : List Char) :
    trimmedParts sep (a ++ sep :: b) = trimmedParts sep a ++ trimmedParts sep b := by
  simp only [trimmedParts, parts_append_cons, List.map_append]

theorem trimmedParts_of_not_mem (h : sep ∉ cs) : trimmedParts sep cs = [trimChars cs] := by
  rw [trimmedParts, parts_of_notMem h, List.map_singleton]

theorem trimmedParts_blank_cons {c : Char} (hc : isBlank c = true) (hsep : c ≠ sep) :
    trimmedParts sep (c :: cs) = trimmedParts sep cs := by
  rw [trimmedParts, trimmedParts, parts, if_neg hsep]
  rcases hparts : parts sep cs with _ | ⟨p, ps⟩
  · rw [parts_eq_splitOn] at hparts
    exact absurd hparts (List.splitOn_ne_nil sep cs)
  · simp only [List.map_cons, trimChars_blank_cons hc]

theorem trimmedParts_dropWhile (hsep : isBlank sep = false) (cs : List Char) :
    trimmedParts sep (cs.dropWhile isBlank) = trimmedParts sep cs := by
  induction cs with
  | nil => rfl
  | cons c cs ih =>
    by_cases hc : isBlank c = true
    · have hne : c ≠ sep := by
        rintro rfl
        simp [hc] at hsep
      rw [List.dropWhile_cons_of_pos hc, trimmedParts_blank_cons hc hne, ih]
    · rw [List.dropWhile_cons_of_neg hc]

/-- Behind the last separator there is one part, and blanks at its end do not matter. -/
theorem trimmedParts_append_blanks (hsep : isBlank sep = false)
    (hb : ∀ c ∈ b, isBlank c = true) : trimmedParts sep (a ++ b) = trimmedParts sep a := by
  have hnot : sep ∉ b := fun h => by simp [hb sep h] at hsep
  by_cases hmem : sep ∈ a
  · -- The last separator is the first one in reverse.
    obtain ⟨last, before, hreverse, hlast⟩ := List.eq_append_cons_of_mem (List.mem_reverse.2 hmem)
    obtain rfl : a = before.reverse ++ sep :: last.reverse := by
      rw [← List.reverse_reverse a, hreverse]
      simp
    have hlast' : sep ∉ last.reverse := mt List.mem_reverse.1 hlast
    have hend : sep ∉ last.reverse ++ b := by simp [hlast, hnot]
    rw [trimmedParts_append, List.append_assoc, List.cons_append, trimmedParts_append,
      trimmedParts_of_not_mem hlast', trimmedParts_of_not_mem hend, trimChars_append hb]
  · have hend : sep ∉ a ++ b := by simp [hmem, hnot]
    rw [trimmedParts_of_not_mem hmem, trimmedParts_of_not_mem hend, trimChars_append hb]

theorem trimmedParts_dropBlankEnd (hsep : isBlank sep = false) (cs : List Char) :
    trimmedParts sep (dropBlankEnd cs) = trimmedParts sep cs := by
  have hblank : ∀ c ∈ cs.rtakeWhile isBlank, isBlank c = true := fun c hc =>
    List.mem_rtakeWhile_imp hc
  calc trimmedParts sep (dropBlankEnd cs)
    _ = trimmedParts sep (cs.rdropWhile isBlank ++ cs.rtakeWhile isBlank) :=
      (trimmedParts_append_blanks hsep hblank).symm
    _ = trimmedParts sep cs := by rw [List.rdropWhile_append_rtakeWhile]

theorem trimmedParts_trimChars (hsep : isBlank sep = false) (cs : List Char) :
    trimmedParts sep (trimChars cs) = trimmedParts sep cs := by
  rw [trimChars, trimmedParts_dropBlankEnd hsep, trimmedParts_dropWhile hsep]

/-! ## Words without blanks -/

theorem occursIn_iff : occursIn w cs = true ↔ w <:+: cs := by
  induction cs with
  | nil => simp [occursIn]
  | cons c cs ih =>
    rw [occursIn, Bool.or_eq_true, ih, List.infix_cons_iff, List.isPrefixOf_iff_prefix]

theorem infix_dropWhile (hw : ∀ c ∈ w, isBlank c = false) (hne : w ≠ []) :
    w <:+: cs.dropWhile isBlank ↔ w <:+: cs := by
  induction cs with
  | nil => rfl
  | cons c cs ih =>
    by_cases hc : isBlank c = true
    · rw [List.dropWhile_cons_of_pos hc, ih, List.infix_cons_iff]
      refine (or_iff_right fun hprefix => ?_).symm
      obtain ⟨x, xs, rfl⟩ := List.exists_cons_of_ne_nil hne
      obtain ⟨rfl, -⟩ := List.cons_prefix_cons.1 hprefix
      simp [hw x List.mem_cons_self] at hc
    · rw [List.dropWhile_cons_of_neg hc]

theorem infix_trimChars (hw : ∀ c ∈ w, isBlank c = false) (hne : w ≠ []) :
    w <:+: trimChars cs ↔ w <:+: cs := by
  have hend (cs : List Char) : w <:+: dropBlankEnd cs ↔ w <:+: cs := by
    rw [← List.reverse_infix, dropBlankEnd, List.reverse_reverse,
      infix_dropWhile (fun c hc => hw c (List.mem_reverse.1 hc)) (by simpa using hne),
      List.reverse_infix]
  rw [trimChars, hend, infix_dropWhile hw hne]

theorem dropBlankEnd_eq_self (hw : ∀ c ∈ w, isBlank c = false) : dropBlankEnd w = w :=
  List.rdropWhile_eq_self_iff.2 fun hl => by simp [hw _ (List.getLast_mem hl)]

theorem dropWhile_eq_self (hw : ∀ c ∈ w, isBlank c = false) : w.dropWhile isBlank = w :=
  List.dropWhile_eq_self_iff.2 fun hl => by simp [hw _ (List.getElem_mem hl)]

theorem trimChars_eq_self (hw : ∀ c ∈ w, isBlank c = false) : trimChars w = w := by
  rw [trimChars, dropWhile_eq_self hw, dropBlankEnd_eq_self hw]

/-- A word at the start of a text is not touched by the blanks at its end. -/
theorem prefix_dropBlankEnd (hw : ∀ c ∈ w, isBlank c = false) (h : w <+: cs) :
    w <+: dropBlankEnd cs := by
  obtain ⟨rest, rfl⟩ := h
  induction rest using List.reverseRecOn with
  | nil =>
    have hself : dropBlankEnd (w ++ []) = w := by rw [List.append_nil, dropBlankEnd_eq_self hw]
    exact hself.symm ▸ List.prefix_rfl
  | append_singleton rest c ih =>
    rw [← List.append_assoc]
    show w <+: (w ++ rest ++ [c]).rdropWhile isBlank
    rw [List.rdropWhile_concat]
    split_ifs
    · exact ih
    · rw [List.append_assoc]
      exact List.prefix_append w _

theorem prefix_trimChars (hw : ∀ c ∈ w, isBlank c = false) (h : w <+: cs) : w <+: trimChars cs := by
  refine prefix_dropBlankEnd hw ?_
  obtain ⟨rest, rfl⟩ := h
  rcases w with _ | ⟨c, w⟩
  · exact List.nil_prefix
  · have hc : ¬isBlank c = true := by simp [hw c List.mem_cons_self]
    rw [List.cons_append, List.dropWhile_cons_of_neg hc]
    exact List.prefix_append (c :: w) rest

theorem tail_trimmedParts_subset (sep c : Char) (cs : List Char) :
    (trimmedParts sep cs).tail ⊆ (trimmedParts sep (c :: cs)).tail := by
  rw [trimmedParts, trimmedParts, parts]
  split_ifs
  · exact (List.tail_sublist _).subset
  · rcases parts sep cs with _ | ⟨p, ps⟩
    · exact List.nil_subset _
    · exact List.Subset.refl _

theorem prefix_of_after? {r : List Char} (h : after? w cs = some r) : w <+: cs := by
  induction w generalizing cs with
  | nil => exact List.nil_prefix
  | cons l ls ih =>
    rcases cs with _ | ⟨c, cs⟩
    · cases h
    · rw [after?] at h
      split_ifs at h with hc
      exact List.cons_prefix_cons.2 ⟨hc, ih h⟩

end Text

namespace FieldType
open Text

/-- The alternatives that say that a value may be missing. -/
def absences : List String := ["null", "undefined"]

/-- The alternatives of a tag. -/
def members (tag : String) : List String := (trimmedParts '|' tag.toList).map String.ofList

/-- The script type of a name; a name that has none stands for itself. -/
def scriptName (name : String) : String := (scriptNames.lookup name).getD name

/-- What a tag without such alternatives is to become. -/
def passed (tag : String) : String := scriptName (trim tag)

/-- The text without the alternatives of a word that the whole tag mentions. -/
def cut (word : String) (whole cs : List Char) : List Char :=
  if mentions word whole then dropAlternatives word.toList (cs.length + 1) cs else cs

/-- What is left of a tag before its type is looked up. -/
def left (tag : String) : List Char :=
  let whole := trimChars tag.toList
  cut "undefined" whole (cut "null" whole whole)

/-- The word stands somewhere in the tag. -/
def Within (word tag : String) : Prop := word.toList <:+: tag.toList

instance (word tag : String) : Decidable (Within word tag) :=
  inferInstanceAs (Decidable (_ <:+: _))

/-- The alternative of a word, where the word stands in the tag. -/
def suffix (word tag : String) : String := if Within word tag then " | " ++ word else ""

/-- Characters that neither trimming nor splitting at bars touches. -/
structure IsPlain (cs : List Char) : Prop where
  ne_nil : cs ≠ []
  bar : '|' ∉ cs
  blank : ∀ c ∈ cs, isBlank c = false

variable {tag word : String} {cs w : List Char}

theorem isPlain_of_mem (hword : word ∈ absences) : IsPlain word.toList := by
  have hall : ∀ word ∈ absences, word.toList ≠ [] ∧ '|' ∉ word.toList ∧
      word.toList.any isBlank = false := by decide
  obtain ⟨hne, hbar, hblank⟩ := hall word hword
  exact ⟨hne, hbar, by simpa using List.any_eq_false.1 hblank⟩

theorem IsPlain.trimmedParts_eq (h : IsPlain w) : trimmedParts '|' w = [w] := by
  rw [trimmedParts_of_not_mem h.bar, trimChars_eq_self h.blank]

/-! ## Alternatives -/

theorem mem_members_iff : word ∈ members tag ↔ word.toList ∈ trimmedParts '|' tag.toList := by
  rw [members, List.mem_map]
  constructor
  · rintro ⟨p, hp, rfl⟩
    rwa [String.toList_ofList]
  · exact fun h => ⟨_, h, String.ofList_toList⟩

theorem members_append (a b : String) : members (a ++ "|" ++ b) = members a ++ members b := by
  have hbar : (a ++ "|" ++ b).toList = a.toList ++ '|' :: b.toList := by simp
  rw [members, hbar, trimmedParts_append, List.map_append]
  rfl

theorem members_trim (tag : String) : members (trim tag) = members tag := by
  rw [members, trim, String.toList_ofList, trimmedParts_trimChars (by decide)]
  rfl

theorem not_mem_members_passed (hword : word ∈ absences) (hmember : word ∉ members tag) :
    word ∉ members (passed tag) := by
  have himages : ∀ pair ∈ scriptNames, ∀ word ∈ absences, word ∉ members pair.2 := by decide
  rw [passed, scriptName]
  rcases hname : scriptNames.lookup (trim tag) with _ | name
  · rwa [Option.getD_none, members_trim]
  · obtain ⟨before, after, hnames, -⟩ := List.lookup_eq_some_iff.1 hname
    exact himages (trim tag, name) (by simp [hnames]) word hword

/-- A word is mentioned where it stands in the tag, whatever it is part of. -/
theorem mentions_iff (hword : word ∈ absences) (hmember : word ∉ members tag) :
    mentions word (trimChars tag.toList) = true ↔ Within word tag := by
  have hplain := isPlain_of_mem hword
  have hother : trimChars tag.toList ≠ word.toList := by
    intro heq
    refine hmember (mem_members_iff.2 ?_)
    rw [← trimmedParts_trimChars (by decide), heq, hplain.trimmedParts_eq]
    exact List.mem_singleton_self _
  rw [mentions, Bool.and_eq_true, occursIn_iff, bne_iff_ne,
    infix_trimChars hplain.blank hplain.ne_nil]
  exact and_iff_left hother

/-! ## Alternatives that are dropped -/

theorem prefix_of_afterAlternative? (hw : IsPlain w) {r : List Char}
    (h : afterAlternative? w cs = some r) : ∃ p ∈ (trimmedParts '|' cs).tail, w <+: p := by
  rw [afterAlternative?] at h
  split at h
  case h_2 => cases h
  case h_1 behind hbar =>
    obtain ⟨r', hafter, -⟩ := Option.map_eq_some_iff.1 h
    obtain ⟨rest, hrest⟩ := prefix_of_after? hafter
    obtain ⟨first, others, hparts⟩ := parts_append_of_notMem hw.bar rest
    refine ⟨trimChars (w ++ first), ?_, prefix_trimChars hw.blank (List.prefix_append w first)⟩
    have htail : (trimmedParts '|' cs).tail = trimmedParts '|' (w ++ rest) := by
      rw [← trimmedParts_dropWhile (by decide) cs, hbar, hrest,
        trimmedParts_dropWhile (by decide), trimmedParts, trimmedParts, parts, if_pos rfl]
      rfl
    rw [htail, trimmedParts, hparts]
    exact List.mem_cons_self

theorem dropAlternatives_eq_self (hw : IsPlain w) (fuel : Nat)
    (h : ∀ p ∈ (trimmedParts '|' cs).tail, ¬w <+: p) : dropAlternatives w fuel cs = cs := by
  induction fuel generalizing cs with
  | zero => rfl
  | succ fuel ih =>
    rcases cs with _ | ⟨c, cs⟩
    · rfl
    · unfold dropAlternatives
      rcases hafter : afterAlternative? w (c :: cs) with _ | r
      · exact congrArg (c :: ·) (ih fun p hp => h p (tail_trimmedParts_subset '|' c cs hp))
      · obtain ⟨p, hp, hprefix⟩ := prefix_of_afterAlternative? hw hafter
        exact absurd hprefix (h p hp)

/-- Only what starts with a word behind a bar can be cut off. -/
theorem left_eq (h : ∀ word ∈ absences, mentions word (trimChars tag.toList) = true →
    ∀ member ∈ (members tag).tail, ¬word.toList <+: member.toList) :
    left tag = trimChars tag.toList := by
  have hcut (word : String) (hword : word ∈ absences) :
      cut word (trimChars tag.toList) (trimChars tag.toList) = trimChars tag.toList := by
    rw [cut]
    split_ifs with hmentions
    · refine dropAlternatives_eq_self (isPlain_of_mem hword) _ fun p hp => ?_
      rw [trimmedParts_trimChars (by decide)] at hp
      have hmember : String.ofList p ∈ (members tag).tail := by
        rw [members, ← List.map_tail]
        exact List.mem_map_of_mem hp
      simpa using h word hword hmentions _ hmember
    · rfl
  rw [left, hcut "null" (by decide), hcut "undefined" (by decide)]

/-! ## Tags without absences -/

/-- The words found within a tag stand behind the type of what is left of it. -/
theorem ofTag_eq_left (h : ∀ word ∈ absences, word ∉ members tag) :
    ofTag tag =
      scriptName (String.ofList (left tag)) ++ suffix "null" tag ++ suffix "undefined" tag := by
  have hsuffix (word : String) (hword : word ∈ absences) :
      (if mentions word (trimChars tag.toList) then " | " ++ word else "") = suffix word tag :=
    if_congr (mentions_iff hword (h word hword)) rfl rfl
  rw [← hsuffix "null" (by decide), ← hsuffix "undefined" (by decide)]
  rfl

theorem members_append_suffix (name tag : String) (hword : word ∈ absences) :
    members (name ++ suffix word tag) =
      members name ++ if Within word tag then [word] else [] := by
  have hown : ∀ word ∈ absences, members (" " ++ word) = [word] := by decide
  have hspace : ∀ c ∈ " ".toList, isBlank c = true := List.all_eq_true.1 (by decide)
  have hblank : members (name ++ " ") = members name := by
    rw [members, String.toList_append, trimmedParts_append_blanks (by decide) hspace]
    rfl
  have hbar : name ++ (" | " ++ word) = name ++ " " ++ "|" ++ (" " ++ word) := by
    simp [← String.toList_inj]
  rw [suffix]
  split_ifs
  · rw [hbar, members_append, hblank, hown word hword]
  · rw [String.append_empty, List.append_nil]

/-- A word found within a tag becomes an alternative of its type. -/
theorem mem_members_ofTag (h : ∀ word ∈ absences, word ∉ members tag) (hword : word ∈ absences)
    (hwithin : Within word tag) : word ∈ members (ofTag tag) := by
  rw [ofTag_eq_left h, members_append_suffix _ _ (by decide),
    members_append_suffix _ _ (by decide)]
  rcases List.mem_pair.1 hword with rfl | rfl
  · simp [hwithin]
  · simp [hwithin]

/-- A tag without absences passes through if and only if neither word stands within it. Otherwise
the word becomes an alternative, and only what starts with a word behind a bar is cut besides. -/
theorem ofTag_passes (tag : String) (h : ∀ word ∈ absences, word ∉ members tag) :
    (ofTag tag = passed tag ↔ ∀ word ∈ absences, ¬Within word tag) ∧
      (∀ word ∈ absences, Within word tag →
        word ∈ members (ofTag tag) ∧ word ∉ members (passed tag)) ∧
      ((∀ member ∈ (members tag).tail, ∀ word ∈ absences, ¬word.toList <+: member.toList) →
        ofTag tag = passed tag ++ suffix "null" tag ++ suffix "undefined" tag) := by
  have hadded (word : String) (hword : word ∈ absences) (hwithin : Within word tag) :
      word ∈ members (ofTag tag) ∧ word ∉ members (passed tag) :=
    ⟨mem_members_ofTag h hword hwithin, not_mem_members_passed hword (h word hword)⟩
  have hkept (hleft : left tag = trimChars tag.toList) :
      ofTag tag = passed tag ++ suffix "null" tag ++ suffix "undefined" tag := by
    rw [ofTag_eq_left h, hleft]
    rfl
  refine ⟨⟨fun heq word hword hwithin => ?_, fun hout => ?_⟩, hadded, fun htail => ?_⟩
  · obtain ⟨hmem, hnot⟩ := hadded word hword hwithin
    exact hnot (heq ▸ hmem)
  · have hleft : left tag = trimChars tag.toList := left_eq fun word hword hmentions =>
      absurd ((mentions_iff hword (h word hword)).1 hmentions) (hout word hword)
    rw [hkept hleft, suffix, suffix, if_neg (hout "null" (by decide)),
      if_neg (hout "undefined" (by decide)), String.append_empty, String.append_empty]
  · exact hkept (left_eq fun word hword _ member hmember => htail member hmember word hword)

/-- A union of a model and a known type passes through. -/
theorem ofTag_passes_union :
    (∀ word ∈ absences, word ∉ members " GithubIssue | Date ") ∧
      ofTag " GithubIssue | Date " = "GithubIssue | Date" := by
  have h : ∀ word ∈ absences, word ∉ members " GithubIssue | Date " := by decide +kernel
  have hout : ∀ word ∈ absences, ¬Within word " GithubIssue | Date " := by decide +kernel
  exact ⟨h, ((ofTag_passes _ h).1.2 hout).trans (by decide +kernel)⟩

/-- A name that holds such a word is given the alternative, and behind a bar the word is cut off. -/
theorem not_passes_nullable :
    (∀ tag ∈ ["nullable_id", "string | nullable"], ∀ word ∈ absences, word ∉ members tag) ∧
      (ofTag "nullable_id", passed "nullable_id") = ("nullable_id | null", "nullable_id") ∧
      (ofTag "string | nullable", passed "string | nullable") =
        ("stringable | null", "string | nullable") := by
  decide +kernel

end FieldType
end FlowPipeline
