import FlowPipeline.Proofs.IntervalPhases
import FlowPipeline.Proofs.WholeDurations

/-! # Intervals as they are emitted

The text of an accepted interval is one that may be given again. Its words stand one space apart and
it begins with a number, so that it is neither a fixed phrase nor loses a second `every`.
-/

namespace FlowPipeline

/-! ## Texts with one space between any two words -/

namespace Text

variable {cs w : List Char} {ws : List (List Char)}

/-- Characters without a blank among them. -/
structure IsUnbroken (w : List Char) : Prop where
  ne_nil : w ≠ []
  isBlank_eq_false : ∀ c ∈ w, isBlank c = false

theorem isUnbroken_of_mem_words (h : w ∈ words cs) : IsUnbroken w := by
  induction cs generalizing w with
  | nil => cases h
  | cons c cs ih =>
    have hstart {v : List Char} (hc : ¬isBlank c = true) (hv : ∀ d ∈ v, isBlank d = false) :
        IsUnbroken (c :: v) :=
      ⟨List.cons_ne_nil c v, List.forall_mem_cons.2 ⟨Bool.eq_false_iff.2 hc, hv⟩⟩
    unfold words at h
    split_ifs at h with hc
    · exact ih h
    · rcases cs with _ | ⟨d, cs⟩
      · rw [List.mem_singleton.1 h]
        exact hstart hc (by simp)
      · dsimp only at h
        split_ifs at h
        · rcases List.mem_cons.1 h with rfl | h
          · exact hstart hc (by simp)
          · exact ih h
        · rcases hwords : words (d :: cs) with _ | ⟨v, vs⟩
          · rw [hwords] at h
            rw [List.mem_singleton.1 h]
            exact hstart hc (by simp)
          · rw [hwords] at h ih
            rcases List.mem_cons.1 h with rfl | h
            · exact hstart hc (ih List.mem_cons_self).isBlank_eq_false
            · exact ih (List.mem_cons_of_mem v h)

theorem words_space {cs : List Char} (hw : IsUnbroken w) :
    words (w ++ ' ' :: cs) = w :: words cs := by
  rw [words_append hw.isBlank_eq_false hw.ne_nil, words_blank_cons (by decide)]
  rintro c ⟨⟩
  decide

theorem words_intercalate (h : ∀ w ∈ ws, IsUnbroken w) : words ([' '].intercalate ws) = ws := by
  induction ws with
  | nil => rfl
  | cons w ws ih =>
    obtain ⟨hw, hws⟩ := List.forall_mem_cons.1 h
    rcases ws with _ | ⟨v, vs⟩
    · rw [List.intercalate_singleton, words_eq_singleton hw.isBlank_eq_false hw.ne_nil]
    · rw [List.intercalate_cons_cons, List.append_assoc, List.singleton_append, words_space hw,
        ih hws]

/-- The words stand one space apart, and nothing stands around them. -/
def IsCollapsed (cs : List Char) : Prop := [' '].intercalate (words cs) = cs

theorem isCollapsed_collapse (s : String) : IsCollapsed (collapse s).toList := by
  rw [collapse, String.toList_ofList, IsCollapsed,
    words_intercalate fun w hw => isUnbroken_of_mem_words hw]

namespace IsCollapsed

theorem collapse_eq {s : String} (h : IsCollapsed s.toList) : collapse s = s := by
  rw [collapse, h, String.ofList_toList]

/-- What follows the first word. -/
theorem tail (h : IsCollapsed (w ++ ' ' :: cs)) (hw : IsUnbroken w) : IsCollapsed cs := by
  rw [IsCollapsed, words_space hw] at h
  rcases hcs : words cs with _ | ⟨v, vs⟩
  · rw [hcs, List.intercalate_singleton] at h
    have hlength := congrArg List.length h
    simp at hlength
  · rw [hcs, List.intercalate_cons_cons, List.append_assoc, List.singleton_append] at h
    rw [IsCollapsed, hcs]
    exact (List.cons.inj (List.append_cancel_left h)).2

end IsCollapsed

theorem head_trimChars {c d : Char} {ds : List Char} (hc : isBlank c = false)
    (h : trimChars (c :: cs) = d :: ds) : c = d := by
  rw [trimChars, List.dropWhile_cons_of_neg (by simp [hc])] at h
  have hprefix : d :: ds <+: c :: cs := h ▸ List.rdropWhile_prefix isBlank (c :: cs)
  exact (List.cons_prefix_cons.1 hprefix).1.symm

/-- Folding keeps what is no letter. -/
theorem fold_eq_self {c : Char} (h : ¬IsLetter c) : fold c = c := by
  have hkelvin : c.toNat ≠ 0x212A := by
    intro hkelvin
    rw [IsLetter, fold, if_pos hkelvin] at h
    exact h (by decide)
  rw [IsLetter, fold, if_neg hkelvin] at h
  rw [fold, if_neg hkelvin]
  unfold Char.toLower at h ⊢
  split_ifs at h ⊢ with hcapital
  · have hlow : 65 ≤ c.toNat := UInt32.le_iff_toNat_le.1 hcapital.1
    have hhigh : c.toNat ≤ 90 := UInt32.le_iff_toNat_le.1 hcapital.2
    have hsum : (c.val + 32).toNat = c.toNat + 32 := by
      rw [UInt32.toNat_add]
      exact Nat.mod_eq_of_lt (show c.toNat + 32 < 2 ^ 32 by omega)
    exact absurd (show 97 ≤ (c.val + 32).toNat ∧ (c.val + 32).toNat ≤ 122 by omega) h
  · rfl

theorem eq_space_of_fold {c : Char} (h : fold c = ' ') : c = ' ' := by
  refine (fold_eq_self fun hletter => ?_).symm.trans h
  rw [IsLetter, h] at hletter
  exact absurd hletter (by decide)

end Text

namespace Cadence
open Text

variable {cadence text : String} {now : Moment} {i : Interval} {r : Int}

/-! ## Reading intervals again -/

/-- A word and a space stand where a cadence says `every` in any case. -/
theorem exists_lead {cs : List Char} (h : "every ".toList.isPrefixOf (cs.map fold) = true) :
    ∃ w rest, IsUnbroken w ∧ cs = w ++ ' ' :: rest ∧
      cs.drop "every ".toList.length = rest := by
  have hletters : "every".toList.all (fun c => 97 ≤ c.toNat ∧ c.toNat ≤ 122) = true := by decide
  obtain ⟨behind, hbehind⟩ := List.isPrefixOf_iff_prefix.1 h
  obtain ⟨lead, rest, rfl, hlead, -⟩ := List.map_eq_append_iff.1 hbehind.symm
  have hsplit : lead.map fold = "every".toList ++ [' '] := hlead
  obtain ⟨w, s, rfl, hw, hs⟩ := List.map_eq_append_iff.1 hsplit
  obtain ⟨c, rfl, hc⟩ := List.map_eq_singleton_iff.1 hs
  obtain rfl := eq_space_of_fold hc
  refine ⟨w, rest, ⟨?_, fun d hd => ?_⟩, by simp, ?_⟩
  · rintro rfl
    cases hw
  · have hletter : 97 ≤ (fold d).toNat ∧ (fold d).toNat ≤ 122 :=
      of_decide_eq_true (List.all_eq_true.1 hletters _ (hw ▸ List.mem_map_of_mem hd))
    exact IsLetter.isBlank_eq_false hletter
  · rw [← hlead, List.length_map, List.drop_left]

/-- What a cadence says of its interval is collapsed, with `every` in front or without. -/
theorem isCollapsed_intervalText {fixed : Bool} (h : intervalText cadence = (text, fixed)) :
    IsCollapsed text.toList := by
  have hphrases : ∀ p ∈ phrases, [' '].intercalate (words p.2.toList) = p.2.toList := by decide
  rcases fixed with _ | _
  · have hcollapsed := isCollapsed_collapse cadence
    unfold intervalText at h
    dsimp only at h
    split at h
    case h_1 => cases congrArg Prod.snd h
    case h_2 =>
      split_ifs at h with hlead
      · obtain ⟨w, rest, hw, hcs, hrest⟩ := exists_lead hlead
        obtain rfl := congrArg Prod.fst h
        rw [hcs] at hcollapsed
        rw [String.toList_ofList, hrest]
        exact hcollapsed.tail hw
      · obtain rfl := congrArg Prod.fst h
        exact hcollapsed
  · obtain ⟨phrase, hphrase⟩ := intervalText_fixed h
    exact hphrases (phrase, text) hphrase

/-- A duration begins with no letter. -/
theorem head_of_duration? (h : duration? text = some r) :
    ∃ c cs, text.toList = c :: cs ∧ ¬IsLetter c := by
  obtain ⟨w, -, hchars, -⟩ := exists_written h
  obtain ⟨d, ds, hd, hletter⟩ := w.chars_head
  rcases htext : text.toList with _ | ⟨c, cs⟩
  · rw [htext, hd] at hchars
    cases hchars
  · refine ⟨c, cs, rfl, fun hc => hletter ?_⟩
    rw [htext, hd] at hchars
    rwa [← head_trimChars hc.isBlank_eq_false hchars]

theorem intervalText_collapsed (hcollapsed : IsCollapsed text.toList) {c : Char} {cs : List Char}
    (htext : text.toList = c :: cs) (hc : ¬IsLetter c) : intervalText text = (text, false) := by
  have hphrase : phrases.lookup (lower (c :: cs)) = none :=
    lookup_phrases_eq_none 0 (by decide) rfl hc
  have hlead : ¬"every ".toList.isPrefixOf ((c :: cs).map fold) = true := by
    intro hlead
    have hhead : 'e' = fold c := (List.cons_prefix_cons.1 (List.isPrefixOf_iff_prefix.1 hlead)).1
    refine hc ?_
    rw [IsLetter, ← hhead]
    decide
  rw [intervalText, hcollapsed.collapse_eq]
  dsimp only
  rw [htext, hphrase]
  generalize "every ".toList = lead at hlead
  exact if_neg hlead

theorem intervalText_of_resolve (h : resolve cadence now = .ok i) :
    ∃ fixed, intervalText cadence = (i.text, fixed) ∧ duration? i.text = some i.length := by
  unfold resolve at h
  rcases htext : intervalText cadence with ⟨text, fixed⟩
  rw [htext] at h
  dsimp only at h
  rcases hread : duration? text with _ | length
  · rw [hread] at h
    cases h
  · rw [hread] at h
    dsimp only at h
    split_ifs at h
    obtain rfl := Except.ok.inj h
    exact ⟨fixed, rfl, hread⟩

/-- The interval of an accepted cadence is accepted again, as it is and behind `every`. -/
theorem resolve_emitted (h : resolve cadence now = .ok i) :
    duration? i.text = some i.length ∧ resolve i.text now = .ok i ∧
      resolve ("every " ++ i.text) now = .ok i := by
  obtain ⟨hlength, hoffset, -⟩ := resolve_eq_ok h
  obtain ⟨fixed, htext, hread⟩ := intervalText_of_resolve h
  have hcollapsed := isCollapsed_intervalText htext
  obtain ⟨c, cs, hcs, hc⟩ := head_of_duration? hread
  have hagain {again : String} (hagain : intervalText again = (i.text, false)) :
      resolve again now = .ok i := by
    rw [resolve_eq hagain hread, if_neg (Int.not_lt.2 hlength), ← hoffset]
  have hevery : intervalText ("every " ++ i.text) = (i.text, false) := by
    have hlead := intervalText_every hc (hcollapsed.trans hcs)
    rwa [← hcs, ← String.toList_append, String.ofList_toList, String.ofList_toList] at hlead
  exact ⟨hread, hagain (intervalText_collapsed hcollapsed hcs hc), hagain hevery⟩

/-- A phrase in capitals and a duration with tabs and line breaks around its parts. -/
theorem resolve_emitted_spelled :
    (resolve " EVERY half\nHour" afternoon = .ok ⟨"30m", 1800000, 372345⟩ ∧
      resolve "\tEvery  7 \n Min " afternoon = .ok ⟨"7 Min", 420000, 72345⟩) ∧
    (resolve "30m" afternoon = .ok ⟨"30m", 1800000, 372345⟩ ∧
      resolve "every 30m" afternoon = .ok ⟨"30m", 1800000, 372345⟩) ∧
    (resolve "7 Min" afternoon = .ok ⟨"7 Min", 420000, 72345⟩ ∧
      resolve "every 7 Min" afternoon = .ok ⟨"7 Min", 420000, 72345⟩) := by
  have hphrase : resolve " EVERY half\nHour" afternoon = .ok ⟨"30m", 1800000, 372345⟩ := by
    decide
  have hduration : resolve "\tEvery  7 \n Min " afternoon = .ok ⟨"7 Min", 420000, 72345⟩ := by
    decide
  exact ⟨⟨hphrase, hduration⟩, (resolve_emitted hphrase).2, (resolve_emitted hduration).2⟩

end Cadence
end FlowPipeline
