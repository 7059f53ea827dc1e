import FlowPipeline.Text.Blank
import Mathlib.Tactic.Common

/-! # Parts of texts

A text is cut at every separator. None is left in the parts, and texts without separators are the
parts of what they are joined to.
-/

namespace FlowPipeline.Text

variable {sep : Char} {cs w : List Char}

theorem parts_eq_splitOn (sep : Char) (cs : List Char) : parts sep cs = cs.splitOn sep := by
  induction cs with
  | nil => rfl
  | cons c cs ih =>
    rw [parts, ih, List.splitOn_cons_eq_if_modifyHead]
    simp only [beq_iff_eq]
    rcases hparts : cs.splitOn sep with _ | ⟨w, ws⟩
    · exact absurd hparts (List.splitOn_ne_nil sep cs)
    · rfl

theorem parts_of_notMem (h : sep ∉ cs) : parts sep cs = [cs] := by
  rw [parts_eq_splitOn, List.splitOn_eq_singleton h]

theorem parts_append_cons (sep : Char) (a b : List Char) :
    parts sep (a ++ sep :: b) = parts sep a ++ parts sep b := by
  simp only [parts_eq_splitOn, List.splitOn_append_cons_self]

theorem parts_intercalate {ws : List (List Char)} (h : ∀ w ∈ ws, sep ∉ w) (hne : ws ≠ []) :
    parts sep ([sep].intercalate ws) = ws := by
  rw [parts_eq_splitOn, List.splitOn_intercalate sep h hne]

theorem notMem_of_mem_parts (h : w ∈ parts sep cs) : sep ∉ w := by
  induction cs generalizing w with
  | nil =>
    rw [List.mem_singleton.1 h]
    exact List.not_mem_nil
  | cons c cs ih =>
    rw [parts] at h
    split_ifs at h with hc
    · rcases List.mem_cons.1 h with rfl | h
      · exact List.not_mem_nil
      · exact ih h
    · rcases hparts : parts sep cs with _ | ⟨p, ps⟩
      · rw [hparts] at h
        rw [List.mem_singleton.1 h]
        exact fun hmem => hc (List.mem_singleton.1 hmem).symm
      · rw [hparts] at h ih
        rcases List.mem_cons.1 h with rfl | h
        · exact List.not_mem_cons_of_ne_of_not_mem (Ne.symm hc) (ih List.mem_cons_self)
        · exact ih (List.mem_cons_of_mem _ h)

/-- The first part takes in all in front of a separator. -/
theorem parts_append_of_notMem (hsep : sep ∉ w) (cs : List Char) :
    ∃ rest others, parts sep (w ++ cs) = (w ++ rest) :: others := by
  induction w with
  | nil =>
    rcases hparts : parts sep cs with _ | ⟨p, ps⟩
    · rw [parts_eq_splitOn] at hparts
      exact absurd hparts (List.splitOn_ne_nil sep cs)
    · exact ⟨p, ps, hparts⟩
  | cons c w ih =>
    obtain ⟨hc, hw⟩ := not_or.1 (mt List.mem_cons.2 hsep)
    obtain ⟨rest, others, hparts⟩ := ih hw
    refine ⟨rest, others, ?_⟩
    rw [List.cons_append, parts, if_neg (Ne.symm hc), hparts, List.cons_append]

/-- The last part takes in all behind a separator. -/
theorem append_parts_of_notMem (cs : List Char) (hsep : sep ∉ w) :
    ∃ others front, parts sep (cs ++ w) = others ++ [front ++ w] := by
  induction cs with
  | nil => exact ⟨[], [], by simp [parts_of_notMem hsep]⟩
  | cons c cs ih =>
    obtain ⟨others, front, hparts⟩ := ih
    by_cases hc : c = sep
    · exact ⟨[] :: others, front, by simp [parts, hc, hparts]⟩
    · rcases others with _ | ⟨p, others⟩
      · exact ⟨[], c :: front, by simp [parts, hc, hparts]⟩
      · exact ⟨(c :: p) :: others, front, by simp [parts, hc, hparts]⟩

end FlowPipeline.Text
