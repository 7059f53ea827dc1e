import FlowPipeline.Proofs.EmittedIntervals
import FlowPipeline.Proofs.WrittenNumbers
import FlowPipeline.Value.Shown

/-! # Shown values at their ends

What is shown for a value is never empty and has no blank at either end, unless the value is a text:
a text on its own is shown as it is. Inside a list or a mapping, texts too have their quotes around
them.
-/

namespace FlowPipeline

/-! ## Texts with no blank at either end -/

namespace Text

variable {a b cs w : List Char}

def StartsSolid (cs : List Char) : Prop := ∃ c, cs.head? = some c ∧ isBlank c = false

def EndsSolid (cs : List Char) : Prop := ∃ c, cs.getLast? = some c ∧ isBlank c = false

/-- There is something in the text, and no blank at either end of it. -/
structure IsTrimmed (cs : List Char) : Prop where
  starts : StartsSolid cs
  ends : EndsSolid cs

instance (cs : List Char) : Decidable (StartsSolid cs) :=
  decidable_of_iff ((cs.head?.any fun c => !isBlank c) = true)
    (by simp [StartsSolid, Option.any_eq_true])

instance (cs : List Char) : Decidable (EndsSolid cs) :=
  decidable_of_iff ((cs.getLast?.any fun c => !isBlank c) = true)
    (by simp [EndsSolid, Option.any_eq_true])

instance (cs : List Char) : Decidable (IsTrimmed cs) :=
  decidable_of_iff (StartsSolid cs ∧ EndsSolid cs) ⟨fun h => ⟨h.1, h.2⟩, fun h => ⟨h.1, h.2⟩⟩

theorem StartsSolid.append (h : StartsSolid a) (b : List Char) : StartsSolid (a ++ b) := by
  obtain ⟨c, hc, hblank⟩ := h
  exact ⟨c, by simp [List.head?_append, hc], hblank⟩

theorem EndsSolid.append (h : EndsSolid b) (a : List Char) : EndsSolid (a ++ b) := by
  obtain ⟨c, hc, hblank⟩ := h
  exact ⟨c, by simp [List.getLast?_append, hc], hblank⟩

theorem IsUnbroken.isTrimmed (h : IsUnbroken w) : IsTrimmed w :=
  ⟨⟨_, List.head?_eq_some_head h.ne_nil, h.isBlank_eq_false _ (List.head_mem h.ne_nil)⟩,
    ⟨_, List.getLast?_eq_some_getLast h.ne_nil, h.isBlank_eq_false _ (List.getLast_mem h.ne_nil)⟩⟩

/-- Nothing but the ends matters. -/
theorem IsTrimmed.append (ha : IsTrimmed a) (hb : IsTrimmed b) : IsTrimmed (a ++ b) :=
  ⟨ha.starts.append b, hb.ends.append a⟩

theorem IsTrimmed.enclosed {c d : Char} (hc : isBlank c = false) (hd : isBlank d = false)
    (cs : List Char) : IsTrimmed (c :: cs ++ [d]) :=
  ⟨⟨c, rfl, hc⟩, EndsSolid.append ⟨d, rfl, hd⟩ _⟩

theorem IsTrimmed.ne_nil (h : IsTrimmed cs) : cs ≠ [] := by
  rintro rfl
  obtain ⟨c, hc, -⟩ := h.starts
  cases hc

theorem IsTrimmed.trimChars_eq (h : IsTrimmed cs) : trimChars cs = cs := by
  obtain ⟨⟨c, hc, hcblank⟩, d, hd, hdblank⟩ := h
  have hstart : cs.dropWhile isBlank = cs := List.dropWhile_eq_self_iff.2 fun hlen => by
    rw [List.head?_eq_getElem?, List.getElem?_eq_getElem hlen] at hc
    simp [Option.some.inj hc, hcblank]
  rw [trimChars, hstart]
  refine List.rdropWhile_eq_self_iff.2 fun hne hblank => ?_
  rw [List.getLast?_eq_some_getLast hne] at hd
  rw [Option.some.inj hd, hdblank] at hblank
  cases hblank

/-- Trimming leaves nothing, or a text that is trimmed. -/
theorem isTrimmed_trimChars (h : trimChars cs ≠ []) : IsTrimmed (trimChars cs) := by
  have hprefix : trimChars cs <+: cs.dropWhile isBlank := List.rdropWhile_prefix _ _
  obtain ⟨c, ds, hcons⟩ := List.exists_cons_of_ne_nil h
  refine ⟨⟨c, by rw [hcons, List.head?_cons], ?_⟩, ⟨_, List.getLast?_eq_some_getLast h, ?_⟩⟩
  · -- The first character is that of the text without the blanks at its start.
    obtain ⟨rest, hrest⟩ := hprefix
    have hfirst := List.head?_dropWhile_not isBlank cs
    rw [← hrest, hcons] at hfirst
    simpa using hfirst
  · exact Bool.eq_false_iff.2 (List.rdropWhile_last_not isBlank (cs.dropWhile isBlank) h)

theorem isTrimmed_trim {s : String} (h : trim s ≠ "") : IsTrimmed (trim s).toList := by
  rw [trim, String.toList_ofList]
  refine isTrimmed_trimChars fun hnil => h ?_
  rw [trim, hnil, String.ofList_nil]

/-- What is trimmed is what trimming leaves as it is, without being empty. -/
theorem isTrimmed_iff {s : String} : IsTrimmed s.toList ↔ s ≠ "" ∧ trim s = s := by
  constructor
  · intro h
    refine ⟨fun hempty => h.ne_nil (by rw [hempty]; rfl), ?_⟩
    rw [trim, h.trimChars_eq, String.ofList_toList]
  · rintro ⟨hne, htrim⟩
    rw [← htrim] at hne ⊢
    exact isTrimmed_trim hne

end Text

/-! ## Numbers and days -/

open Text (IsUnbroken IsTrimmed StartsSolid EndsSolid)

theorem isBlank_of_digit {c : Char} (h : c.isDigit = true) : Text.isBlank c = false := by
  have hall : "0123456789".toList.all (fun c => !Text.isBlank c) = true := by decide
  simpa using List.all_eq_true.1 hall c (Script.mem_digits h)

theorem isUnbroken_padded (width n : Nat) : IsUnbroken (Text.padded width n) := by
  obtain ⟨hne, hdigits⟩ := Script.padded_digits width n
  exact ⟨hne, fun c hc => isBlank_of_digit (hdigits c hc)⟩

theorem isTrimmed_toString (i : Int) : IsTrimmed (toString i).toList := by
  have hdigits : IsUnbroken (Nat.toDigits 10 i.natAbs) :=
    ⟨Nat.toDigits_ne_nil, fun c hc => isBlank_of_digit (Script.isDigit_of_mem_toDigits c hc)⟩
  rw [Json.toList_toString]
  split_ifs
  · exact .append (a := ['-']) (by decide) hdigits.isTrimmed
  · exact hdigits.isTrimmed

theorem Script.IsNumeral.isUnbroken {cs : List Char} (h : IsNumeral cs) : IsUnbroken cs := by
  obtain ⟨c, ds, hcons, -⟩ := h.exists_cons
  obtain ⟨w, f, e, rfl, hw, hf, he⟩ := h
  refine ⟨hcons ▸ List.cons_ne_nil c ds, fun d hd => ?_⟩
  rcases List.mem_append.1 hd with hd | hd
  · rcases hw with rfl | ⟨-, -, -, -, hdigits⟩
    · rw [List.mem_singleton.1 hd]
      decide
    · exact isBlank_of_digit (hdigits d hd)
  rcases List.mem_append.1 hd with hd | hd
  · rcases hf with rfl | ⟨digits, rfl, hdigits⟩
    · cases hd
    · rcases List.mem_cons.1 hd with rfl | hd
      · decide
      · exact isBlank_of_digit (hdigits d hd)
  · rcases he with rfl | ⟨sign, digits, rfl, hsign, -, hdigits⟩
    · cases hd
    · rcases List.mem_cons.1 hd with rfl | hd
      · decide
      rcases List.mem_cons.1 hd with rfl | hd
      · rcases hsign with rfl | rfl <;> decide
      · exact isBlank_of_digit (hdigits d hd)

theorem Binary64.isTrimmed_render (x : Binary64) :
    IsTrimmed (x.render Binary64.shownSpelling).toList := by
  cases x with
  | finite s m e =>
    have hnumeral := (Script.isNumeral_decimal (Decimal.shortest m e)).isUnbroken.isTrimmed
    rw [render, String.toList_ofList]
    cases s with
    | true => exact .append (a := ['-']) (by decide) hnumeral
    | false => exact hnumeral
  | infinite s => cases s <;> decide
  | nan => decide

theorem Date.isTrimmed_render (d : Date) : IsTrimmed d.render := by
  have hyear := (isUnbroken_padded 4 d.year).isTrimmed
  have hday := (isUnbroken_padded 2 d.day).isTrimmed
  exact ⟨(hyear.starts.append _).append _, .append (hday.ends.append ['-']) _⟩

/-- A moment is shown from its date on, up to its offset, parts of a second, or seconds. -/
theorem Moment.isTrimmed_render (between : Char) (m : Moment) : IsTrimmed (m.render between) := by
  have hdigits (width n : Nat) : EndsSolid (Text.padded width n) :=
    (isUnbroken_padded width n).isTrimmed.ends
  have hstarts := m.date.isTrimmed_render.starts
  refine ⟨((((hstarts.append _).append _).append _).append _).append _, ?_⟩
  rcases ho : m.offset with _ | o
  · rw [render, ho, List.append_nil]
    split_ifs
    · rw [List.append_nil]
      exact ((hdigits 2 m.second).append [':']).append _
    · exact ((hdigits 6 m.microsecond).append ['.']).append _
  · rw [render, ho]
    exact .append (.append ((hdigits 2 (o.natAbs % 60)).append [':']) _) _

/-! ## Values -/

namespace Scalar

theorem isTrimmed_quoted (s : Scalar) : IsTrimmed s.quoted := by
  have hquote (single double : Bool) : Text.isBlank (Text.quoteFor single double) = false := by
    cases single <;> cases double <;> rfl
  cases s with
  | null => decide
  | bool b => cases b <;> decide
  | int i => exact isTrimmed_toString i
  | float x => exact x.isTrimmed_render
  | text s => exact .enclosed (hquote _ _) (hquote _ _) _
  | bytes bs => exact .enclosed (c := 'b') (by decide) (hquote _ _) (_ :: _)
  | date d =>
    have hstarts : StartsSolid "datetime.date(".toList := by decide
    exact ⟨(hstarts.append _).append _, .append (by decide) _⟩
  | moment m =>
    have hstarts : StartsSolid "datetime.datetime(".toList := by decide
    exact ⟨((hstarts.append _).append _).append _, .append (by decide) _⟩

/-- Of the scalars on their own, only texts may have blanks at their ends. -/
theorem isTrimmed_shown {s : Scalar} (h : ∀ t, s ≠ .text t) : IsTrimmed s.shown.toList := by
  cases s with
  | text t => exact absurd rfl (h t)
  | date d =>
    rw [shown, String.toList_ofList]
    exact d.isTrimmed_render
  | moment m =>
    rw [shown, String.toList_ofList]
    exact m.isTrimmed_render ' '
  | _ =>
    simp only [shown, String.toList_ofList]
    exact isTrimmed_quoted _

end Scalar

namespace Value

theorem isTrimmed_ellipsisOf (v : Value) : IsTrimmed v.ellipsisOf := by
  unfold ellipsisOf
  split <;> decide

/-- Every collection stands between brackets, also one that contains itself. -/
theorem isTrimmed_quoted (around : List Nat) (v : Value) : IsTrimmed (v.quoted around) := by
  match v with
  | .scalar s => exact s.isTrimmed_quoted
  | .list items => exact .enclosed (by decide) (by decide) _
  | .tuple [] => exact .enclosed (c := '(') (d := ')') (by decide) (by decide) _
  | .tuple [v] =>
    rw [quoted]
    exact ⟨⟨'(', rfl, by decide⟩, .append (by decide) _⟩
  | .tuple (v :: w :: vs) => exact .enclosed (by decide) (by decide) _
  | .set [] =>
    rw [quoted]
    decide
  | .set (s :: ss) => exact .enclosed (by decide) (by decide) _
  | .map entries => exact .enclosed (by decide) (by decide) _
  | .cyclic n v =>
    rw [quoted]
    split_ifs
    · exact v.isTrimmed_ellipsisOf
    · exact isTrimmed_quoted (n :: around) v
  | .again n isMap =>
    rw [quoted]
    cases isMap <;> decide

theorem isTrimmed_shown {v : Value} (h : ∀ t, v ≠ .scalar (.text t)) :
    IsTrimmed v.shown.toList := by
  cases v with
  | scalar s => exact Scalar.isTrimmed_shown fun t ht => h t (by rw [ht])
  | _ =>
    simp only [shown, String.toList_ofList]
    exact isTrimmed_quoted [] _

end Value
end FlowPipeline
