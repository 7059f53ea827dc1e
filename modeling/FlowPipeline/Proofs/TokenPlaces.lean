import FlowPipeline.Script.Scanner
import Mathlib.Tactic.Common

/-! # Where tokens stand

A script is read forwards only: a token starts at the place where it is looked for or behind it, and
stops where it starts or behind that. Of the places that are reached from one place, the number of
characters before them tells which comes first.
-/

namespace FlowPipeline.Script

namespace Place

/-- A place is come to from another one by reading on. -/
def Reaches (p q : Place) : Prop := ∃ n, q = p.advance n

theorem Reaches.refl (p : Place) : p.Reaches p := ⟨0, rfl⟩

theorem advance_add (p : Place) (m n : Nat) : p.advance (m + n) = (p.advance m).advance n := by
  induction m generalizing p with
  | zero => simp [advance]
  | succ m ih =>
    rw [Nat.succ_add]
    exact ih p.next

theorem Reaches.trans {p q r : Place} (h : p.Reaches q) (h' : q.Reaches r) : p.Reaches r := by
  obtain ⟨m, rfl⟩ := h
  obtain ⟨n, rfl⟩ := h'
  exact ⟨m + n, (advance_add p m n).symm⟩

theorem reaches_advance (p : Place) (n : Nat) : p.Reaches (p.advance n) := ⟨n, rfl⟩

theorem reaches_next (p : Place) : p.Reaches p.next := ⟨1, rfl⟩

theorem reaches_dropWhile (f : Char → Bool) (p : Place) : p.Reaches (p.dropWhile f) :=
  reaches_advance p _

theorem index_next (p : Place) : p.next = p ∨ p.next.index = p.index + 1 := by
  unfold next
  split
  · exact .inl rfl
  · exact .inr rfl

theorem line_next (p : Place) : p.line ≤ p.next.line := by
  unfold next
  split
  · exact Nat.le_refl _
  · dsimp only
    split <;> omega

theorem Reaches.index_le {p q : Place} (h : p.Reaches q) : p.index ≤ q.index := by
  obtain ⟨n, rfl⟩ := h
  induction n generalizing p with
  | zero => exact Nat.le_refl _
  | succ n ih =>
    have hrest : p.next.index ≤ (p.advance (n + 1)).index := ih
    rcases index_next p with h | h
    · rwa [h] at hrest
    · omega

theorem Reaches.line_le {p q : Place} (h : p.Reaches q) : p.line ≤ q.line := by
  obtain ⟨n, rfl⟩ := h
  induction n generalizing p with
  | zero => exact Nat.le_refl _
  | succ n ih => exact Nat.le_trans (line_next p) ih

/-- Reading on without passing a character leads nowhere. -/
theorem Reaches.eq_of_index {p q : Place} (h : p.Reaches q) (hi : q.index ≤ p.index) : q = p := by
  obtain ⟨n, rfl⟩ := h
  induction n generalizing p with
  | zero => rfl
  | succ n ih =>
    have hle : p.next.index ≤ (p.advance (n + 1)).index := (reaches_advance p.next n).index_le
    rcases index_next p with h | h
    · have hn : p.advance (n + 1) = p.advance n := by rw [advance, h]
      rw [hn] at hi ⊢
      exact ih hi
    · omega

/-- Of two places that are reached from one place, the one with less before it reaches the other. -/
theorem Reaches.of_index_le {p q r : Place} (hq : p.Reaches q) (hr : p.Reaches r)
    (h : q.index ≤ r.index) : q.Reaches r := by
  obtain ⟨m, rfl⟩ := hq
  obtain ⟨n, rfl⟩ := hr
  rcases Nat.le_total m n with hmn | hnm
  · refine ⟨n - m, ?_⟩
    rw [← advance_add, Nat.add_sub_cancel' hmn]
  · have hback : (p.advance n).Reaches (p.advance m) := by
      refine ⟨m - n, ?_⟩
      rw [← advance_add, Nat.add_sub_cancel' hnm]
    rw [hback.eq_of_index h]
    exact .refl _

end Place

/-- A token stands at a place or behind it. -/
structure Token.StandsBehind (t : Token) (p : Place) : Prop where
  start : p.Reaches t.start
  stop : t.start.Reaches t.stop

theorem Token.StandsBehind.trans {t : Token} {p q : Place} (h : t.StandsBehind q)
    (hp : p.Reaches q) : t.StandsBehind p := ⟨hp.trans h.start, h.stop⟩

namespace Scanner
open Place

/-- What is seen behind the end of a line is seen behind a place. -/
def LineEnd.SeenBehind (p : Place) : LineEnd → Prop
  | .found => True
  | .absent seen _ => p.Reaches seen

theorem LineEnd.SeenBehind.trans {p q : Place} {e : LineEnd} (h : e.SeenBehind q)
    (hp : p.Reaches q) : e.SeenBehind p := by
  cases e with
  | found => trivial
  | absent seen commented => exact Reaches.trans hp h

theorem lineEndBefore_seen (valid : Terminals) (commented : Bool) (p : Place) :
    (lineEndBefore valid commented p).SeenBehind p := by
  have hif (b : Bool) {seen : Place} (h : p.Reaches seen) :
      (if b then LineEnd.absent seen commented else .found).SeenBehind p := by
    cases b with
    | true => exact h
    | false => trivial
  unfold lineEndBefore
  split
  · trivial
  · exact hif _ (.refl p)
  · exact hif _ (.refl p)
  · exact hif _ (.refl p)
  · exact hif _ (reaches_next p)
  · exact hif _ (reaches_next p)
  · exact hif _ (reaches_next p)
  · exact hif _ (reaches_advance p 2)
  · exact hif _ (.refl p)

theorem lineEndBehind_seen (valid : Terminals) (fuel : Nat) (commented : Bool) (p : Place) :
    (lineEndBehind valid fuel commented p).SeenBehind p := by
  induction fuel generalizing commented p with
  | zero => exact Reaches.refl p
  | succ fuel ih =>
    have hq := reaches_dropWhile isSpace p
    unfold lineEndBehind
    dsimp only
    split
    · exact (ih _ _).trans (hq.trans (reaches_dropWhile _ _))
    · exact (ih _ _).trans (hq.trans (reaches_advance _ _))
    · exact hq.trans (reaches_next _)
    · exact (lineEndBefore_seen valid commented _).trans hq

theorem lineEnd_seen (valid : Terminals) (p : Place) : (lineEnd valid p).SeenBehind p := by
  have hq := reaches_dropWhile (fun c => isSpace c && c != '\n') p
  unfold lineEnd
  dsimp only
  split
  · trivial
  · trivial
  · exact (lineEndBehind_seen valid _ false _).trans (hq.trans (reaches_next _))
  · split
    · exact (hq.trans (reaches_next _)).trans (reaches_dropWhile _ _)
    · trivial
  · exact hq

theorem ternaryMark_stands {p : Place} {t : Token} (h : ternaryMark p = some t) :
    t.StandsBehind p := by
  have hq := reaches_dropWhile isSpace p
  have htoken {t' : Token} (h : some (⟨some .ternaryMark, p.dropWhile isSpace,
      (p.dropWhile isSpace).next, false⟩ : Token) = some t') : t'.StandsBehind p := by
    obtain rfl := Option.some.inj h
    exact ⟨hq, reaches_next _⟩
  unfold ternaryMark at h
  dsimp only at h
  split at h
  · cases h
  · split at h
    · cases h
    · cases h
    · cases h
    · split at h
      · exact htoken h
      · cases h
    · exact htoken h
  · cases h

theorem markComment_stands {p : Place} {t : Token} (h : markComment p = some t) :
    t.StandsBehind p := by
  have hq := reaches_dropWhile isSpace p
  unfold markComment at h
  dsimp only at h
  split at h
  · obtain rfl := Option.some.inj h
    exact ⟨hq, (reaches_advance _ 4).trans (reaches_dropWhile _ _)⟩
  · obtain rfl := Option.some.inj h
    exact ⟨hq, (reaches_advance _ 3).trans (reaches_dropWhile _ _)⟩
  · cases h

theorem contextual_stands {valid : Terminals} {p : Place} {t : Token}
    (h : contextual valid p = some t) : t.StandsBehind p := by
  unfold contextual at h
  split at h
  · split at h
    · split at h
      · cases h
      · obtain rfl := Option.some.inj h
        exact ⟨.refl p, reaches_advance p _⟩
    · cases h
  · split at h
    · have hseen := lineEnd_seen valid p
      split at h
      · obtain rfl := Option.some.inj h
        exact ⟨.refl p, .refl p⟩
      · next seen commented he =>
        rw [he] at hseen
        split at h
        · exact (ternaryMark_stands h).trans hseen
        · cases h
    · split at h
      · exact ternaryMark_stands h
      · split at h
        · cases h
        · exact markComment_stands h

theorem inner_stands {valid : Terminals} {p : Place} {t : Token} (h : inner valid p = some t) :
    t.StandsBehind p := by
  obtain ⟨⟨terminal, length⟩, -, h⟩ := List.exists_of_findSome?_eq_some h
  dsimp only at h
  split at h
  · split at h
    · obtain rfl := Option.some.inj h
      exact ⟨.refl p, reaches_advance p _⟩
    · cases h
  · simp at h

/-- The token that is read at a place stands at the place or behind it. -/
theorem token_stands (valid : Terminals) (p : Place) : (token valid p).StandsBehind p := by
  have hq := reaches_dropWhile isBlank p
  unfold token
  split
  · next t h =>
    rcases Option.or_eq_some_iff.1 h with h | ⟨-, h⟩
    · exact contextual_stands h
    · exact inner_stands h
  · have hplain (t : Option Terminal) (n : Nat) (isWord : Bool) :
        (⟨t, p.dropWhile isBlank, (p.dropWhile isBlank).advance n, isWord⟩ : Token).StandsBehind
          p := ⟨hq, reaches_advance _ n⟩
    dsimp only
    split
    · exact hplain _ 0 _
    · generalize (if valid.contains .number then number (p.dropWhile isBlank).rest else 0) = m
      split
      · exact hplain _ _ _
      split
      · exact hplain _ _ _
      split
      · exact hplain _ _ _
      split
      · split
        · exact hplain _ _ _
        · exact hplain _ _ _
      split
      · exact hplain _ _ _
      split
      · exact hplain _ 0 _
      split
      · exact hplain _ _ _
      · exact hplain _ _ _

end Scanner
end FlowPipeline.Script
