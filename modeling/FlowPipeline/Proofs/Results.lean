import Mathlib.Tactic.Common

/-! # Results that may be errors

A computation of several steps succeeds if each step does, and its errors are those of its steps.
-/

namespace FlowPipeline

theorem Except.eq_ok_of_bind {ε α β : Type} {r : Except ε α} {f : α → Except ε β} {b : β}
    (h : r >>= f = .ok b) : ∃ a, r = .ok a ∧ f a = .ok b := by
  cases r with
  | ok a => exact ⟨a, rfl, h⟩
  | error e => cases h

theorem Except.eq_ok_of_toOption {ε α : Type} {r : Except ε α} {a : α}
    (h : r.toOption = some a) : r = .ok a := by
  cases r with
  | ok b => exact congrArg Except.ok (Option.some.inj h)
  | error e => cases h

theorem Except.eq_ok_of_mapError {ε ε' α : Type} {f : ε → ε'} {r : Except ε α} {a : α}
    (h : r.mapError f = .ok a) : r = .ok a := by
  cases r with
  | ok b => exact congrArg Except.ok (Except.ok.inj h)
  | error e => cases h

/-- Every error of a result has a property. -/
def FailsOnly {ε α : Type} (P : ε → Prop) (r : Except ε α) : Prop := ∀ e, r = .error e → P e

namespace FailsOnly

variable {ε α β : Type} {P Q : ε → Prop} {r : Except ε α}

theorem ok (a : α) : FailsOnly P (.ok a) := nofun

theorem error {e : ε} (h : P e) : FailsOnly P (.error e : Except ε α) := by
  intro e' he
  cases he
  exact h

theorem mono (h : FailsOnly P r) (hpq : ∀ e, P e → Q e) : FailsOnly Q r :=
  fun e he => hpq e (h e he)

theorem bind {f : α → Except ε β} (h : FailsOnly P r) (hf : ∀ a, r = .ok a → FailsOnly P (f a)) :
    FailsOnly P (r >>= f) := by
  intro e he
  cases r with
  | error e' =>
    cases he
    exact h e rfl
  | ok a => exact hf a rfl e he

theorem map {f : α → β} (h : FailsOnly P r) : FailsOnly P (f <$> r) := by
  intro e he
  cases r with
  | error e' =>
    cases he
    exact h e rfl
  | ok a => cases he

theorem of_map {f : α → β} (h : FailsOnly P (f <$> r)) : FailsOnly P r := by
  intro e he
  rw [he] at h
  exact h e rfl

theorem mapError {δ : Type} {f : ε → δ} {R : δ → Prop} (h : FailsOnly (fun e => R (f e)) r) :
    FailsOnly R (r.mapError f) := by
  intro e he
  cases r with
  | error e' =>
    cases he
    exact h e' rfl
  | ok a => cases he

theorem mapM {f : α → Except ε β} {as : List α} (h : ∀ a ∈ as, FailsOnly P (f a)) :
    FailsOnly P (as.mapM f) := by
  induction as with
  | nil => exact .ok []
  | cons a as ih =>
    rw [List.mapM_cons]
    refine .bind (h a List.mem_cons_self) fun b _ => ?_
    exact .bind (ih fun a' ha' => h a' (List.mem_cons_of_mem _ ha')) fun bs _ => .ok (b :: bs)

end FailsOnly

end FlowPipeline
