import FlowPipeline.Lint
import Mathlib.Data.List.Basic
import Mathlib.Tactic.Common

/-! # Where calls stand

A tree within a script has an address: which part to go into at each step. In the order of addresses
a tree comes before its parts, and the parts come in the order of the text. The calls of the host
that linting finds are listed in this order, each with what stands around it.
-/

namespace FlowPipeline.Script.Tree

/-- The trees directly inside a tree. -/
def parts : Tree → List Tree
  | identifier _ | literal _ => []
  | member object _ => [object]
  | call _ callee types args => callee :: types :: args
  | await operand => [operand]
  | function ts | group ts => ts

theorem sizeOf_of_mem_parts {t u : Tree} (h : u ∈ t.parts) : sizeOf u < sizeOf t := by
  cases t with
  | identifier | literal => simp [parts] at h
  | member object name =>
    obtain rfl := List.mem_singleton.1 h
    simp
    omega
  | call line callee types args =>
    simp only [parts, List.mem_cons] at h
    rcases h with rfl | rfl | h
    · simp
      omega
    · simp
      omega
    · have := List.sizeOf_lt_of_mem h
      simp
      omega
  | await operand =>
    obtain rfl := List.mem_singleton.1 h
    simp
  | function ts | group ts =>
    have := List.sizeOf_lt_of_mem (show u ∈ ts from h)
    simp
    omega

/-- What holds of a tree when it holds of its parts holds of all trees. -/
@[elab_as_elim]
theorem inductionOnParts {P : Tree → Prop} (t : Tree) (step : ∀ t, (∀ u ∈ t.parts, P u) → P t) :
    P t :=
  step t fun u _ => inductionOnParts u step
termination_by sizeOf t
decreasing_by exact sizeOf_of_mem_parts ‹_›

/-- The tree at an address. -/
def at? (t : Tree) : List Nat → Option Tree
  | [] => some t
  | i :: a => t.parts[i]?.bind fun u => u.at? a

/-- The trees around an address, the whole tree first. -/
def around (t : Tree) : List Nat → List Tree
  | [] => []
  | i :: a => t :: (t.parts[i]?.elim [] fun u => u.around a)

def isAwait : Tree → Bool
  | await _ => true
  | _ => false

/-- Whether a tree is the member by which a call is continued. -/
def isContinuation : Tree → Bool
  | member _ name => name == some "then" || name == some "catch"
  | _ => false

def isFunction : Tree → Bool
  | function _ => true
  | _ => false

end FlowPipeline.Script.Tree

namespace FlowPipeline.Lint
open Script (Tree)

/-! ## Listing by addresses -/

/-- The list has what `R` finds at the addresses, in the order of addresses. -/
def Lists {β : Type} (R : List Nat → β → Prop) (bs : List β) : Prop :=
  ∃ abs : List (List Nat × β), abs.map Prod.snd = bs ∧ (abs.map Prod.fst).Pairwise (· < ·) ∧
    ∀ a b, (a, b) ∈ abs ↔ R a b

namespace Lists

variable {β : Type} {R : List Nat → β → Prop} {bs : List β}

theorem mem_iff (h : Lists R bs) {b : β} : b ∈ bs ↔ ∃ a, R a b := by
  obtain ⟨abs, rfl, -, hmem⟩ := h
  simp only [List.mem_map, Prod.exists, exists_eq_right, hmem]

/-- The lists of some trees, put together, list what is in the trees, numbered from `k` on. -/
theorem flatMap {R : Tree → List Nat → β → Prop} {f : Tree → List β} (ts : List Tree)
    (h : ∀ t ∈ ts, Lists (R t) (f t)) (k : Nat) :
    Lists (fun a b => ∃ i a' t, a = (k + i) :: a' ∧ ts[i]? = some t ∧ R t a' b)
      (ts.flatMap f) := by
  induction ts generalizing k with
  | nil => exact ⟨[], by simp, by simp, by simp⟩
  | cons t ts ih =>
    obtain ⟨abs, hbs, hlt, hmem⟩ := h t List.mem_cons_self
    obtain ⟨abs', hbs', hlt', hmem'⟩ := ih (fun u hu => h u (List.mem_cons_of_mem _ hu)) (k + 1)
    refine ⟨abs.map (fun p => (k :: p.1, p.2)) ++ abs', ?_, ?_, ?_⟩
    · simp [← hbs, ← hbs', Function.comp_def]
    · rw [List.map_append, List.pairwise_append]
      refine ⟨?_, hlt', ?_⟩
      · simp only [List.map_map, Function.comp_def, List.pairwise_map] at hlt ⊢
        exact hlt.imp fun h => List.cons_lt_cons_iff.2 (.inr ⟨rfl, h⟩)
      · intro a ha c hc
        obtain ⟨p, hp, rfl⟩ := List.mem_map.1 ha
        obtain ⟨q, -, rfl⟩ := List.mem_map.1 hp
        obtain ⟨⟨c, b⟩, hcb, rfl⟩ := List.mem_map.1 hc
        obtain ⟨i, c', u, rfl, -⟩ := (hmem' c b).1 hcb
        exact List.cons_lt_cons_iff.2 (.inl (by omega))
    · intro a b
      simp only [List.mem_append, List.mem_map, Prod.mk.injEq, Prod.exists]
      constructor
      · rintro (⟨a', b', hab, rfl, rfl⟩ | hab)
        · exact ⟨0, a', t, rfl, rfl, (hmem a' b').1 hab⟩
        · obtain ⟨i, a', u, rfl, hu, hr⟩ := (hmem' a b).1 hab
          exact ⟨i + 1, a', u, by congr 1; omega, hu, hr⟩
      · rintro ⟨i, a', u, rfl, hu, hr⟩
        cases i with
        | zero =>
          obtain rfl : t = u := by simpa using hu
          exact .inl ⟨a', b, (hmem a' b).2 hr, rfl, rfl⟩
        | succ i =>
          refine .inr ((hmem' _ b).2 ⟨i, a', u, by congr 1; omega, ?_, hr⟩)
          simpa using hu

/-- What is found at the tree itself comes before what is found in its parts. -/
theorem append {own : Option β} {R' : List Nat → β → Prop} (h : Lists R bs)
    (hcons : ∀ a b, R a b → a ≠ [])
    (hr : ∀ a b, R' a b ↔ (a = [] ∧ own = some b) ∨ R a b) : Lists R' (own.toList ++ bs) := by
  obtain ⟨abs, rfl, hlt, hmem⟩ := h
  refine ⟨own.toList.map (fun b => ([], b)) ++ abs, ?_, ?_, ?_⟩
  · cases own <;> simp
  · cases own with
    | none => simpa using hlt
    | some b =>
      simp only [Option.toList_some, List.map_cons, List.map_nil, List.cons_append, List.nil_append,
        List.pairwise_cons]
      refine ⟨fun a ha => ?_, hlt⟩
      obtain ⟨⟨a, c⟩, hac, rfl⟩ := List.mem_map.1 ha
      obtain ⟨i, a', rfl⟩ := List.exists_cons_of_ne_nil (hcons _ _ ((hmem a c).1 hac))
      exact List.nil_lt_cons i a'
  · intro a b
    rw [hr, ← hmem, List.mem_append]
    cases own <;> simp [eq_comm]

end Lists

/-! ## The calls of the host -/

/-- The scope of the parts of a tree. -/
def Scope.into (s : Scope) (t : Tree) : Scope :=
  ⟨s.awaited || t.isAwait, s.continued || t.isContinuation⟩

/-- The call of the host that a tree itself is. -/
def ownSite (s : Scope) : Tree → Option Site
  | .call line callee _ args =>
    (hostCall? callee).map fun (call, name) =>
      ⟨call, name, line, args.getLast?, s.awaited, s.continued⟩
  | _ => none

theorem allSites_eq (s : Scope) (ts : List Tree) : allSites s ts = ts.flatMap (sites s) := by
  induction ts with
  | nil => rfl
  | cons t ts ih => rw [allSites, ih, List.flatMap_cons]

theorem sites_eq (s : Scope) (t : Tree) :
    sites s t = (ownSite s t).toList ++ t.parts.flatMap (sites (s.into t)) := by
  cases t with
  | identifier | literal => rfl
  | member object name =>
    have hscope : s.into (.member object name) =
        ⟨s.awaited, s.continued || (name = some "then" ∨ name = some "catch")⟩ := by
      simp [Scope.into, Tree.isAwait, Tree.isContinuation, Bool.decide_or,
        Bool.beq_eq_decide_eq]
    simp [sites, ownSite, Tree.parts, hscope]
  | call line callee types args =>
    have hscope : s.into (.call line callee types args) = s := by
      simp [Scope.into, Tree.isAwait, Tree.isContinuation]
    simp [sites, ownSite, Tree.parts, hscope, allSites_eq]
  | await operand =>
    have hscope : s.into (.await operand) = ⟨true, s.continued⟩ := by
      simp [Scope.into, Tree.isAwait, Tree.isContinuation]
    simp [sites, ownSite, Tree.parts, hscope]
  | function ts | group ts =>
    simp [sites, ownSite, Tree.parts, Scope.into, Tree.isAwait, Tree.isContinuation, allSites_eq]

/-- A call of the host stands at an address of a tree that has the scope `s`. It is awaited or
continued if the scope is, or a tree around it says so. -/
structure IsSite (s : Scope) (t : Tree) (a : List Nat) (b : Site) : Prop where
  call : ∃ types args, t.at? a = some
    (.call b.line (.member (.identifier "nango") (some b.name)) types args) ∧
      b.last = args.getLast?
  known : HostCall.ofName? b.name = some b.call
  awaited : b.awaited = (s.awaited || (t.around a).any Tree.isAwait)
  continued : b.continued = (s.continued || (t.around a).any Tree.isContinuation)

variable {s : Scope} {t : Tree} {b : Site}

theorem exists_isSite {line : Nat} {name : String} {types : Tree} {args : List Tree}
    {call : HostCall} {a : List Nat} (s : Scope) (hat : t.at? a =
      some (.call line (.member (.identifier "nango") (some name)) types args))
    (hknown : HostCall.ofName? name = some call) :
    ∃ b, IsSite s t a b ∧ b.call = call ∧ b.last = args.getLast? :=
  ⟨⟨call, name, line, args.getLast?, _, _⟩, ⟨⟨types, args, hat, rfl⟩, hknown, rfl, rfl⟩, rfl, rfl⟩

theorem hostCall?_eq_some_iff {callee : Tree} {call : HostCall} {name : String} :
    hostCall? callee = some (call, name) ↔
      callee = .member (.identifier "nango") (some name) ∧ HostCall.ofName? name = some call := by
  constructor
  · intro h
    unfold hostCall? at h
    split at h
    · simp only [Option.map_eq_some_iff, Prod.mk.injEq] at h
      obtain ⟨c, hc, rfl, rfl⟩ := h
      exact ⟨rfl, hc⟩
    · cases h
  · rintro ⟨rfl, h⟩
    simp [hostCall?, h]

theorem ownSite_eq_some_iff : ownSite s t = some b ↔ IsSite s t [] b := by
  constructor
  · intro h
    unfold ownSite at h
    split at h
    · simp only [Option.map_eq_some_iff, Prod.exists] at h
      obtain ⟨call, name, hcall, rfl⟩ := h
      obtain ⟨rfl, hknown⟩ := hostCall?_eq_some_iff.1 hcall
      exact ⟨⟨_, _, rfl, rfl⟩, hknown, by simp [Tree.around], by simp [Tree.around]⟩
    · cases h
  · rintro ⟨⟨types, args, hcall, hlast⟩, hknown, hawaited, hcontinued⟩
    obtain rfl := Option.some.inj hcall
    have hhost := hostCall?_eq_some_iff.2 ⟨rfl, hknown⟩
    simp only [Tree.around, List.any_nil, Bool.or_false] at hawaited hcontinued
    simp [ownSite, hhost, ← hlast, ← hawaited, ← hcontinued]

theorem isSite_cons_iff {i : Nat} {a : List Nat} : IsSite s t (i :: a) b ↔
    ∃ u, t.parts[i]? = some u ∧ IsSite (s.into t) u a b := by
  constructor
  · rintro ⟨⟨types, args, hcall, hlast⟩, hknown, hawaited, hcontinued⟩
    obtain ⟨u, hu, hcall⟩ := Option.bind_eq_some_iff.1 hcall
    simp only [Tree.around, hu, Option.elim_some, List.any_cons] at hawaited hcontinued
    refine ⟨u, hu, ⟨types, args, hcall, hlast⟩, hknown, ?_, ?_⟩
    · rw [hawaited, Scope.into, Bool.or_assoc]
    · rw [hcontinued, Scope.into, Bool.or_assoc]
  · rintro ⟨u, hu, ⟨types, args, hcall, hlast⟩, hknown, hawaited, hcontinued⟩
    refine ⟨⟨types, args, Option.bind_eq_some_iff.2 ⟨u, hu, hcall⟩, hlast⟩, hknown, ?_, ?_⟩
    · simp [Tree.around, hu, hawaited, Scope.into, Bool.or_assoc]
    · simp [Tree.around, hu, hcontinued, Scope.into, Bool.or_assoc]

/-- Every call of the host is found, once, in the order of the text, with what stands around it. -/
theorem lists_sites (t : Tree) (s : Scope) : Lists (IsSite s t) (sites s t) := by
  induction t using Tree.inductionOnParts generalizing s with
  | step t ih =>
    rw [sites_eq]
    refine (Lists.flatMap t.parts (fun u hu => ih u hu (s.into t)) 0).append ?_ fun a b => ?_
    · rintro _ b ⟨i, a', u, rfl, -⟩
      simp
    · cases a with
      | nil => simp [ownSite_eq_some_iff]
      | cons i a =>
        simp only [isSite_cons_iff, reduceCtorEq, false_and, false_or, Nat.zero_add,
          List.cons.injEq]
        constructor
        · rintro ⟨u, hu, h⟩
          exact ⟨i, a, u, ⟨rfl, rfl⟩, hu, h⟩
        · rintro ⟨_, _, u, ⟨rfl, rfl⟩, hu, h⟩
          exact ⟨u, hu, h⟩

end FlowPipeline.Lint
