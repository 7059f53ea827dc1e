import FlowPipeline.Proofs.StackOrder
import FlowPipeline.Script.Parse
import Mathlib.Tactic.SplitIfs

/-! # The order of scripts

Whatever ways a script is read in, the stacks stay in order, and no phrase reaches beyond the token
before which it ends. So the tree that is read has its calls in the order of their lines.
-/

namespace FlowPipeline.Script
namespace Parse
open Node Stack

variable {o p q : Place} {s s' : Parse} {i j : Nat} {r : Reduction}

/-- The stacks are in order, all heads stand on them, and what is read of the whole script goes
forwards. -/
structure IsOrdered (o : Place) (s : Parse) : Prop where
  stack : s.stack.IsOrdered o
  heads : ∀ h ∈ s.heads, h.vertex < s.stack.size
  tree : ∀ n, s.tree = some n → n.IsOrdered

/-- The place at which a head stands. -/
def placeOf (s : Parse) (h : Head) : Place := (s.stack.vertex h.vertex).place

theorem vertexOf_eq {x : Head} (h : s.heads[i]? = some x) : s.vertexOf i = x.vertex := by
  rw [vertexOf, h]
  rfl

namespace IsOrdered

theorem withHeads (h : s.IsOrdered o) {heads : List Head}
    (hheads : ∀ h ∈ heads, h.vertex < s.stack.size) : IsOrdered o { s with heads } :=
  ⟨h.stack, hheads, h.tree⟩

theorem of_subset (h : s.IsOrdered o) {heads : List Head} (hs : heads ⊆ s.heads) :
    IsOrdered o { s with heads } :=
  h.withHeads fun x hx => h.heads x (hs hx)

theorem erase (h : s.IsOrdered o) (i : Nat) : (s.erase i).IsOrdered o :=
  h.of_subset fun _ => List.mem_of_mem_eraseIdx

theorem set (h : s.IsOrdered o) {x : Head} (hx : x.vertex < s.stack.size) (i : Nat) :
    IsOrdered o { s with heads := s.heads.set i x } := by
  refine h.withHeads fun y hy => ?_
  rcases List.mem_or_eq_of_mem_set hy with hy | rfl
  · exact h.heads y hy
  · exact hx

/-- A head that there is stands on the stack, and for one that there is not the bottom does. -/
theorem vertexOf_lt (h : s.IsOrdered o) (i : Nat) : s.vertexOf i < s.stack.size := by
  cases hi : s.heads[i]? with
  | none =>
    rw [vertexOf, hi]
    exact h.stack.bottom
  | some x =>
    rw [vertexOf_eq hi]
    exact h.heads x (List.mem_of_getElem? hi)

theorem setProgress (h : s.IsOrdered o) (i : Nat) (p : Progress) :
    (s.setProgress i p).IsOrdered o := by
  refine h.withHeads fun x hx => ?_
  obtain ⟨j, hj⟩ := List.mem_iff_getElem?.1 hx
  rw [List.getElem?_modify] at hj
  obtain ⟨y, hy, rfl⟩ := Option.map_eq_some_iff.1 hj
  have hlt := h.heads y (List.mem_of_getElem? hy)
  split_ifs <;> exact hlt

theorem fail (h : s.IsOrdered o) (i : Nat) (token : Token) : (s.fail i token).IsOrdered o := by
  have hstuck := h.setProgress i .stuck
  exact ⟨hstuck.stack, hstuck.heads, hstuck.tree⟩

/-- What stands on a head when the script ends goes forwards. -/
theorem finish (h : s.IsOrdered o) (i : Nat) : (s.finish i).IsOrdered o := by
  have hfinished := h.setProgress i .finished
  obtain ⟨a, hparts⟩ := h.stack.allParts s.stack.size (h.vertexOf_lt i)
    (.nil (.refl (s.stack.vertex (s.vertexOf i)).place))
  unfold Parse.finish
  extract_lets read isBest
  have hread : read.IsOrdered := by
    dsimp only [read]
    split
    · next m hm =>
      rw [hm] at hparts
      exact (AreOrdered.single_iff.1 hparts).2.1
    · exact isOrdered_ofParts hparts
  refine ⟨hfinished.stack, hfinished.heads, fun n hn => ?_⟩
  cases hbest : isBest with
  | true =>
    obtain rfl : read = n := by simpa [hbest] using hn
    exact hread
  | false => exact h.tree n (by simpa [hbest] using hn)

end IsOrdered

/-- What is read on a stack goes on from where it was: the vertices stay, and all heads but the new
ones at the end; those stand no further than at some place. -/
structure Grows (o q : Place) (s s' : Parse) : Prop where
  ordered : s'.IsOrdered o
  keeps : s.stack.Keeps s'.stack
  heads : ∃ new, s'.heads = s.heads ++ new ∧ ∀ h ∈ new, (s'.placeOf h).Reaches q

namespace Grows

theorem refl (h : s.IsOrdered o) (q : Place) : Grows o q s s :=
  ⟨h, .refl _, [], by simp⟩

theorem trans {s'' : Parse} (h : Grows o q s s') (h' : Grows o q s' s'') : Grows o q s s'' := by
  obtain ⟨new, hnew, hreach⟩ := h.heads
  obtain ⟨more, hmore, hreach'⟩ := h'.heads
  refine ⟨h'.ordered, h.keeps.trans h'.keeps, new ++ more, ?_, fun x hx => ?_⟩
  · rw [hmore, hnew, List.append_assoc]
  · rcases List.mem_append.1 hx with hx | hx
    · have hlt := h.ordered.heads x (hnew ▸ List.mem_append_right _ hx)
      rw [placeOf, h'.keeps.place _ hlt]
      exact hreach x hx
    · exact hreach' x hx

theorem mono (h : Grows o p s s') (hpq : p.Reaches q) : Grows o q s s' := by
  obtain ⟨new, hnew, hreach⟩ := h.heads
  exact ⟨h.ordered, h.keeps, new, hnew, fun x hx => (hreach x hx).trans hpq⟩

end Grows

/-- A head is there and does not stand behind a place. -/
def StandsBefore (s : Parse) (i : Nat) (q : Place) : Prop :=
  ∃ x, s.heads[i]? = some x ∧ (s.placeOf x).Reaches q

/-- The heads that there were stay where they are. -/
theorem StandsBefore.grow (h : s.StandsBefore i p) (hs : s.IsOrdered o) (hg : Grows o q s s') :
    s'.StandsBefore i p := by
  obtain ⟨x, hx, hreach⟩ := h
  obtain ⟨new, hnew, -⟩ := hg.heads
  have hi := (List.getElem?_eq_some_iff.1 hx).1
  refine ⟨x, ?_, ?_⟩
  · rw [hnew, List.getElem?_append_left hi, hx]
  · rw [placeOf, hg.keeps.place _ (hs.heads x (List.mem_of_getElem? hx))]
    exact hreach

theorem StandsBefore.reaches (h : s.StandsBefore i q) :
    (s.stack.vertex (s.vertexOf i)).place.Reaches q := by
  obtain ⟨x, hx, hreach⟩ := h
  rw [vertexOf_eq hx]
  exact hreach

/-! ## Putting parts on the stack of a head -/

/-- A part is put on a head that does not stand behind it. -/
theorem IsOrdered.push (h : s.IsOrdered o) {n : Node} (hn : n.IsOrdered)
    (hstart : (s.stack.vertex (s.vertexOf i)).place.Reaches n.start) (state : State) :
    (s.push i n state).IsOrdered o ∧ s.stack.Keeps (s.push i n state).stack ∧
      ∃ x, (s.push i n state).heads = s.heads.set i x ∧
        x.vertex < (s.push i n state).stack.size ∧ (s.push i n state).placeOf x = n.stop := by
  obtain ⟨hordered, hkeeps, hlt, hplace⟩ := h.stack.push (h.vertexOf_lt i) hn hstart state
  have hpushed : IsOrdered o { s with stack := (s.stack.push (s.vertexOf i) n state).1 } :=
    ⟨hordered, fun x hx => hkeeps.lt (h.heads x hx), h.tree⟩
  exact ⟨hpushed.set hlt i, hkeeps, _, rfl, hlt, hplace⟩

/-- Parts that follow each other are put on the last head. -/
theorem IsOrdered.pushAll (h : s.IsOrdered o) {heads : List Head} {x : Head} {parts : List Node}
    (hs : s.heads = heads ++ [x]) (hparts : AreOrdered (s.placeOf x) q parts) (state : State) :
    Grows o q { s with heads } (parts.foldl (fun s n => s.push heads.length n state) s) ∧
      ∃ y, (parts.foldl (fun s n => s.push heads.length n state) s).heads = heads ++ [y] := by
  induction parts generalizing s x with
  | nil =>
    refine ⟨⟨h, .refl _, [x], hs, fun y hy => ?_⟩, x, hs⟩
    obtain rfl := List.mem_singleton.1 hy
    exact hparts.reaches
  | cons n parts ih =>
    cases hparts with
    | cons hstart hn hrest =>
      have hx : s.heads[heads.length]? = some x := by simp [hs]
      rw [placeOf, ← vertexOf_eq hx] at hstart
      obtain ⟨hordered, hkeeps, y, hy, hlt, hplace⟩ := h.push hn hstart state
      have hheads : (s.push heads.length n state).heads = heads ++ [y] := by
        rw [hy, hs, List.set_append_right _ _ (Nat.le_refl _), Nat.sub_self]
        rfl
      obtain ⟨hgrows, hlast⟩ := ih hordered hheads (hplace ▸ hrest)
      exact ⟨⟨hgrows.ordered, hkeeps.trans hgrows.keeps, hgrows.heads⟩, hlast⟩

/-! ## Heads that go on alike -/

theorem getElem?_of_isGoing (h : s.isGoing i = true) : ∃ x, s.heads[i]? = some x := by
  simp only [isGoing, beq_iff_eq, Option.map_eq_some_iff] at h
  obtain ⟨x, hx, -⟩ := h
  exact ⟨x, hx⟩

theorem IsOrdered.merge? (h : s.IsOrdered o) (hm : s.merge? i j = some s') :
    s'.IsOrdered o ∧ s.stack.Keeps s'.stack ∧ s'.heads = s.heads.eraseIdx j := by
  unfold Parse.merge? at hm
  dsimp only at hm
  split_ifs at hm with hagree
  obtain rfl := Option.some.inj hm
  simp only [Bool.and_eq_true] at hagree
  obtain ⟨hordered, hkeeps⟩ := h.stack.merge (h.vertexOf_lt i) (h.vertexOf_lt j) hagree.2
  have hmerged : IsOrdered o { s with stack := s.stack.merge (s.vertexOf i) (s.vertexOf j) } :=
    ⟨hordered, fun x hx => hkeeps.lt (h.heads x hx), h.tree⟩
  exact ⟨hmerged.erase j, hkeeps, rfl⟩

/-- The last head may become part of one before it. -/
theorem Grows.mergeInto {heads : List Head} {x : Head} (but : Nat)
    (h : Grows o q { s with heads } s') (hs : s'.heads = heads ++ [x]) :
    Grows o q { s with heads } (s'.mergeInto but heads.length) := by
  unfold Parse.mergeInto
  rcases hmerge : (List.range heads.length).findSome? fun i =>
    if i == but then none else s'.merge? i heads.length with _ | s''
  · exact h
  · obtain ⟨i, -, hi⟩ := List.exists_of_findSome?_eq_some hmerge
    split_ifs at hi
    obtain ⟨hordered, hkeeps, hheads⟩ := h.ordered.merge? hi
    refine ⟨hordered, h.keeps.trans hkeeps, [], ?_, by simp⟩
    rw [Option.getD_some, hheads, hs, List.eraseIdx_append_of_length_le (Nat.le_refl _)]
    simp

/-! ## Phrases that end -/

theorem splitComments_append (parts : List Node) :
    (splitComments parts).1 ++ (splitComments parts).2 = parts := by
  have hsuffix : (parts.reverse.takeWhile Node.isComment).reverse <:+ parts := by
    rw [← List.reverse_prefix, List.reverse_reverse]
    exact List.takeWhile_prefix _
  exact (List.suffix_iff_eq_append.1 hsuffix)

theorem ordered_phraseOf {parts : List Node} (h : AreOrdered p q parts) :
    AreOrdered p q ((phraseOf r p parts).1 :: (phraseOf r p parts).2) := by
  rw [← splitComments_append parts] at h
  obtain ⟨a, hown, hcomments⟩ := AreOrdered.append_iff.1 h
  rw [← List.singleton_append]
  exact AreOrdered.append_iff.2 ⟨a, ordered_ofParts hown (.refl p) hown.reaches, hcomments⟩

theorem ordered_bestOf {ways : List (List Node)} (h : ∀ parts ∈ ways, AreOrdered p q parts)
    {best : Node × List Node} (hb : bestOf r p ways = some best) :
    AreOrdered p q (best.1 :: best.2) := by
  cases ways with
  | nil => cases hb
  | cons parts more =>
    obtain ⟨hparts, hmore⟩ := List.forall_mem_cons.1 h
    obtain rfl := Option.some.inj hb
    refine List.foldlRecOn (motive := fun best : Node × List Node =>
      AreOrdered p q (best.1 :: best.2)) more _ (ordered_phraseOf hparts)
      fun best hbest parts hp => ?_
    dsimp only
    split_ifs
    · exact ordered_phraseOf (hmore parts hp)
    · exact hbest

/-- A phrase that ends at a head ends where that head stands. -/
theorem IsOrdered.reduce (h : s.IsOrdered o) (i : Nat) (r : Reduction) :
    Grows o (s.stack.vertex (s.vertexOf i)).place s (s.reduce i r) := by
  have hpop := h.stack.pop (h.vertexOf_lt i) r.count
  unfold Parse.reduce
  generalize (s.stack.vertex (s.vertexOf i)).place = q at hpop ⊢
  refine List.foldlRecOn (motive := fun s' => Grows o q s s') _ _ (.refl h q)
    fun s' hgrows g hg => ?_
  obtain ⟨v, ways⟩ := g
  obtain ⟨hlt, hways⟩ := hpop _ hg
  dsimp only
  split
  · exact hgrows
  next node comments hbest =>
  split_ifs
  · exact hgrows
  -- The phrase and the comments behind it are put on a new head, which may join another one.
  have hv := hgrows.keeps.lt hlt
  have hordered := ordered_bestOf (p := (s'.stack.vertex v).place) (fun parts hp => by
    rw [hgrows.keeps.place v hlt]
    exact hways parts hp) hbest
  have hnew : IsOrdered o { s' with heads := s'.heads ++ [Head.mk v .going] } :=
    hgrows.ordered.withHeads fun x hx => by
      rcases List.mem_append.1 hx with hx | hx
      · exact hgrows.ordered.heads x hx
      · obtain rfl := List.mem_singleton.1 hx
        exact hv
  obtain ⟨hall, y, hy⟩ := hnew.pushAll rfl hordered
    ((s'.stack.vertex v).state.move (.phrase r.phrase))
  exact hgrows.trans (hall.mergeInto i hy)

/-- The last new head is one of the new ones. -/
theorem IsOrdered.reduceAll (h : s.IsOrdered o) (hi : s.StandsBefore i q) (rs : List Reduction) :
    Grows o q s (s.reduceAll i rs).1 ∧
      ∀ j, (s.reduceAll i rs).2 = some j → s.heads.length ≤ j := by
  unfold Parse.reduceAll
  refine List.foldlRecOn (motive := fun x : Parse × Option Nat =>
    Grows o q s x.1 ∧ ∀ j, x.2 = some j → s.heads.length ≤ j)
    _ _ ⟨.refl h q, by simp⟩ fun x hx r _ => ?_
  obtain ⟨s', last⟩ := x
  obtain ⟨hgrows, hlast⟩ := hx
  have hreduce := (hgrows.ordered.reduce i r).mono (hi.grow h hgrows).reaches
  refine ⟨hgrows.trans hreduce, fun j hj => ?_⟩
  dsimp only at hj
  split_ifs at hj
  · obtain ⟨new, hnew, -⟩ := hgrows.heads
    obtain rfl := Option.some.inj hj
    rw [hnew, List.length_append]
    omega
  · exact hlast j hj

/-! ## Tokens -/

/-- A later head comes to stand in the place of an earlier one. -/
theorem IsOrdered.replace (h : s.IsOrdered o) (hi : s.StandsBefore i q) (hij : i < j)
    (hj : ∀ x, s.heads[j]? = some x → (s.placeOf x).Reaches q) :
    IsOrdered o (Parse.erase { s with heads := (s.heads[j]?.map (s.heads.set i)).getD s.heads } j) ∧
      StandsBefore
        (Parse.erase { s with heads := (s.heads[j]?.map (s.heads.set i)).getD s.heads } j) i q := by
  cases hx : s.heads[j]? with
  | none =>
    obtain ⟨y, hy, hreach⟩ := hi
    refine ⟨h.erase j, y, ?_, hreach⟩
    exact (List.getElem?_eraseIdx_of_lt hij).trans hy
  | some x =>
    have hset := h.set (h.heads x (List.mem_of_getElem? hx)) i
    obtain ⟨y, hy, -⟩ := hi
    have hlt := (List.getElem?_eq_some_iff.1 hy).1
    refine ⟨hset.erase j, x, ?_, hj x hx⟩
    exact (List.getElem?_eraseIdx_of_lt hij).trans (List.getElem?_set_self hlt)

/-- Reading a token keeps the order if the head does not stand behind the token. -/
theorem IsOrdered.read {token : Token} (htoken : token.start.Reaches token.stop) {fuel : Nat}
    {t : Terminal} (h : s.IsOrdered o) (hi : s.StandsBefore i token.start) :
    (Parse.read token fuel t s i).IsOrdered o := by
  have hleaf (t : Terminal) : (Node.leaf t token.start token.stop).IsOrdered := .leaf htoken
  induction fuel generalizing t s with
  | zero => exact h.fail i token
  | succ fuel ih =>
    unfold Parse.read
    dsimp only
    split
    · exact (h.push (hleaf t) hi.reaches _).1
    split
    · exact h.finish i
    obtain ⟨hgrows, hlast⟩ := h.reduceAll hi ((s.state i).decide t).reductions
    generalize s.reduceAll i ((s.state i).decide t).reductions = x at hgrows hlast ⊢
    obtain ⟨s', last⟩ := x
    have hi' := hi.grow h hgrows
    split
    · exact (hgrows.ordered.push (hleaf t) hi'.reaches _).1
    cases last with
    | some j =>
      have hle := hlast j rfl
      obtain ⟨new, hnew, hreach⟩ := hgrows.heads
      have hij : i < j := by
        obtain ⟨y, hy, -⟩ := hi
        exact Nat.lt_of_lt_of_le (List.getElem?_eq_some_iff.1 hy).1 hle
      obtain ⟨hordered, hstands⟩ := hgrows.ordered.replace hi' hij fun x hx => by
        rw [hnew, List.getElem?_append_right hle] at hx
        exact hreach x (List.mem_of_getElem? hx)
      exact ih hordered hstands
    | none =>
      dsimp only
      split
      · exact ih hgrows.ordered hi'
      · exact hgrows.ordered.fail i token

theorem IsOrdered.advance (h : s.IsOrdered o) (hi : s.isGoing i = true) :
    (s.advance i).IsOrdered o := by
  obtain ⟨x, hx⟩ := getElem?_of_isGoing hi
  unfold Parse.advance
  dsimp only
  split
  · obtain ⟨hstart, hstop⟩ := Scanner.token_stands (s.stack.vertex (s.vertexOf i)).state.next
      (s.stack.vertex (s.vertexOf i)).place
    refine h.read hstop ⟨x, hx, ?_⟩
    rw [vertexOf_eq hx] at hstart ⊢
    exact hstart
  · exact h.fail i _

/-! ## Runs -/

theorem IsOrdered.condense (fuel : Nat) (h : s.IsOrdered o) :
    (Parse.condense fuel i j s).IsOrdered o := by
  induction fuel generalizing i j s with
  | zero => exact h
  | succ fuel ih =>
    unfold Parse.condense
    split
    · exact h
    split
    · exact ih (h.erase i)
    split
    · exact ih h
    split
    · exact ih (h.erase i)
    split
    · exact ih (h.erase j)
    split
    · next hmerge => exact ih (h.merge? hmerge).1
    · dsimp only
      split
      · next x y hx hy =>
        have hset := h.set (h.heads y (List.mem_of_getElem? hy)) i
        have hswap := hset.set (h.heads x (List.mem_of_getElem? hx)) j
        split
        · exact ih hswap
        · exact ih h
      · exact h

theorem IsOrdered.run (fuel : Nat) (h : s.IsOrdered o) : (Parse.run fuel i s).IsOrdered o := by
  induction fuel generalizing i s with
  | zero => exact h
  | succ fuel ih =>
    unfold Parse.run
    split
    · split
      · next hgoing =>
        have hadvance := h.advance hgoing
        dsimp only
        split
        · exact ih ⟨hadvance.stack, hadvance.heads, hadvance.tree⟩
        · exact ih hadvance
      · exact ih h
    · dsimp only
      have hcondense := h.condense (i := 0) (j := 0)
        (4 * (s.heads.length + 1) * (s.heads.length + 1))
      split
      · exact hcondense
      · refine ih (hcondense.of_subset fun x hx => ?_)
        exact List.mem_of_mem_take (List.mem_of_mem_filter hx)

theorem isOrdered_start (p : Place) : (start p).IsOrdered p := by
  have hsize : (Stack.start p).size = 1 := by
    simp [Stack.start, Stack.size, Std.TreeMap.size_insert]
  have hvertex : (Stack.start p).vertex 0 = ⟨State.start, p, [], 0⟩ := by
    simp [Stack.start, Stack.vertex]
  refine ⟨⟨fun v => ?_, ?_, fun v hv => ?_, fun v hv l hl => ?_⟩, fun h hh => ?_, by simp [start]⟩
  · rw [show (start p).stack = Stack.start p from rfl, hsize]
    simp [Stack.start]
    omega
  · exact hsize ▸ Nat.zero_lt_one
  · obtain rfl : v = 0 := Nat.lt_one_iff.1 (hsize ▸ hv)
    rw [show (start p).stack = Stack.start p from rfl, hvertex]
    exact .refl p
  · obtain rfl : v = 0 := Nat.lt_one_iff.1 (hsize ▸ hv)
    rw [show (start p).stack = Stack.start p from rfl, hvertex] at hl
    cases hl
  · obtain rfl := List.mem_singleton.1 hh
    exact hsize ▸ Nat.zero_lt_one

end Parse

/-- The calls of a script are in the order of their lines. -/
theorem callLines_sorted {source : String} {t : Tree} (h : parse source = .ok t) :
    t.callLines.Pairwise (· ≤ ·) := by
  have hrun := (Parse.isOrdered_start (Place.start source)).run (i := 0)
    (Parse.runFuel source)
  unfold parse at h
  dsimp only at h
  split at h
  · next n hn =>
    obtain rfl := Except.ok.inj h
    exact (hrun.tree n hn).rises.sorted
  · cases h

end FlowPipeline.Script
