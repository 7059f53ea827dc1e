import FlowPipeline.Proofs.ReadingOrder
import FlowPipeline.Script.Stack
import Std.Data.TreeMap.Lemmas

/-! # The order of stacks

On the stacks of all ways in which a script is read, each part starts where the vertex below it
stands or later, and stops where the vertex above it stands or earlier. So the parts on every way
down follow each other.
-/

namespace FlowPipeline.Script
namespace Stack
open Node

variable {o : Place} {s s' : Stack} {v w : Nat}

/-! ## Vertices -/

@[simp] theorem vertex_set (s : Stack) (v : Nat) (x : Vertex) (w : Nat) :
    (s.set v x).vertex w = if v = w then x else s.vertex w := by
  simp only [vertex, set, Std.TreeMap.getD_insert, Nat.compare_eq_eq]

/-- A part stands between two vertices. -/
def Holds (s : Stack) (v : Nat) (l : Link) : Prop :=
  l.below < s.size ∧ AreOrdered (s.vertex l.below).place (s.vertex v).place [l.node]

/-- The parts of a stack are in order, and all its vertices stand in the script that starts at
`o`. -/
structure IsOrdered (o : Place) (s : Stack) : Prop where
  mem_iff : ∀ v, v ∈ s.vertices ↔ v < s.size
  bottom : 0 < s.size
  place : ∀ v < s.size, o.Reaches (s.vertex v).place
  links : ∀ v < s.size, ∀ l ∈ (s.vertex v).links, s.Holds v l

/-- The vertices stay where they stand; there may be more of them. -/
structure Keeps (s s' : Stack) : Prop where
  size : s.size ≤ s'.size
  place : ∀ v < s.size, (s'.vertex v).place = (s.vertex v).place

theorem Keeps.refl (s : Stack) : s.Keeps s := ⟨Nat.le_refl _, fun _ _ => rfl⟩

theorem Keeps.trans {s'' : Stack} (h : s.Keeps s') (h' : s'.Keeps s'') : s.Keeps s'' := by
  refine ⟨Nat.le_trans h.size h'.size, fun v hv => ?_⟩
  rw [h'.place v (Nat.lt_of_lt_of_le hv h.size), h.place v hv]

theorem Keeps.lt (h : s.Keeps s') (hv : v < s.size) : v < s'.size := Nat.lt_of_lt_of_le hv h.size

theorem Holds.keep {l : Link} (h : s.Holds v l) (hv : v < s.size) (hs : s.Keeps s') :
    s'.Holds v l := by
  obtain ⟨hbelow, hl⟩ := h
  refine ⟨hs.lt hbelow, ?_⟩
  rw [hs.place v hv, hs.place l.below hbelow]
  exact hl

/-- Of two vertices that agree, one stands where the other does. -/
theorem IsOrdered.place_of_agree (h : s.IsOrdered o) (hv : v < s.size) (hw : w < s.size)
    (ha : s.agree v w = true) : (s.vertex v).place = (s.vertex w).place := by
  simp only [agree, Bool.and_eq_true, beq_iff_eq] at ha
  have hreach := (h.place w hw).of_index_le (h.place v hv) (by omega)
  exact hreach.eq_of_index (by omega)

/-! ## Changes -/

theorem size_set_of_lt (h : s.IsOrdered o) (hv : v < s.size) (x : Vertex) :
    (s.set v x).size = s.size := by
  have hmem : s.vertices.contains v = true := (h.mem_iff v).2 hv
  simp [size, set, Std.TreeMap.size_insert, hmem]

theorem size_set_size (h : s.IsOrdered o) (x : Vertex) : (s.set s.size x).size = s.size + 1 := by
  have hmem : ¬s.vertices.contains s.size = true := fun hm =>
    Nat.lt_irrefl _ ((h.mem_iff s.size).1 hm)
  simp only [size, set, Std.TreeMap.size_insert] at hmem ⊢
  rw [if_neg hmem]

/-- Changing the links of a vertex. -/
theorem IsOrdered.set (h : s.IsOrdered o) (hv : v < s.size) {x : Vertex}
    (hplace : x.place = (s.vertex v).place) (hlinks : ∀ l ∈ x.links, s.Holds v l) :
    (s.set v x).IsOrdered o ∧ s.Keeps (s.set v x) := by
  have hsize := size_set_of_lt h hv x
  have hkeeps : s.Keeps (s.set v x) := by
    refine ⟨Nat.le_of_eq hsize.symm, fun w _ => ?_⟩
    rw [vertex_set]
    split_ifs with hvw
    · rw [hplace, hvw]
    · rfl
  refine ⟨⟨fun w => ?_, ?_, fun w hw => ?_, fun w hw l hl => ?_⟩, hkeeps⟩
  · rw [hsize, ← h.mem_iff, Stack.set, Std.TreeMap.mem_insert, Nat.compare_eq_eq]
    constructor
    · rintro (rfl | hw)
      · exact (h.mem_iff v).2 hv
      · exact hw
    · exact .inr
  · rw [hsize]
    exact h.bottom
  · rw [hsize] at hw
    rw [hkeeps.place w hw]
    exact h.place w hw
  · rw [hsize] at hw
    refine Holds.keep ?_ hw hkeeps
    rw [vertex_set] at hl
    split_ifs at hl with hvw
    · exact hvw ▸ hlinks l hl
    · exact h.links w hw l hl

/-- A part is put on a vertex that does not stand behind it. -/
theorem IsOrdered.push (h : s.IsOrdered o) (hv : v < s.size) {n : Node} (hn : n.IsOrdered)
    (hstart : (s.vertex v).place.Reaches n.start) (state : State) :
    (s.push v n state).1.IsOrdered o ∧ s.Keeps (s.push v n state).1 ∧
      (s.push v n state).2 < (s.push v n state).1.size ∧
      ((s.push v n state).1.vertex (s.push v n state).2).place = n.stop := by
  obtain ⟨x, hx, hplace, hlinks⟩ : ∃ x, s.push v n state = (s.set s.size x, s.size) ∧
      x.place = n.stop ∧ x.links = [⟨v, n⟩] := by
    refine ⟨_, rfl, if_neg ?_, rfl⟩
    have := (hstart.trans hn.reaches).index_le
    omega
  rw [hx]
  dsimp only
  have hsize := size_set_size h x
  have hkeeps : s.Keeps (s.set s.size x) := by
    refine ⟨by omega, fun w hw => ?_⟩
    rw [vertex_set, if_neg (by omega)]
  have htop : (s.set s.size x).vertex s.size = x := by rw [vertex_set, if_pos rfl]
  refine ⟨⟨fun w => ?_, ?_, fun w hw => ?_, fun w hw l hl => ?_⟩, hkeeps, ?_, ?_⟩
  · have hiff : w ∈ (s.set s.size x).vertices ↔ s.size = w ∨ w ∈ s.vertices := by
      simp only [Stack.set, Std.TreeMap.mem_insert, Nat.compare_eq_eq]
    rw [hiff, hsize, h.mem_iff]
    omega
  · have := h.bottom
    omega
  · rcases Nat.lt_or_eq_of_le (Nat.le_of_lt_succ (hsize ▸ hw)) with hw | rfl
    · rw [hkeeps.place w hw]
      exact h.place w hw
    · rw [htop, hplace]
      exact (h.place v hv).trans (hstart.trans hn.reaches)
  · rcases Nat.lt_or_eq_of_le (Nat.le_of_lt_succ (hsize ▸ hw)) with hw | rfl
    · rw [vertex_set, if_neg (by omega)] at hl
      exact (h.links w hw l hl).keep hw hkeeps
    · rw [htop, hlinks, List.mem_singleton] at hl
      subst hl
      refine ⟨hkeeps.lt hv, ?_⟩
      rw [htop, hplace, hkeeps.place v hv]
      exact AreOrdered.single_iff.2 ⟨hstart, hn, .refl _⟩
  · omega
  · rw [htop, hplace]

/-! ## Links -/

theorem likeness_same {s : Stack} {l : Link} {i j : Nat} {ls : List Link}
    (h : s.likeness l i ls = .same j) : ∃ k, ls[j - i]? = some k ∧ i ≤ j ∧ k.below = l.below := by
  induction ls generalizing i with
  | nil => cases h
  | cons k ls ih =>
    have hrest (h : s.likeness l (i + 1) ls = .same j) :
        ∃ k', (k :: ls)[j - i]? = some k' ∧ i ≤ j ∧ k'.below = l.below := by
      obtain ⟨k', hk', hij, hb⟩ := ih h
      refine ⟨k', ?_, by omega, hb⟩
      have hj : j - i = (j - (i + 1)) + 1 := by omega
      rw [hj]
      exact hk'
    unfold likeness at h
    split_ifs at h with h₁ h₂ h₃
    · cases h
      exact ⟨k, by simp, Nat.le_refl _, by simpa using h₂⟩
    · exact hrest h
    · exact hrest h

theorem likeness_parallel {s : Stack} {l k : Link} {i : Nat} {ls : List Link}
    (h : s.likeness l i ls = .parallel k) : k ∈ ls ∧ s.agree k.below l.below = true := by
  induction ls generalizing i with
  | nil => cases h
  | cons k' ls ih =>
    have hrest (h : s.likeness l (i + 1) ls = .parallel k) :
        k ∈ k' :: ls ∧ s.agree k.below l.below = true :=
      ⟨List.mem_cons_of_mem _ (ih h).1, (ih h).2⟩
    unfold likeness at h
    split_ifs at h with h₁ h₂ h₃
    · cases h
      exact ⟨List.mem_cons_self, h₃⟩
    · exact hrest h
    · exact hrest h

/-- A step that keeps stacks in order may be taken for each link of a list. -/
theorem IsOrdered.foldl {f : Stack → Link → Stack} (ls : List Link) (h : s.IsOrdered o)
    (hv : v < s.size) (hls : ∀ l ∈ ls, s.Holds v l)
    (hf : ∀ s : Stack, ∀ l, s.IsOrdered o → v < s.size → s.Holds v l →
      (f s l).IsOrdered o ∧ s.Keeps (f s l)) :
    (ls.foldl f s).IsOrdered o ∧ s.Keeps (ls.foldl f s) := by
  induction ls generalizing s with
  | nil => exact ⟨h, .refl s⟩
  | cons l ls ih =>
    obtain ⟨hordered, hkeeps⟩ := hf s l h hv (hls l List.mem_cons_self)
    have hrest := ih hordered (hkeeps.lt hv) fun m hm =>
      (hls m (List.mem_cons_of_mem _ hm)).keep hv hkeeps
    exact ⟨hrest.1, hkeeps.trans hrest.2⟩

theorem IsOrdered.link (n : Nat) (h : s.IsOrdered o) (hv : v < s.size) {l : Link}
    (hl : s.Holds v l) : (link n s v l).IsOrdered o ∧ s.Keeps (link n s v l) := by
  induction n generalizing s v l with
  | zero => exact ⟨h, .refl s⟩
  | succ n ih =>
    unfold Stack.link
    dsimp only
    split
    · exact ⟨h, .refl s⟩
    split
    · next i hsame =>
      split
      · -- The link keeps the vertex below it and gets another part.
        obtain ⟨k, hk, -, hbelow⟩ := likeness_same hsame
        refine h.set hv rfl fun m hm => ?_
        obtain ⟨j, hj⟩ := List.mem_iff_getElem?.1 hm
        simp only [setLink, List.getElem?_modify] at hj
        split_ifs at hj with hij
        · subst hij
          rw [Nat.sub_zero] at hk
          obtain rfl : ({ k with node := l.node } : Link) = m := by simpa [hk] using hj
          exact ⟨hbelow ▸ hl.1, hbelow ▸ hl.2⟩
        · exact h.links v hv m (List.mem_of_getElem? (by simpa using hj))
      · exact ⟨h, .refl s⟩
    · next k hparallel =>
      -- The vertices below the two links agree, so that one may get the links of the other.
      obtain ⟨hmem, hagree⟩ := likeness_parallel hparallel
      obtain ⟨hkb, -⟩ := h.links v hv k hmem
      have hplace := h.place_of_agree hkb hl.1 hagree
      obtain ⟨hordered, hkeeps⟩ := h.foldl (f := fun s m => Stack.link n s k.below m)
        (s.vertex l.below).links hkb
        (fun m hm => by
          obtain ⟨hb, hm⟩ := h.links l.below hl.1 m hm
          exact ⟨hb, hplace ▸ hm⟩)
        (fun s m hs hk hm => ih hs hk hm)
      have hv' := hkeeps.lt hv
      have hset (weight : Int) := hordered.set hv'
        (x := { (List.foldl _ s (s.vertex l.below).links).vertex v with weight }) rfl
        fun m hm => hordered.links v hv' m hm
      exact ⟨(hset _).1, hkeeps.trans (hset _).2⟩
    · split
      · exact ⟨h, .refl s⟩
      · refine h.set hv rfl fun m hm => ?_
        rcases List.mem_append.1 hm with hm | hm
        · exact h.links v hv m hm
        · obtain rfl := List.mem_singleton.1 hm
          exact hl

theorem IsOrdered.merge (h : s.IsOrdered o) (hv : v < s.size) (hw : w < s.size)
    (ha : s.agree v w = true) : (s.merge v w).IsOrdered o ∧ s.Keeps (s.merge v w) := by
  have hplace := h.place_of_agree hv hw ha
  refine h.foldl _ hv (fun l hl => ?_) fun s l hs hv hl => hs.link _ hv hl
  obtain ⟨hb, hl⟩ := h.links w hw l hl
  exact ⟨hb, hplace.symm ▸ hl⟩

/-! ## Ways down -/

/-- The parts on a way follow each other up to a place. -/
def WayHolds (s : Stack) (q : Place) (w : Way) : Prop :=
  w.vertex < s.size ∧ AreOrdered (s.vertex w.vertex).place q w.parts

variable {q : Place}

theorem IsOrdered.step (h : s.IsOrdered o) {w : Way} (hw : s.WayHolds q w) {l : Link}
    (hl : l ∈ (s.vertex w.vertex).links) (count : Nat) :
    s.WayHolds q ⟨l.below, l.node :: w.parts, count⟩ := by
  obtain ⟨hb, hl⟩ := h.links w.vertex hw.1 l hl
  exact ⟨hb, AreOrdered.append_iff.2 ⟨_, hl, hw.2⟩⟩

theorem IsOrdered.descend (h : s.IsOrdered o) (count : Nat) (ways : List Way)
    {todo long kept split : List Way}
    (htodo : ∀ w ∈ todo, s.WayHolds q w) (hlong : ∀ w ∈ long, s.WayHolds q w)
    (hkept : ∀ w ∈ kept, s.WayHolds q w) (hsplit : ∀ w ∈ split, s.WayHolds q w) :
    (∀ w ∈ (s.descend count ways todo long kept split).1, s.WayHolds q w) ∧
      ∀ w ∈ (s.descend count ways todo long kept split).2, s.WayHolds q w := by
  induction todo generalizing long kept split with
  | nil =>
    refine ⟨fun w hw => hlong w (List.mem_reverse.1 hw), fun w hw => ?_⟩
    rcases List.mem_append.1 hw with hw | hw
    · exact hkept w (List.mem_reverse.1 hw)
    · exact hsplit w hw
  | cons w todo ih =>
    obtain ⟨hw, htodo⟩ := List.forall_mem_cons.1 htodo
    unfold Stack.descend
    split
    · exact ih htodo (List.forall_mem_cons.2 ⟨hw, hlong⟩) hkept hsplit
    · dsimp only
      split
      · exact ih htodo hlong hkept hsplit
      · next l ls hlinks =>
        have hstep : ∀ m ∈ l :: ls, ∀ count, s.WayHolds q ⟨m.below, m.node :: w.parts, count⟩ :=
          fun m hm count => h.step hw (hlinks ▸ hm) count
        refine ih htodo hlong ?_ ?_
        · exact List.forall_mem_cons.2 ⟨hstep l List.mem_cons_self _, hkept⟩
        · intro u hu
          rcases List.mem_append.1 hu with hu | hu
          · exact hsplit u hu
          · obtain ⟨m, hm, rfl⟩ := List.mem_map.1 hu
            exact hstep m (List.mem_cons_of_mem _ (List.mem_of_mem_take hm)) _

theorem IsOrdered.waysDown (h : s.IsOrdered o) {count fuel : Nat} {ways : List Way}
    (hways : ∀ w ∈ ways, s.WayHolds q w) : ∀ w ∈ s.waysDown count fuel ways, s.WayHolds q w := by
  induction fuel generalizing ways with
  | zero => simp [Stack.waysDown]
  | succ fuel ih =>
    cases ways with
    | nil => simp [Stack.waysDown]
    | cons w ways =>
      obtain ⟨hlong, hmore⟩ := h.descend count (w :: ways) hways (List.forall_mem_nil _)
        (List.forall_mem_nil _) (List.forall_mem_nil _)
      intro u hu
      simp only [Stack.waysDown] at hu
      rcases List.mem_append.1 hu with hu | hu
      · exact hlong u hu
      · exact ih hmore u hu

/-- The parts on the ways down from a vertex follow each other. -/
theorem IsOrdered.pop (h : s.IsOrdered o) (hv : v < s.size) (count : Nat) :
    ∀ g ∈ s.pop v count, g.1 < s.size ∧
      ∀ parts ∈ g.2, AreOrdered (s.vertex g.1).place (s.vertex v).place parts := by
  have hways : ∀ w ∈ s.waysDown count (s.size + 1) [⟨v, [], 0⟩],
      s.WayHolds (s.vertex v).place w := by
    refine h.waysDown fun w hw => ?_
    obtain rfl := List.mem_singleton.1 hw
    exact ⟨hv, .nil (.refl _)⟩
  unfold Stack.pop
  -- The groups that are there keep to the order when a way is added to them.
  refine List.foldlRecOn (motive := fun groups : List (Nat × List (List Node)) =>
    ∀ g ∈ groups, g.1 < s.size ∧
      ∀ parts ∈ g.2, AreOrdered (s.vertex g.1).place (s.vertex v).place parts)
    _ _ (List.forall_mem_nil _) fun groups hgroups w hw g hg => ?_
  obtain ⟨hlt, hw⟩ := hways w hw
  dsimp only at hg
  split at hg
  · obtain ⟨g', hg', rfl⟩ := List.mem_map.1 hg
    obtain ⟨hlt', hparts⟩ := hgroups g' hg'
    refine ⟨hlt', fun parts hp => ?_⟩
    dsimp only at hp
    split at hp
    · next heq =>
      rcases List.mem_append.1 hp with hp | hp
      · exact hparts parts hp
      · obtain rfl := List.mem_singleton.1 hp
        have heq : g'.1 = w.vertex := by simpa using heq
        rw [heq]
        exact hw
    · exact hparts parts hp
  · rcases List.mem_append.1 hg with hg | hg
    · exact hgroups g hg
    · obtain rfl := List.mem_singleton.1 hg
      refine ⟨hlt, fun parts hp => ?_⟩
      obtain rfl := List.mem_singleton.1 hp
      exact hw

theorem IsOrdered.allParts (h : s.IsOrdered o) (fuel : Nat) (hv : v < s.size) {parts : List Node}
    (hparts : AreOrdered (s.vertex v).place q parts) :
    ∃ a, AreOrdered a q (s.allParts fuel v parts) := by
  induction fuel generalizing v parts with
  | zero => exact ⟨_, hparts⟩
  | succ fuel ih =>
    unfold Stack.allParts
    split
    · exact ⟨_, hparts⟩
    · next l ls hlinks =>
      obtain ⟨hb, hl⟩ := h.links v hv l (hlinks ▸ List.mem_cons_self)
      exact ih hb (AreOrdered.append_iff.2 ⟨_, hl, hparts⟩)

end Stack
end FlowPipeline.Script
