import FlowPipeline.Proofs.ReadableJson
import FlowPipeline.Proofs.Utf16RoundTrip
import Mathlib.Data.List.Sort

/-! # JSON in the order of names

The members of every object are put in the order of their names, at all depths. What has been read
comes out the same exactly if it is the same but for the order of members: names are distinct, and
two names that are in order both ways are one.
-/

namespace FlowPipeline

/-! ## The order of names -/

namespace Text.Utf16

/-- The units of a code point. -/
def unitsOf (n : Nat) : List UInt16 :=
  if n < 0x10000 then [.ofNat n]
  else [.ofNat (0xD800 + (n - 0x10000) / 0x400), .ofNat (0xDC00 + (n - 0x10000) % 0x400)]

theorem unitsOf_toNat (u : UInt16) : unitsOf u.toNat = [u] := by
  rw [unitsOf, if_pos u.toNat_lt, UInt16.ofNat_toNat]

theorem unitsOf_pair {u v : UInt16} (hu : isHigh u = true) (hv : isLow v = true) :
    unitsOf (0x10000 + (u.toNat - 0xD800) * 0x400 + (v.toNat - 0xDC00)) = [u, v] := by
  rw [isHigh_iff] at hu
  rw [isLow_iff] at hv
  have hhigh : 0xD800 + (0x10000 + (u.toNat - 0xD800) * 0x400 + (v.toNat - 0xDC00) - 0x10000) /
      0x400 = u.toNat := by omega
  have hlow : 0xDC00 + (0x10000 + (u.toNat - 0xD800) * 0x400 + (v.toNat - 0xDC00) - 0x10000) %
      0x400 = v.toNat := by omega
  rw [unitsOf, if_neg (by omega), hhigh, hlow, UInt16.ofNat_toNat, UInt16.ofNat_toNat]

theorem flatMap_points (us : List UInt16) : (points us).flatMap unitsOf = us := by
  induction us using points.induct with
  | case1 => rfl
  | case2 u => rw [points, List.flatMap_singleton, unitsOf_toNat]
  | case3 u v r h ih =>
    rw [Bool.and_eq_true] at h
    rw [points_pair h.1 h.2, List.flatMap_cons, unitsOf_pair h.1 h.2, ih]
    rfl
  | case4 u v r h ih =>
    rw [points, if_neg h, List.flatMap_cons, unitsOf_toNat, ih]
    rfl

theorem go_nil (ys : List Nat) : le.go [] ys = true := by rw [le.go]

theorem go_cons {x y : Nat} {xs ys : List Nat} :
    le.go (x :: xs) (y :: ys) = true ↔ x < y ∨ x = y ∧ le.go xs ys = true := by
  simp [le.go]

theorem go_total (xs ys : List Nat) : le.go xs ys = true ∨ le.go ys xs = true := by
  induction xs generalizing ys with
  | nil => exact .inl (go_nil ys)
  | cons x xs ih =>
    cases ys with
    | nil => exact .inr (go_nil _)
    | cons y ys =>
      rw [go_cons, go_cons]
      rcases Nat.lt_trichotomy x y with hlt | rfl | hlt
      · exact .inl (.inl hlt)
      · exact (ih ys).imp (.inr ⟨rfl, ·⟩) (.inr ⟨rfl, ·⟩)
      · exact .inr (.inl hlt)

theorem go_trans {xs ys zs : List Nat} (hxy : le.go xs ys = true) (hyz : le.go ys zs = true) :
    le.go xs zs = true := by
  induction xs generalizing ys zs with
  | nil => exact go_nil zs
  | cons x xs ih =>
    cases ys with
    | nil => cases hxy
    | cons y ys =>
      cases zs with
      | nil => cases hyz
      | cons z zs =>
        rw [go_cons] at *
        rcases hxy with hxy | ⟨rfl, hxy⟩
        · exact .inl (hyz.elim hxy.trans fun hyz => hyz.1 ▸ hxy)
        · exact hyz.imp_right fun hyz => ⟨hyz.1, ih hxy hyz.2⟩

theorem go_antisymm {xs ys : List Nat} (hxy : le.go xs ys = true) (hyx : le.go ys xs = true) :
    xs = ys := by
  induction xs generalizing ys with
  | nil =>
    cases ys with
    | nil => rfl
    | cons y ys => cases hyx
  | cons x xs ih =>
    cases ys with
    | nil => cases hxy
    | cons y ys =>
      rw [go_cons] at hxy hyx
      obtain rfl : x = y := by omega
      rw [ih (by simpa using hxy) (by simpa using hyx)]

/-- Names are ordered by their code points, and these tell the names. -/
theorem le_antisymm {a b : List UInt16} (hab : le a b = true) (hba : le b a = true) : a = b := by
  have hpoints : points a = points b := go_antisymm hab hba
  rw [← flatMap_points a, hpoints, flatMap_points]

end Text.Utf16

namespace Json

/-! ## Objects in the order of their names -/

theorem sortedItems_eq (items : List Json) : sortedItems items = items.map sorted := by
  induction items with
  | nil => rfl
  | cons j items ih => rw [sortedItems, ih, List.map_cons]

theorem sortedMembers_eq (members : List (List UInt16 × Json)) :
    sortedMembers members = members.map fun m => (m.1, m.2.sorted) := by
  induction members with
  | nil => rfl
  | cons m members ih =>
    obtain ⟨k, j⟩ := m
    rw [sortedMembers, ih, List.map_cons]

/-- The members in the order of their names. -/
def inOrder (members : List (List UInt16 × Json)) : List (List UInt16 × Json) :=
  members.mergeSort fun a b => Text.Utf16.le a.1 b.1

theorem sorted_list (items : List Json) : (Json.list items).sorted = .list (items.map sorted) := by
  rw [sorted, sortedItems_eq]

theorem sorted_object (members : List (List UInt16 × Json)) :
    (Json.object members).sorted = .object (inOrder (members.map fun m => (m.1, m.2.sorted))) := by
  rw [sorted, sortedMembers_eq, inOrder]

section

variable {members members' : List (List UInt16 × Json)}

theorem inOrder_perm (members : List (List UInt16 × Json)) : (inOrder members).Perm members :=
  List.mergeSort_perm _ _

theorem pairwise_inOrder (members : List (List UInt16 × Json)) :
    (inOrder members).Pairwise fun a b => Text.Utf16.le a.1 b.1 = true := by
  refine List.pairwise_mergeSort (fun a b c hab hbc => ?_) (fun a b => ?_) members
  · exact Text.Utf16.go_trans hab hbc
  · exact (Bool.or_eq_true _ _).mpr (Text.Utf16.go_total _ _)

/-- Members with distinct names have one order only. -/
theorem inOrder_eq_of_perm (hnames : (members.map Prod.fst).Nodup) (h : members.Perm members') :
    inOrder members = inOrder members' := by
  have hperm : (inOrder members).Perm (inOrder members') :=
    ((inOrder_perm members).trans h).trans (inOrder_perm members').symm
  refine hperm.eq_of_pairwise (fun a b ha hb hab hba => ?_) (pairwise_inOrder members)
    (pairwise_inOrder members')
  exact List.inj_on_of_nodup_map hnames ((inOrder_perm members).mem_iff.1 ha)
    (h.mem_iff.2 ((inOrder_perm members').mem_iff.1 hb)) (Text.Utf16.le_antisymm hab hba)

theorem map_fst_map_sorted (members : List (List UInt16 × Json)) :
    (members.map fun m => (m.1, m.2.sorted)).map Prod.fst = members.map Prod.fst := by
  rw [List.map_map]
  rfl

end

theorem IsReadable.sorted {depth : Nat} {j : Json} (h : IsReadable depth j) :
    IsReadable depth j.sorted := by
  induction h with
  | null => exact .null
  | bool b => exact .bool b
  | int hi => exact .int hi
  | text us => exact .text us
  | list h ih =>
    rw [sorted_list]
    exact .list (List.forall_mem_map.2 ih)
  | @object depth members hnames h ih =>
    rw [sorted_object]
    have hperm := inOrder_perm (members.map fun m => (m.1, m.2.sorted))
    refine .object ?_ fun m hm => ?_
    · rw [(hperm.map Prod.fst).nodup_iff, map_fst_map_sorted]
      exact hnames
    · obtain ⟨n, hn, rfl⟩ := List.mem_map.1 (hperm.mem_iff.1 hm)
      exact ih n hn

/-- What is in order stays as it is. -/
theorem sorted_sorted {depth : Nat} {j : Json} (h : IsReadable depth j) :
    j.sorted.sorted = j.sorted := by
  induction h with
  | null => rfl
  | bool b => rfl
  | int hi => rfl
  | text us => rfl
  | @list depth items h ih =>
    rw [sorted_list, sorted_list, List.map_map]
    exact congrArg Json.list (List.map_congr_left ih)
  | @object depth members hnames h ih =>
    set sortedOnce := inOrder (members.map fun m => (m.1, m.2.sorted)) with hdef
    have hsame : sortedOnce.map (fun m => (m.1, m.2.sorted)) = sortedOnce := by
      refine (List.map_congr_left fun m hm => ?_).trans (List.map_id _)
      obtain ⟨n, hn, rfl⟩ := List.mem_map.1 ((inOrder_perm _).mem_iff.1 hm)
      exact congrArg (Prod.mk n.1) (ih n hn)
    rw [sorted_object, ← hdef, sorted_object, hsame, inOrder,
      List.mergeSort_of_pairwise (pairwise_inOrder _)]

/-! ## Values that are the same -/

/-- Whether two values without parts are the same. -/
def sameLeaf : Json → Json → Bool
  | .null, .null => true
  | .bool b, .bool b' => b == b'
  | .int i, .int i' => i == i'
  | .float x, .float x' => decide (x = x')
  | .text us, .text us' => us == us'
  | _, _ => false

mutual

/-- Whether two values are equal if those without parts are compared in some way. Items are compared
in their order, and members by their names. -/
def equal (leaf : Json → Json → Bool) : Json → Json → Bool
  | .list items, .list items' => equalItems leaf items items'
  | .object members, .object members' =>
    members.length == members'.length && equalMembers leaf members members'
  | j, j' => leaf j j'

def equalItems (leaf : Json → Json → Bool) : List Json → List Json → Bool
  | [], [] => true
  | j :: js, j' :: js' => equal leaf j j' && equalItems leaf js js'
  | _, _ => false

/-- Whether each of the members has a counterpart. -/
def equalMembers (leaf : Json → Json → Bool) :
    List (List UInt16 × Json) → List (List UInt16 × Json) → Bool
  | [], _ => true
  | (k, j) :: ms, ms' =>
    (ms'.any fun m => m.1 == k && equal leaf j m.2) && equalMembers leaf ms ms'

end

/-- The values are equal, whatever the order of the members of their objects. -/
def Same (j j' : Json) : Prop := equal sameLeaf j j' = true

instance (j j' : Json) : Decidable (Same j j') := inferInstanceAs (Decidable (_ = true))

/-- A truth value as the number that it counts as. -/
def counted : Json → Json
  | .bool b => .int (if b then 1 else 0)
  | j => j

/-- The values are the same if truth values count as numbers. -/
def Counts (j j' : Json) : Prop :=
  equal (fun j j' => sameLeaf (counted j) (counted j')) j j' = true

instance (j j' : Json) : Decidable (Counts j j') := inferInstanceAs (Decidable (_ = true))

theorem equalMembers_iff {leaf : Json → Json → Bool}
    {members members' : List (List UInt16 × Json)} :
    equalMembers leaf members members' = true ↔
      ∀ m ∈ members, ∃ m' ∈ members', m'.1 = m.1 ∧ equal leaf m.2 m'.2 = true := by
  induction members with
  | nil => exact ⟨fun _ => nofun, fun _ => by rw [equalMembers]⟩
  | cons m members ih =>
    obtain ⟨k, j⟩ := m
    rw [equalMembers, Bool.and_eq_true, ih, List.forall_mem_cons, List.any_eq_true]
    simp only [Bool.and_eq_true, beq_iff_eq]

theorem same_list {items items' : List Json} :
    Same (.list items) (.list items') ↔ List.Forall₂ Same items items' := by
  unfold Same
  rw [equal]
  induction items generalizing items' with
  | nil => cases items' <;> simp [equalItems]
  | cons j items ih => cases items' <;> simp [equalItems, ih]

theorem same_object {members members' : List (List UInt16 × Json)} :
    Same (.object members) (.object members') ↔ members.length = members'.length ∧
      ∀ m ∈ members, ∃ m' ∈ members', m'.1 = m.1 ∧ Same m.2 m'.2 := by
  unfold Same
  rw [equal, Bool.and_eq_true, beq_iff_eq, equalMembers_iff]

section

variable {j j' : Json}

theorem eq_of_sameLeaf (h : sameLeaf j j' = true) : j = j' := by
  cases j <;> cases j' <;> simp_all [sameLeaf]

theorem IsLeaf.same_iff_sameLeaf (h : IsLeaf j) : Same j j' ↔ sameLeaf j j' = true := by
  have hlist (items : List Json) : j ≠ .list items := by
    rintro rfl
    cases h
  have hobject (members : List (List UInt16 × Json)) : j ≠ .object members := by
    rintro rfl
    cases h
  unfold Same
  rw [equal.eq_3 _ _ _ (fun items _ hj _ => hlist items hj) fun members _ hj _ =>
    hobject members hj]

/-- What has no parts is the same as nothing else, in order or not. -/
theorem IsLeaf.same_iff (h : IsLeaf j) : Same j j' ↔ j.sorted = j'.sorted := by
  have hself : sameLeaf j j = true := by cases h <;> simp [sameLeaf]
  have hsorted : j.sorted = j := by cases h <;> rfl
  rw [h.same_iff_sameLeaf, hsorted]
  refine ⟨fun hsame => ?_, fun heq => ?_⟩
  · rw [← eq_of_sameLeaf hsame, hsorted]
  · cases j' with
    | list items =>
      rw [heq, sorted_list] at h
      cases h
    | object members =>
      rw [heq, sorted_object] at h
      cases h
    | _ => exact heq ▸ hself

theorem same_list_iff {items items' : List Json}
    (h : ∀ j ∈ items, ∀ {j'}, Same j j' ↔ j.sorted = j'.sorted) :
    Same (.list items) (.list items') ↔ (Json.list items).sorted = (Json.list items').sorted := by
  rw [same_list, sorted_list, sorted_list, Json.list.injEq]
  induction items generalizing items' with
  | nil => cases items' <;> simp
  | cons j items ih =>
    cases items' with
    | nil => simp
    | cons j' items' =>
      obtain ⟨hj, hitems⟩ := List.forall_mem_cons.1 h
      rw [List.forall₂_cons, hj, ih hitems, List.map_cons, List.map_cons, List.cons.injEq]

theorem same_object_iff {members members' : List (List UInt16 × Json)}
    (hnames : (members.map Prod.fst).Nodup)
    (h : ∀ m ∈ members, ∀ {j'}, Same m.2 j' ↔ m.2.sorted = j'.sorted) :
    Same (.object members) (.object members') ↔
      (Json.object members).sorted = (Json.object members').sorted := by
  rw [same_object, sorted_object, sorted_object, Json.object.injEq]
  refine ⟨fun ⟨hlength, hmembers⟩ => ?_, fun heq => ⟨?_, fun m hm => ?_⟩⟩
  · -- As the names are distinct, no two members have the same counterpart.
    rw [← map_fst_map_sorted] at hnames
    have hsubset : members.map (fun m => (m.1, m.2.sorted)) ⊆
        members'.map fun m => (m.1, m.2.sorted) := by
      intro n hn
      obtain ⟨m, hm, rfl⟩ := List.mem_map.1 hn
      obtain ⟨m', hm', hname, hsame⟩ := hmembers m hm
      exact List.mem_map.2 ⟨m', hm', Prod.ext hname ((h m hm).1 hsame).symm⟩
    exact inOrder_eq_of_perm hnames
      ((List.subperm_of_subset (.of_map _ hnames) hsubset).perm_of_length_le (by simp [hlength]))
  · have hlength := congrArg List.length heq
    rw [(inOrder_perm _).length_eq, (inOrder_perm _).length_eq] at hlength
    simpa using hlength
  · have hmem : (m.1, m.2.sorted) ∈ inOrder (members'.map fun m => (m.1, m.2.sorted)) :=
      heq ▸ (inOrder_perm _).mem_iff.2 (List.mem_map_of_mem hm)
    obtain ⟨m', hm', heq'⟩ := List.mem_map.1 ((inOrder_perm _).mem_iff.1 hmem)
    obtain ⟨hname, hsorted⟩ := Prod.mk.inj heq'
    exact ⟨m', hm', hname, (h m hm).2 hsorted.symm⟩

/-- Readable values are the same exactly if they are when all members are in order. -/
theorem same_iff {depth : Nat} (h : IsReadable depth j) : Same j j' ↔ j.sorted = j'.sorted := by
  induction h generalizing j' with
  | null => exact IsLeaf.null.same_iff
  | bool b => exact (IsLeaf.bool b).same_iff
  | int hi => exact (IsLeaf.int hi).same_iff
  | text us => exact (IsLeaf.text us).same_iff
  | list h ih =>
    cases j' with
    | list items' => exact same_list_iff ih
    | object members' =>
      rw [sorted_list, sorted_object]
      exact ⟨nofun, nofun⟩
    | _ =>
      rw [sorted_list]
      exact ⟨nofun, nofun⟩
  | object hnames h ih =>
    cases j' with
    | list items' =>
      rw [sorted_list, sorted_object]
      exact ⟨nofun, nofun⟩
    | object members' => exact same_object_iff hnames ih
    | _ =>
      rw [sorted_object]
      exact ⟨nofun, nofun⟩

theorem same_sorted {depth : Nat} (h : IsReadable depth j) : Same j.sorted j :=
  (same_iff h.sorted).2 (sorted_sorted h)

end

end Json

end FlowPipeline
