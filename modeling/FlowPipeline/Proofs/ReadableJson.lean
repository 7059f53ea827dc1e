import FlowPipeline.Proofs.JsonRoundTrip
import FlowPipeline.Proofs.Results
import FlowPipeline.Proofs.WrittenDurations
import Mathlib.Data.List.Nodup

/-! # JSON that has been read

Whatever has been read can be written and read again, unless it holds floats: its lists and objects
lie no deeper than the reader follows them, its integers have no more digits than it takes, and the
members of its objects have distinct names, as a member that is repeated takes the place of the
first.
-/

namespace FlowPipeline.Json

mutual

/-- Whether one of the numbers is not an integer. -/
def hasFloat : Json → Bool
  | .float _ => true
  | .list items => anyFloat items
  | .object members => anyFloatMember members
  | _ => false

def anyFloat : List Json → Bool
  | [] => false
  | j :: js => hasFloat j || anyFloat js

def anyFloatMember : List (List UInt16 × Json) → Bool
  | [] => false
  | (_, j) :: ms => hasFloat j || anyFloatMember ms

end

theorem anyFloat_eq_false {items : List Json} :
    anyFloat items = false ↔ ∀ j ∈ items, j.hasFloat = false := by
  induction items with
  | nil => exact ⟨fun _ => nofun, fun _ => rfl⟩
  | cons j items ih => rw [anyFloat, Bool.or_eq_false_iff, ih, List.forall_mem_cons]

theorem anyFloatMember_eq_false {members : List (List UInt16 × Json)} :
    anyFloatMember members = false ↔ ∀ m ∈ members, m.2.hasFloat = false := by
  induction members with
  | nil => exact ⟨fun _ => nofun, fun _ => rfl⟩
  | cons m members ih =>
    obtain ⟨k, j⟩ := m
    rw [anyFloatMember, Bool.or_eq_false_iff, ih, List.forall_mem_cons]

/-! ## Numbers and words -/

theorem isDigit_of_mem_wholeDigits {cs : List Char} : ∀ c ∈ wholeDigits cs, c.isDigit = true := by
  intro c hc
  unfold wholeDigits at hc
  split at hc
  · rw [List.mem_singleton.1 hc]
    rfl
  · exact List.mem_takeWhile_imp hc

theorem natOfDigits_map_lt {cs : List Char} (h : ∀ c ∈ cs, c.isDigit = true) :
    Text.natOfDigits (cs.map fun c => c.toNat - 48) < 10 ^ cs.length := by
  have hdigits : ∀ n ∈ cs.map (fun c => c.toNat - 48), n < 10 := by
    intro n hn
    obtain ⟨c, hc, rfl⟩ := List.mem_map.1 hn
    have hdigit := Char.isDigit_iff_toNat.1 (h c hc)
    have hnine : '9'.toNat = 57 := rfl
    omega
  simpa using Text.natOfDigits_lt hdigits

theorem lt_pow {n k l : Nat} (h : n < 10 ^ k) (hkl : k ≤ l) : n < Nat.pow 10 l :=
  h.trans_le (Nat.pow_le_pow_right (by decide) hkl)

theorem isLong_eq_false {i : Int} {k : Nat} (h : i.natAbs < 10 ^ k) (hk : k ≤ LongInteger.limit) :
    LongInteger.isLong i = false := by
  rw [LongInteger.isLong, decide_eq_false_iff_not, Nat.not_le]
  exact lt_pow h hk

/-- A value without parts; an integer among them is not too long. -/
inductive IsLeaf : Json → Prop where
  | null : IsLeaf .null
  | bool (b : Bool) : IsLeaf (.bool b)
  | int {i : Int} (h : LongInteger.isLong i = false) : IsLeaf (.int i)
  | float (x : Binary64) : IsLeaf (.float x)
  | text (us : List UInt16) : IsLeaf (.text us)

theorem IsLeaf.isReadable {j : Json} (h : IsLeaf j) (hj : j.hasFloat = false) (depth : Nat) :
    IsReadable depth j := by
  cases h with
  | null => exact .null
  | bool b => exact .bool b
  | int hi => exact .int hi
  | float x => cases hj
  | text us => exact .text us

theorem isLeaf_of_readNumber {cs r : List Char} {j : Json} (h : readNumber cs = .ok (j, r)) :
    IsLeaf j := by
  unfold readNumber at h
  extract_lets sign behindSign whole behind places fraction tail exponent rest at h
  have hdigits : ∀ c ∈ whole, c.isDigit = true := isDigit_of_mem_wholeDigits
  have hlt := natOfDigits_map_lt hdigits
  clear_value whole
  split_ifs at h with hnone hplain hlong hsign
  · cases h
  · cases h
  · obtain rfl := (Prod.mk.inj (Except.ok.inj h)).1
    exact .int (isLong_eq_false hlt (Nat.not_lt.1 hlong))
  · obtain rfl := (Prod.mk.inj (Except.ok.inj h)).1
    refine .int (isLong_eq_false ?_ (Nat.not_lt.1 hlong))
    rw [Int.natAbs_neg]
    exact hlt
  · split at h
    · obtain rfl := (Prod.mk.inj (Except.ok.inj h)).1
      exact .float _
    · cases h

theorem isLeaf_of_readConstant? {cs r : List Char} {j : Json}
    (h : readConstant? cs = some (j, r)) : IsLeaf j := by
  obtain ⟨⟨word, v⟩, hmem, hword⟩ := List.exists_of_findSome?_eq_some h
  simp only at hword
  split_ifs at hword
  cases hword
  simp only [constants, List.mem_cons, Prod.mk.injEq, List.not_mem_nil, or_false] at hmem
  rcases hmem with ⟨-, rfl⟩ | ⟨-, rfl⟩ | ⟨-, rfl⟩ | ⟨-, rfl⟩ | ⟨-, rfl⟩ | ⟨-, rfl⟩
  · exact .null
  · exact .bool true
  · exact .bool false
  all_goals exact .float _

/-- What starts neither a text nor a list nor an object is a word or a number. -/
theorem isLeaf_of_plain {cs r : List Char} {j : Json} (h : (match readConstant? cs with
    | some found => .ok found
    | none => readNumber cs) = Except.ok (j, r)) : IsLeaf j := by
  split at h
  · next hconstant =>
    cases h
    exact isLeaf_of_readConstant? hconstant
  · exact isLeaf_of_readNumber h

/-! ## Lists and objects -/

section

variable {value : List Char → Except Failure (Json × List Char)} {P : Json → Prop}

theorem readItems_eq_ok (hvalue : ∀ {cs j r}, value cs = .ok (j, r) → P j) {fuel : Nat}
    {cs r : List Char} {items : List Json} (h : readItems value fuel cs = .ok (items, r)) :
    ∀ j ∈ items, P j := by
  induction fuel generalizing cs items with
  | zero => cases h
  | succ fuel ih =>
    rw [readItems] at h
    obtain ⟨⟨j, r'⟩, hj, h⟩ := Except.eq_ok_of_bind h
    simp only at h
    split at h
    · cases h
      exact List.forall_mem_singleton.2 (hvalue hj)
    · obtain ⟨⟨js, r''⟩, hjs, h⟩ := Except.eq_ok_of_bind h
      cases h
      exact List.forall_mem_cons.2 ⟨hvalue hj, ih hjs⟩
    · cases h

/-- The members of an object have distinct names, and values with the property. -/
structure AreMembers (P : Json → Prop) (members : List (List UInt16 × Json)) : Prop where
  names : (members.map Prod.fst).Nodup
  values : ∀ m ∈ members, P m.2

theorem AreMembers.nil : AreMembers P [] := ⟨List.nodup_nil, nofun⟩

theorem mem_names_insertMember {k l : List UInt16} {j : Json}
    {members : List (List UInt16 × Json)} :
    l ∈ (insertMember k j members).map Prod.fst ↔ l = k ∨ l ∈ members.map Prod.fst := by
  induction members with
  | nil => simp [insertMember]
  | cons m members ih =>
    obtain ⟨l', w⟩ := m
    rw [insertMember]
    split_ifs with heq
    · subst heq
      simp
    · rw [List.map_cons, List.mem_cons, ih, List.map_cons, List.mem_cons, or_left_comm]

theorem AreMembers.insertMember {members : List (List UInt16 × Json)} (h : AreMembers P members)
    (k : List UInt16) {j : Json} (hj : P j) : AreMembers P (insertMember k j members) := by
  induction members with
  | nil => exact ⟨by simp [Json.insertMember], by simpa [Json.insertMember] using hj⟩
  | cons m members ih =>
    obtain ⟨l, w⟩ := m
    obtain ⟨hl, hnames⟩ := List.nodup_cons.1 h.names
    obtain ⟨hw, hvalues⟩ := List.forall_mem_cons.1 h.values
    rw [Json.insertMember]
    split_ifs with heq
    · exact ⟨h.names, List.forall_mem_cons.2 ⟨hj, hvalues⟩⟩
    · have hrest := ih ⟨hnames, hvalues⟩
      refine ⟨List.nodup_cons.2 ⟨fun hmem => ?_, hrest.names⟩,
        List.forall_mem_cons.2 ⟨hw, hrest.values⟩⟩
      exact (mem_names_insertMember.1 hmem).elim heq hl

theorem readMembers_eq_ok (hvalue : ∀ {cs j r}, value cs = .ok (j, r) → P j) {fuel : Nat}
    {read members : List (List UInt16 × Json)} {cs r : List Char} (hread : AreMembers P read)
    (h : readMembers value fuel read cs = .ok (members, r)) : AreMembers P members := by
  induction fuel generalizing cs read with
  | zero => cases h
  | succ fuel ih =>
    unfold readMembers at h
    split at h
    · obtain ⟨⟨k, r'⟩, -, h⟩ := Except.eq_ok_of_bind h
      simp only at h
      split at h
      · obtain ⟨⟨j, r''⟩, hj, h⟩ := Except.eq_ok_of_bind h
        simp only at h
        split at h
        · cases h
          exact hread.insertMember k (hvalue hj)
        · exact ih (hread.insertMember k (hvalue hj)) h
        · cases h
      · cases h
    · cases h

end

/-! ## Values -/

/-- What a value consists of: of nothing, or of parts that have the property. -/
inductive ConsistsOf (P : Json → Prop) : Json → Prop where
  | leaf {j : Json} (h : IsLeaf j) : ConsistsOf P j
  | list {items : List Json} (h : ∀ j ∈ items, P j) : ConsistsOf P (.list items)
  | object {members : List (List UInt16 × Json)} (h : AreMembers P members) :
    ConsistsOf P (.object members)

section

variable {P : Json → Prop} {depth : Nat} {cs r : List Char} {j : Json}

theorem isLeaf_of_readValue (h : readValue 0 cs = .ok (j, r)) : IsLeaf j := by
  unfold readValue at h
  split at h
  · obtain ⟨⟨us, r'⟩, -, h⟩ := Except.eq_ok_of_bind h
    cases h
    exact .text us
  · cases h
  · cases h
  · exact isLeaf_of_plain h

/-- The parts of a value are read with one list or object less around them. -/
theorem consistsOf_of_readValue
    (hvalue : ∀ {cs j r}, readValue depth cs = .ok (j, r) → P j)
    (h : readValue (depth + 1) cs = .ok (j, r)) : ConsistsOf P j := by
  unfold readValue at h
  split at h
  · obtain ⟨⟨us, r'⟩, -, h⟩ := Except.eq_ok_of_bind h
    cases h
    exact .leaf (.text us)
  · simp only at h
    split at h
    · cases h
    · cases h
      exact .object .nil
    · next hdepth _ =>
      cases hdepth
      obtain ⟨⟨members, r'⟩, hmembers, h⟩ := Except.eq_ok_of_bind h
      cases h
      exact .object (readMembers_eq_ok hvalue .nil hmembers)
  · simp only at h
    split at h
    · cases h
    · cases h
      exact .list fun _ hj => absurd hj List.not_mem_nil
    · next hdepth _ =>
      cases hdepth
      obtain ⟨⟨items, r'⟩, hitems, h⟩ := Except.eq_ok_of_bind h
      cases h
      exact .list (readItems_eq_ok hvalue hitems)
  · exact .leaf (isLeaf_of_plain h)

/-- A value that has been read, and holds no floats, can be written and read again. -/
theorem isReadable_of_readValue (h : readValue depth cs = .ok (j, r)) (hj : j.hasFloat = false) :
    IsReadable depth j := by
  induction depth generalizing cs j r with
  | zero => exact (isLeaf_of_readValue h).isReadable hj 0
  | succ depth ih =>
    cases consistsOf_of_readValue (P := fun j => j.hasFloat = false → IsReadable depth j)
      ih h with
    | leaf hleaf => exact hleaf.isReadable hj (depth + 1)
    | list hitems => exact .list fun j hmem => hitems j hmem (anyFloat_eq_false.1 hj j hmem)
    | object hmembers =>
      exact .object hmembers.names fun m hm =>
        hmembers.values m hm (anyFloatMember_eq_false.1 hj m hm)

/-- The members of an object that has been read have distinct names. -/
theorem areMembers_of_readValue {members : List (List UInt16 × Json)}
    (h : readValue (depth + 1) cs = .ok (.object members, r)) :
    AreMembers (fun j => j.hasFloat = false → IsReadable depth j) members := by
  cases consistsOf_of_readValue isReadable_of_readValue h with
  | leaf hleaf => cases hleaf
  | object hmembers => exact hmembers

end

theorem areMembers_of_read {text : List Char} {members : List (List UInt16 × Json)}
    (h : read text = .ok (.object members)) :
    AreMembers (fun j => j.hasFloat = false → IsReadable (deepest - 1) j) members := by
  unfold read at h
  split_ifs at h
  · cases h
  · obtain ⟨⟨j, r⟩, hvalue, h⟩ := Except.eq_ok_of_bind h
    simp only at h
    split at h
    · cases h
      have hvalue : readValue (deepest - 1 + 1) (skipSpace text) = .ok (.object members, r) :=
        hvalue
      exact areMembers_of_readValue hvalue
    · cases h

end FlowPipeline.Json
