import FlowPipeline.Proofs.Results
import FlowPipeline.TypeDefinitions

/-! # Errors of values

An integer of too many digits cannot be written, and a mapping that contains itself has no end of
fields. Nothing else goes wrong where a text or fields are made of a value, and it goes wrong only
if the value holds such an integer or such a mapping.
-/

namespace FlowPipeline

theorem Mapping.mem_of_find? {m : Mapping} {name : String} {v : Value} (h : find? name m = some v) :
    (.text name, v) ∈ m := by
  induction m with
  | nil => cases h
  | cons kv m ih =>
    rw [find?] at h
    split_ifs at h with hk
    · cases h
      exact hk ▸ List.mem_cons_self
    · exact List.mem_cons_of_mem _ (ih h)

/-! ## What a value causes -/

namespace Value

mutual

/-- Whether no collection in the value contains itself. -/
def isAcyclic : Value → Bool
  | .scalar _ => true
  | .list items => allAcyclic items
  | .tuple items => allAcyclic items
  | .set _ => true
  | .map entries => allAcyclicEntries entries
  | .cyclic _ _ => false
  | .again _ _ => false

def allAcyclic : List Value → Bool
  | [] => true
  | v :: vs => isAcyclic v && allAcyclic vs

def allAcyclicEntries : List (Scalar × Value) → Bool
  | [] => true
  | (_, v) :: es => isAcyclic v && allAcyclicEntries es

end

/-- The least integer that has too many digits. -/
def tooLong : Value := .scalar (.int (.ofNat (Nat.pow 10 LongInteger.limit)))

/-- The errors that a value can cause where a text or fields are made of it. -/
inductive Causes (v : Value) : ManifestError → Prop where
  | long (h : v.hasLong = true) : Causes v .long
  | endless (h : v.isAcyclic = false) : Causes v .endless

theorem anyLong_iff {vs : List Value} : anyLong vs = true ↔ ∃ v ∈ vs, v.hasLong = true := by
  induction vs with
  | nil => simp [anyLong]
  | cons v vs ih => simp [anyLong, ih]

theorem anyLongEntry_iff {es : Mapping} :
    anyLongEntry es = true ↔ ∃ kv ∈ es, kv.1.isLong = true ∨ kv.2.hasLong = true := by
  induction es with
  | nil => simp [anyLongEntry]
  | cons kv es ih => simp [anyLongEntry, ih]

theorem allAcyclicEntries_eq_false_iff {es : Mapping} :
    allAcyclicEntries es = false ↔ ∃ kv ∈ es, kv.2.isAcyclic = false := by
  induction es with
  | nil => simp [allAcyclicEntries]
  | cons kv es ih => cases h : kv.2.isAcyclic <;> simp [allAcyclicEntries, ih, h]

mutual

theorem hasLong_close {n : Nat} {whole v : Value} (h : (close n whole v).hasLong = true) :
    whole.hasLong = true ∨ v.hasLong = true := by
  match v with
  | .scalar _ => exact .inr h
  | .set _ => exact .inr h
  | .list items => exact anyLong_closeItems (n := n) h
  | .tuple items => exact anyLong_closeItems (n := n) h
  | .map entries => exact anyLongEntry_closeEntries (n := n) h
  | .cyclic m v =>
    rw [close] at h
    split_ifs at h
    · exact .inr h
    · exact hasLong_close (v := v) h
  | .again m isMap =>
    rw [close] at h
    split_ifs at h
    · exact .inl h
    · exact .inr h

theorem anyLong_closeItems {n : Nat} {whole : Value} {vs : List Value}
    (h : anyLong (closeItems n whole vs) = true) : whole.hasLong = true ∨ anyLong vs = true := by
  match vs with
  | [] => exact .inr h
  | v :: vs =>
    simp only [closeItems, anyLong, Bool.or_eq_true] at h ⊢
    rcases h with h | h
    · exact (hasLong_close h).imp_right .inl
    · exact (anyLong_closeItems h).imp_right .inr

theorem anyLongEntry_closeEntries {n : Nat} {whole : Value} {es : List (Scalar × Value)}
    (h : anyLongEntry (closeEntries n whole es) = true) :
    whole.hasLong = true ∨ anyLongEntry es = true := by
  match es with
  | [] => exact .inr h
  | (k, v) :: es =>
    simp only [closeEntries, anyLongEntry, Bool.or_eq_true] at h ⊢
    rcases h with (h | h) | h
    · exact .inr (.inl (.inl h))
    · exact (hasLong_close h).imp_right fun h => .inl (.inr h)
    · exact (anyLongEntry_closeEntries h).imp_right .inr

end

theorem hasLong_within {around : List (Nat × Value)} {v : Value}
    (h : (v.within around).hasLong = true) :
    v.hasLong = true ∨ ∃ w ∈ around, w.2.hasLong = true := by
  induction around generalizing v with
  | nil => exact .inl h
  | cons w around ih =>
    rcases ih h with h | ⟨w', hw', h⟩
    · rcases hasLong_close h with h | h
      · exact .inr ⟨w, List.mem_cons_self, h⟩
      · exact .inl h
    · exact .inr ⟨w', List.mem_cons_of_mem _ hw', h⟩

theorem failsOnly_written (v : Value) :
    FailsOnly (fun e => e = .long ∧ v.hasLong = true) v.written := by
  intro e he
  unfold written at he
  split_ifs at he with h
  cases he
  exact ⟨rfl, h⟩

theorem written_causes (v : Value) : FailsOnly v.Causes v.written :=
  (failsOnly_written v).mono fun _ h => h.1 ▸ .long h.2

/-! ## Parts of values -/

theorem hasLong_of_mem_items {v w : Value} {items : List Value} (hv : v.items? = some items) (hw : w ∈ items)
    (h : w.hasLong = true) : v.hasLong = true := by
  have hitems : anyLong items = true := anyLong_iff.2 ⟨w, hw, h⟩
  unfold items? at hv
  split at hv
  · cases hv
    exact hitems
  · cases hv
    exact hitems
  · cases hv
    exact (anyLong_closeItems hitems).elim id id
  · cases hv
    exact (anyLong_closeItems hitems).elim id id
  · cases hv

namespace Causes

variable {v w : Value} {k : Scalar} {m : Mapping} {e : ManifestError}

theorem not_text {s : String} : ¬ (text s).Causes e := by
  rintro (⟨⟨⟩⟩ | ⟨⟨⟩⟩)

theorem not_empty : ¬ (map []).Causes e := by
  rintro (⟨⟨⟩⟩ | ⟨⟨⟩⟩)

theorem of_mapping? (hv : v.mapping? = some m) (h : (map m).Causes e) : v.Causes e := by
  unfold mapping? at hv
  split at hv
  · cases hv
    exact h
  · cases hv
    cases h with
    | long h => exact .long ((anyLongEntry_closeEntries h).elim id id)
    | endless _ => exact .endless rfl
  · cases hv

theorem of_mapping?_getD (h : (map (v.mapping?.getD [])).Causes e) : v.Causes e := by
  rcases hv : v.mapping? with _ | m
  · rw [hv] at h
    exact absurd h not_empty
  · rw [hv] at h
    exact of_mapping? hv h

theorem of_mem (hm : (k, v) ∈ m) (h : v.Causes e) : (map m).Causes e := by
  cases h with
  | long h => exact .long (anyLongEntry_iff.2 ⟨_, hm, .inr h⟩)
  | endless h => exact .endless (allAcyclicEntries_eq_false_iff.2 ⟨_, hm, h⟩)

theorem of_sublist {m' : Mapping} (hm : m'.Sublist m) (h : (map m').Causes e) :
    (map m).Causes e := by
  cases h with
  | long h =>
    obtain ⟨kv, hkv, h⟩ := anyLongEntry_iff.1 h
    exact .long (anyLongEntry_iff.2 ⟨kv, hm.subset hkv, h⟩)
  | endless h =>
    obtain ⟨kv, hkv, h⟩ := allAcyclicEntries_eq_false_iff.1 h
    exact .endless (allAcyclicEntries_eq_false_iff.2 ⟨kv, hm.subset hkv, h⟩)

theorem of_tail {kv : Scalar × Value} (h : (map m).Causes e) : (map (kv :: m)).Causes e :=
  of_sublist (List.sublist_cons_self kv m) h

theorem of_find? {name : String} (hv : Mapping.find? name m = some v) (h : v.Causes e) :
    (map m).Causes e :=
  of_mem (Mapping.mem_of_find? hv) h

theorem of_get {name : String} (h : (Mapping.get name m).Causes e) : (map m).Causes e := by
  rcases hv : Mapping.find? name m with _ | v
  · rw [Mapping.get, hv] at h
    cases h with
    | long h => cases h
    | endless h => cases h
  · rw [Mapping.get, hv] at h
    exact of_find? hv h

theorem of_orElse (h : (v.orElse w).Causes e) : v.Causes e ∨ w.Causes e := by
  unfold orElse at h
  split_ifs at h
  · exact .inl h
  · exact .inr h

end Causes

end Value

namespace Scalar

theorem failsOnly_written (k : Scalar) :
    FailsOnly (fun e => e = .long ∧ k.isLong = true) k.written := by
  intro e he
  unfold written at he
  split_ifs at he with h
  cases he
  exact ⟨rfl, h⟩

/-- A key that cannot be written is the fault of the mapping. -/
theorem written_causes {k : Scalar} {v : Value} {m : Mapping} (hm : (k, v) ∈ m) :
    FailsOnly (Value.map m).Causes k.written := by
  refine (failsOnly_written k).mono fun e h => ?_
  rw [h.1]
  exact .long (Value.anyLongEntry_iff.2 ⟨_, hm, .inl h.2⟩)

end Scalar

/-! ## Fields of fields -/

namespace Value

/-- The errors that a value can cause within collections that contain themselves. -/
def CausesWithin (around : List (Nat × Value)) (v : Value) (e : ManifestError) : Prop :=
  v.Causes e ∨ e = .long ∧ ∃ w ∈ around, w.2.hasLong = true

namespace CausesWithin

variable {around : List (Nat × Value)} {v : Value} {m : Mapping} {e : ManifestError}

@[simp] theorem nil_iff : CausesWithin [] v e ↔ v.Causes e := by simp [CausesWithin]

theorem of_long (h : (v.within around).hasLong = true) : CausesWithin around v .long := by
  rcases hasLong_within h with h | h
  · exact .inl (.long h)
  · exact .inr ⟨rfl, h⟩

/-- What lies in a collection that contains itself causes nothing but what the collection does. -/
theorem of_cyclic {n : Nat} (h : CausesWithin ((n, .cyclic n v) :: around) v e) :
    CausesWithin around (.cyclic n v) e := by
  rcases h with h | ⟨rfl, w, hw, h⟩
  · cases h with
    | long h => exact .inl (.long h)
    | endless _ => exact .inl (.endless rfl)
  · rcases List.mem_cons.1 hw with rfl | hw
    · exact .inl (.long h)
    · exact .inr ⟨rfl, w, hw, h⟩

theorem of_mem {k : Scalar} (hm : (k, v) ∈ m) (h : CausesWithin around v e) :
    CausesWithin around (.map m) e :=
  h.imp_left (Causes.of_mem hm)

theorem of_tail {kv : Scalar × Value} (h : CausesWithin around (.map m) e) :
    CausesWithin around (.map (kv :: m)) e :=
  h.imp_left Causes.of_tail

end CausesWithin

end Value

namespace Model
open Value

theorem failsOnly_plainField (around : List (Nat × Value)) (path : String) (v : Value) :
    FailsOnly (CausesWithin around v) (plainField path (v.within around)) := by
  refine .bind ?_ fun tag _ => .ok _
  unfold typeTag
  split
  · exact .ok _
  · exact .ok _
  · exact (failsOnly_written _).mono fun e he => he.1 ▸ .of_long he.2

theorem failsOnly_nestedField (around : List (Nat × Value)) (path : String) (v : Value) :
    FailsOnly (CausesWithin around v) (nestedField around path v) := by
  -- Inside of a collection that contains itself, an integer of its own comes back by reference.
  induction around, path, v using nestedField.induct
    (motive_2 := fun around path entries =>
      FailsOnly (CausesWithin around (.map entries)) (nestedFields around path entries)) with
  | case1 around path entries ih =>
    rw [nestedField]
    exact ih
  | case2 around path n entries ih =>
    rw [nestedField]
    exact ih.mono fun e he => .of_cyclic he
  | case3 around path n =>
    rw [nestedField]
    exact .error (.inl (.endless rfl))
  | case4 around path v hmap hcyclic hagain =>
    rw [nestedField]
    · exact .bind (failsOnly_plainField around path v) fun f _ => .ok _
    all_goals assumption
  | case5 around path =>
    rw [nestedFields]
    exact .ok []
  | case6 around path k v es ihv ihes =>
    rw [nestedFields]
    have hv : (k, v) ∈ (k, v) :: es := List.mem_cons_self
    have hkey : FailsOnly (CausesWithin around (.map ((k, v) :: es))) k.written :=
      (Scalar.written_causes hv).mono fun e he => .inl he
    refine .bind hkey fun key _ => .bind ((ihv key).mono fun e he => .of_mem hv he) fun own _ => ?_
    exact .bind (ihes.mono fun e he => .of_tail he) fun fs _ => .ok _

end Model

/-! ## Type definitions -/

namespace TypeDefinitions
open Value

theorem failsOnly_typeTag (around : List (Nat × Value)) (v : Value) :
    FailsOnly (CausesWithin around v) (typeTag (v.within around)) := by
  unfold typeTag
  split
  · exact .ok _
  · exact (failsOnly_written _).mono fun e he => he.1 ▸ .of_long he.2

theorem failsOnly_fieldType (around : List (Nat × Value)) (indent : String) (v : Value) :
    FailsOnly (CausesWithin around v) (fieldType around indent v) := by
  induction around, indent, v using fieldType.induct
    (motive_2 := fun around indent entries =>
      FailsOnly (CausesWithin around (.map entries)) (fieldLines around indent entries)) with
  | case1 around indent entries ih =>
    rw [fieldType]
    exact .map ih
  | case2 around indent n entries ih =>
    rw [fieldType]
    exact .map (ih.mono fun e he => .of_cyclic he)
  | case3 around indent n =>
    rw [fieldType]
    exact .error (.inl (.endless rfl))
  | case4 around indent v hmap hcyclic hagain =>
    rw [fieldType]
    · exact .map (failsOnly_typeTag around v)
    all_goals assumption
  | case5 around indent =>
    rw [fieldLines]
    exact .ok []
  | case6 around indent k v es ihv ihes =>
    rw [fieldLines]
    have hv : (k, v) ∈ (k, v) :: es := List.mem_cons_self
    have hkey : FailsOnly (CausesWithin around (.map ((k, v) :: es))) k.written :=
      (Scalar.written_causes hv).mono fun e he => .inl he
    refine .bind hkey fun key _ => .bind (ihv.mono fun e he => .of_mem hv he) fun type _ => ?_
    exact .bind (ihes.mono fun e he => .of_tail he) fun lines _ => .ok _

theorem fieldLines_causes (entries : Mapping) :
    FailsOnly (Value.map entries).Causes (fieldLines [] "  " entries) := by
  have h := failsOnly_fieldType [] "" (.map entries)
  rw [fieldType] at h
  exact (FailsOnly.of_map h).mono fun e he => CausesWithin.nil_iff.1 he

theorem interface_causes (model : String) (fields : Mapping) :
    FailsOnly (Value.map fields).Causes (interface model fields) := by
  rw [interface]
  refine .bind ((written_causes _).mono fun e he => ?_) fun named _ => ?_
  · rcases hv : Mapping.find? "__extends" fields with _ | v
    · rw [hv] at he
      exact absurd he Causes.not_text
    · rw [hv] at he
      exact .of_find? hv he
  · refine .bind ((fieldLines_causes _).mono fun e he => ?_) fun lines _ => .ok _
    exact .of_sublist List.filter_sublist he

/-- The interfaces fail only for the sake of a value in the models. -/
theorem interfaces_causes (models : Mapping) :
    FailsOnly (Value.map models).Causes (interfaces models) := by
  induction models with
  | nil => exact .ok []
  | cons kv models ih =>
    obtain ⟨k, v⟩ := kv
    have hv : (k, v) ∈ (k, v) :: models := List.mem_cons_self
    have hrest : FailsOnly (Value.map ((k, v) :: models)).Causes (interfaces models) :=
      ih.mono fun e he => .of_tail he
    rw [interfaces]
    refine .bind (Scalar.written_causes hv) fun name _ => ?_
    split_ifs
    · exact hrest
    · refine .bind ((interface_causes name _).mono fun e he => ?_) fun own _ =>
        .bind hrest fun others _ => .ok _
      exact .of_mem hv (.of_mapping?_getD he)

end TypeDefinitions
end FlowPipeline
