import FlowPipeline.Proofs.ModelExtension

/-! # The leaves of models

A model is read twice: as the list of its fields, with paths for names, and as the lines of its
interface, with a literal for each mapping inside. Both give a type to the leaves of the model,
which are the values that are no mappings. The two types are the same but for truth values, which an
interface has in capitals.
-/

namespace FlowPipeline

/-- A result that needs texts of values, where `long` says whether an integer of too many digits is
among them. -/
def unlessLong {α : Type} (long : Bool) (a : α) : Except ManifestError α :=
  if long then .error .long else .ok a

section

variable {α β : Type}

theorem unlessLong_eq_ok_iff {long : Bool} {a b : α} :
    unlessLong long a = .ok b ↔ long = false ∧ a = b := by
  cases long <;> simp [unlessLong]

theorem unlessLong_bind (long long' : Bool) (a : α) (g : α → β) :
    (unlessLong long a >>= fun a => unlessLong long' (g a)) = unlessLong (long || long') (g a) := by
  cases long <;> rfl

theorem unlessLong_bind_pure (long : Bool) (a : α) (g : α → β) :
    (unlessLong long a >>= fun a => pure (g a)) = unlessLong long (g a) := by
  cases long <;> rfl

theorem unlessLong_map (long : Bool) (a : α) (g : α → β) :
    g <$> unlessLong long a = unlessLong long (g a) := by
  cases long <;> rfl

theorem Scalar.written_eq (k : Scalar) : k.written = unlessLong k.isLong k.shown := rfl

theorem Value.written_eq (v : Value) : v.written = unlessLong v.hasLong v.shown := rfl

end

/-- A value that is no mapping, with the keys that lead to it. -/
structure Leaf where
  keys : List String
  value : Value

namespace Leaf

/-- The leaf as it is seen from a mapping around it. -/
def under (key : String) (l : Leaf) : Leaf := ⟨key :: l.keys, l.value⟩

/-- The path of the leaf from a place that has a path itself. -/
def pathFrom (path : String) (l : Leaf) : String := Text.joined "." (path :: l.keys)

/-- The path of the leaf. -/
def path (l : Leaf) : String := Text.joined "." l.keys

theorem pathFrom_under (path key : String) (l : Leaf) :
    (l.under key).pathFrom path = l.pathFrom (path ++ "." ++ key) := by
  unfold pathFrom under Text.joined
  cases l.keys <;> simp [List.intercalate]

end Leaf

namespace Value

mutual

/-- The leaves of a value, in the order of the document. -/
def leaves : Value → List Leaf
  | .map entries => entryLeaves entries
  | v => [⟨[], v⟩]

def entryLeaves : List (Scalar × Value) → List Leaf
  | [] => []
  | (k, v) :: es => (leaves v).map (Leaf.under k.shown) ++ entryLeaves es

end

theorem isAcyclic_of_find? {m : Mapping} {name : String} {v : Value}
    (h : (Value.map m).isAcyclic = true) (hv : Mapping.find? name m = some v) :
    v.isAcyclic = true := by
  by_contra hcyclic
  cases Causes.of_find? hv (.endless (Bool.eq_false_iff.2 hcyclic)) with
  | endless hm => exact absurd h (by simp [hm])

end Value

/-! ## Fields -/

namespace Model
open Value

/-- The tag of a leaf that can be written. -/
def leafTag : Value → String
  | .scalar (.bool b) => if b then "true" else "false"
  | .scalar .null => ""
  | v => v.shown

/-- The type of the field that a leaf makes. -/
def leafType (v : Value) : String := FieldType.ofTag (leafTag v)

/-- The field that a leaf makes, seen from a place of the given path. -/
def leafFieldFrom (path : String) (l : Leaf) : Field := ⟨l.pathFrom path, leafType l.value⟩

/-- The field that a leaf makes. -/
def leafField (l : Leaf) : Field := ⟨l.path, leafType l.value⟩

theorem leafFieldFrom_under (path key : String) (l : Leaf) :
    leafFieldFrom path (l.under key) = leafFieldFrom (path ++ "." ++ key) l := by
  rw [leafFieldFrom, Leaf.pathFrom_under]
  rfl

theorem leafField_under (key : String) (l : Leaf) :
    leafField (l.under key) = leafFieldFrom key l := rfl

theorem typeTag_eq (v : Value) : typeTag v = unlessLong v.hasLong (leafTag v) := by
  unfold typeTag
  split
  · rfl
  · rfl
  · rw [leafTag]
    · exact v.written_eq
    all_goals assumption

theorem plainField_eq (path : String) (v : Value) :
    plainField path v = unlessLong v.hasLong ⟨path, leafType v⟩ := by
  rw [plainField, typeTag_eq]
  cases v.hasLong <;> rfl

theorem nestedField_leaf {v : Value} {path : String}
    (h : nestedField [] path v = do return [← plainField path v]) (hleaves : v.leaves = [⟨[], v⟩]) :
    nestedField [] path v = unlessLong v.hasLong (v.leaves.map (leafFieldFrom path)) := by
  have hpath : Text.joined "." [path] = path := by simp [Text.joined, List.intercalate]
  rw [h, hleaves, plainField_eq, List.map_singleton, leafFieldFrom, Leaf.pathFrom, hpath]
  cases v.hasLong <;> rfl

mutual

theorem nestedField_eq {v : Value} (h : v.isAcyclic = true) (path : String) :
    nestedField [] path v = unlessLong v.hasLong (v.leaves.map (leafFieldFrom path)) := by
  match v with
  | .map entries => exact nestedFields_eq h path
  | .scalar _ => exact nestedField_leaf rfl rfl
  | .list _ => exact nestedField_leaf rfl rfl
  | .tuple _ => exact nestedField_leaf rfl rfl
  | .set _ => exact nestedField_leaf rfl rfl

theorem nestedFields_eq {entries : List (Scalar × Value)}
    (h : allAcyclicEntries entries = true) (path : String) :
    nestedFields [] path entries =
      unlessLong (anyLongEntry entries) ((entryLeaves entries).map (leafFieldFrom path)) := by
  match entries with
  | [] => rfl
  | (k, v) :: es =>
    obtain ⟨hv, hes⟩ := Bool.and_eq_true_iff.1 h
    have hmap : leafFieldFrom path ∘ Leaf.under k.shown = leafFieldFrom (path ++ "." ++ k.shown) :=
      funext fun l => leafFieldFrom_under path k.shown l
    rw [nestedFields, anyLongEntry, entryLeaves, List.map_append, List.map_map, hmap, Bool.or_assoc]
    simp only [Scalar.written_eq, nestedField_eq hv, nestedFields_eq hes, unlessLong_bind_pure,
      unlessLong_bind]

end

/-- A model that extends no other has the fields that its leaves make. -/
theorem entryFields_eq {entries : Mapping} (h : allAcyclicEntries entries = true)
    (hextends : ∀ kv ∈ entries, kv.1 ≠ extendsKey)
    (f : String → Except ManifestError (Option (List Field))) : entryFields f entries =
      unlessLong (anyLongEntry entries) ((entryLeaves entries).map leafField) := by
  induction entries with
  | nil => rfl
  | cons kv es ih =>
    obtain ⟨k, v⟩ := kv
    obtain ⟨hv, hes⟩ := Bool.and_eq_true_iff.1 h
    obtain ⟨hk, hrest⟩ := List.forall_mem_cons.1 hextends
    have hmap : leafField ∘ Leaf.under k.shown = leafFieldFrom k.shown :=
      funext (leafField_under k.shown)
    rw [entryFields_cons, ownFields, if_neg hk, ih hes hrest, anyLongEntry, entryLeaves,
      List.map_append, List.map_map, hmap]
    show (_ >>= fun own => _ >>= fun others => pure (own ++ others)) = _
    simp only [Scalar.written_eq, nestedField_eq hv, unlessLong_bind_pure, unlessLong_bind]

theorem forall_ne_of_find?_eq_none {m : Mapping} {name : String}
    (h : Mapping.find? name m = none) : ∀ kv ∈ m, kv.1 ≠ .text name := by
  induction m with
  | nil => nofun
  | cons kv m ih =>
    rw [Mapping.find?] at h
    split_ifs at h with hk
    exact List.forall_mem_cons.2 ⟨hk, ih h⟩

theorem target?_of_find? {models : Mapping} {model : String} {v : Value}
    (h : Mapping.find? model models = some v) (hprimitive : model ∉ FieldType.primitives) :
    target? models model = some model := by
  rw [target?, if_neg (mt List.contains_iff_mem.1 hprimitive), key?, h]
  rfl

theorem fields?_eq {models entries : Mapping} {model : String}
    (hentries : Mapping.find? model models = some (.map entries))
    (hacyclic : allAcyclicEntries entries = true) (hprimitive : model ∉ FieldType.primitives)
    (hextends : Mapping.find? "__extends" entries = none) : fields? models model =
      unlessLong (anyLongEntry entries) (some ((entryLeaves entries).map leafField)) := by
  have htarget : target? models model = some model := target?_of_find? hentries hprimitive
  have hof : entries? models model = some entries := by
    rw [entries?, Mapping.get, hentries]
    rfl
  rw [fields?, fieldsOn_entries htarget List.not_mem_nil hof,
    entryFields_eq hacyclic (forall_ne_of_find?_eq_none hextends), unlessLong_map]

end Model

/-! ## Interfaces -/

namespace TypeDefinitions
open Value

mutual

/-- The type of a value whose leaves have types of their own. -/
def typeText (leafType : Value → String) (indent : String) : Value → String
  | .map entries => literal indent (lineTexts leafType (indent ++ "  ") entries)
  | v => leafType v

/-- The lines of a mapping whose leaves have types of their own. -/
def lineTexts (leafType : Value → String) (indent : String) : List (Scalar × Value) → List String
  | [] => []
  | (k, v) :: es =>
    (indent ++ k.shown ++ ": " ++ typeText leafType indent v ++ ";") ::
      lineTexts leafType indent es

end

/-- The interface of a model that extends no other. -/
def interfaceText (leafType : Value → String) (model : String) (entries : Mapping) : String :=
  "export interface " ++ interfaceName model ++ " \x7b\n" ++
    Text.joined "\n" (lineTexts leafType "  " entries) ++ "\n\x7d\n"

/-- The type that an interface has for a leaf: that of the field but for truth values. -/
def leafType : Value → String
  | .scalar (.bool b) => if b then "True" else "False"
  | v => Model.leafType v

theorem leafType_eq {v : Value} (h : ∀ b, v ≠ .scalar (.bool b)) :
    leafType v = Model.leafType v := by
  unfold leafType
  split
  · exact absurd rfl (h _)
  · rfl

theorem leafType_bool_ne (b : Bool) :
    leafType (.scalar (.bool b)) ≠ Model.leafType (.scalar (.bool b)) := by
  cases b <;> decide

theorem leafType_eq_iff (v : Value) :
    leafType v = Model.leafType v ↔ ∀ b, v ≠ .scalar (.bool b) := by
  refine ⟨?_, leafType_eq⟩
  rintro h b rfl
  exact leafType_bool_ne b h

theorem ofTag_typeTag (v : Value) :
    FieldType.ofTag <$> typeTag v = unlessLong v.hasLong (leafType v) := by
  by_cases hbool : ∃ b, v = .scalar (.bool b)
  · obtain ⟨b, rfl⟩ := hbool
    have htag : FieldType.ofTag (Value.scalar (.bool b)).shown = leafType (.scalar (.bool b)) := by
      cases b <;> decide
    rw [typeTag, Value.written_eq, unlessLong_map, htag]
    nofun
  · have hsame : typeTag v = Model.typeTag v := by
      unfold typeTag
      split
      · rfl
      · rw [Model.typeTag]
        · exact not_exists.1 hbool
        · assumption
    rw [hsame, Model.typeTag_eq, unlessLong_map, leafType_eq (not_exists.1 hbool), Model.leafType]

theorem fieldType_leaf {v : Value} {indent : String}
    (h : fieldType [] indent v = FieldType.ofTag <$> typeTag v)
    (htext : typeText leafType indent v = leafType v) :
    fieldType [] indent v = unlessLong v.hasLong (typeText leafType indent v) := by
  rw [h, htext, ofTag_typeTag]

mutual

theorem fieldType_eq {v : Value} (h : v.isAcyclic = true) (indent : String) :
    fieldType [] indent v = unlessLong v.hasLong (typeText leafType indent v) := by
  match v with
  | .map entries =>
    rw [fieldType, fieldLines_eq h, unlessLong_map]
    rfl
  | .scalar _ => exact fieldType_leaf rfl rfl
  | .list _ => exact fieldType_leaf rfl rfl
  | .tuple _ => exact fieldType_leaf rfl rfl
  | .set _ => exact fieldType_leaf rfl rfl

theorem fieldLines_eq {entries : List (Scalar × Value)} (h : allAcyclicEntries entries = true)
    (indent : String) : fieldLines [] indent entries =
      unlessLong (anyLongEntry entries) (lineTexts leafType indent entries) := by
  match entries with
  | [] => rfl
  | (k, v) :: es =>
    obtain ⟨hv, hes⟩ := Bool.and_eq_true_iff.1 h
    rw [fieldLines, anyLongEntry, lineTexts, Bool.or_assoc]
    simp only [Scalar.written_eq, fieldType_eq hv, fieldLines_eq hes, unlessLong_bind_pure,
      unlessLong_bind]

end

theorem interface_eq {entries : Mapping} (h : allAcyclicEntries entries = true)
    (hextends : Mapping.find? "__extends" entries = none) (model : String) :
    interface model entries =
      unlessLong (anyLongEntry entries) (interfaceText leafType model entries) := by
  have hnone : Text.listed "" = [] := by decide
  have hall : entries.filter (fun e => e.1 != Model.extendsKey) = entries := by
    refine List.filter_eq_self.2 fun kv hkv => bne_iff_ne.2 ?_
    exact Model.forall_ne_of_find?_eq_none hextends kv hkv
  rw [interface, hextends, hall, fieldLines_eq h]
  show (unlessLong false "" >>= fun named => _ >>= fun lines => pure _) = _
  simp only [unlessLong_bind_pure, unlessLong_bind, hnone, List.map_nil, List.isEmpty_nil, if_true,
    String.append_empty, Bool.false_or]
  rfl

/-- The interface of each model is among those that are made. -/
theorem mem_interfaces {models : Mapping} {blocks : List String}
    (h : interfaces models = .ok blocks) {model : String} {v : Value} (hv : Mapping.find? model models = some v)
    (hprivate : model.toList.head? ≠ some '_') :
    ∃ block ∈ blocks, interface model (v.mapping?.getD []) = .ok block := by
  induction models generalizing blocks with
  | nil => cases hv
  | cons kv models ih =>
    obtain ⟨k, w⟩ := kv
    rw [interfaces] at h
    obtain ⟨name, hname, h⟩ := Except.eq_ok_of_bind h
    rw [Mapping.find?] at hv
    split_ifs at hv with hk
    · cases hv
      cases hk
      obtain rfl : model = name := Except.ok.inj hname
      rw [if_neg hprivate] at h
      obtain ⟨own, hown, h⟩ := Except.eq_ok_of_bind h
      obtain ⟨others, -, h⟩ := Except.eq_ok_of_bind h
      cases h
      exact ⟨own, List.mem_cons_self, hown⟩
    · split_ifs at h with hunder
      · exact ih h hv
      · obtain ⟨own, -, h⟩ := Except.eq_ok_of_bind h
        obtain ⟨others, hothers, h⟩ := Except.eq_ok_of_bind h
        cases h
        obtain ⟨block, hblock, hof⟩ := ih hothers hv
        exact ⟨block, List.mem_cons_of_mem _ hblock, hof⟩

theorem failsOnly_interfaces {models : Mapping} (h : (Value.map models).isAcyclic = true) :
    FailsOnly (fun e => e = .long ∧ (Value.map models).hasLong = true) (interfaces models) := by
  intro e he
  cases interfaces_causes models e he with
  | long hlong => exact ⟨rfl, hlong⟩
  | endless hcyclic => exact absurd h (by simp [hcyclic])

/-- A model that extends no other makes a field of each of its leaves, and its interface has the
leaves in their places with the same types, but for truth values. Only an integer of too many digits
keeps the fields or the interfaces from being made. -/
theorem fields?_and_interfaces (models entries : Mapping) (model : String)
    (hacyclic : (Value.map models).isAcyclic = true)
    (hentries : Mapping.find? model models = some (.map entries))
    (hprimitive : model ∉ FieldType.primitives) (hprivate : model.toList.head? ≠ some '_')
    (hextends : Mapping.find? "__extends" entries = none) :
    Model.fields? models model = unlessLong (Value.map entries).hasLong
      (some ((Value.map entries).leaves.map Model.leafField)) ∧
    (∀ blocks, interfaces models = .ok blocks →
      (Value.map entries).hasLong = false ∧ interfaceText leafType model entries ∈ blocks) ∧
    (∀ e, interfaces models = .error e → e = .long ∧ (Value.map models).hasLong = true) ∧
    ∀ l ∈ (Value.map entries).leaves,
      leafType l.value = Model.leafType l.value ↔ ∀ b, l.value ≠ .scalar (.bool b) := by
  have hown : allAcyclicEntries entries = true := isAcyclic_of_find? hacyclic hentries
  refine ⟨Model.fields?_eq hentries hown hprimitive hextends, fun blocks hblocks => ?_,
    failsOnly_interfaces hacyclic, fun l _ => leafType_eq_iff _⟩
  obtain ⟨block, hblock, hof⟩ := mem_interfaces hblocks hentries hprivate
  have hmade :
      unlessLong (anyLongEntry entries) (interfaceText leafType model entries) = .ok block :=
    (interface_eq hown hextends model).symm.trans hof
  obtain ⟨hlong, rfl⟩ := unlessLong_eq_ok_iff.1 hmade
  exact ⟨hlong, hblock⟩

/-- A model with a mapping inside. -/
def userFields : Mapping :=
  [(.text "id", .text "integer | null"),
   (.text "address", .map [(.text "city", .text "string"), (.int 2, .null)]),
   (.text "since", .scalar (.date ⟨2024, 1, 31⟩)), (.text "tags", .list [.text "a"])]

/-- Its interface, line by line. -/
def userLines : List String :=
  ["export interface User \x7b", "  id: number | null;", "  address: \x7b", "    city: string;",
   "    2: ;", "  \x7d;", "  since: 2024-01-31;", "  tags: ['a'];", "\x7d", ""]

theorem fields?_and_interfaces_user :
    Model.fields? [(.text "User", .map userFields)] "User" = .ok (some
      [⟨"id", "number | null"⟩, ⟨"address.city", "string"⟩, ⟨"address.2", ""⟩,
        ⟨"since", "2024-01-31"⟩, ⟨"tags", "['a']"⟩]) ∧
    ∃ blocks, interfaces [(.text "User", .map userFields)] = .ok blocks ∧
      Text.joined "\n" userLines ∈ blocks := by
  obtain ⟨hfields, hblocks, herror, -⟩ := fields?_and_interfaces
    [(.text "User", .map userFields)] userFields "User" (by decide) rfl (by decide) (by decide) rfl
  refine ⟨hfields.trans (by decide +kernel), ?_⟩
  have hlines : interfaceText leafType "User" userFields = Text.joined "\n" userLines := by
    decide +kernel
  rcases hr : interfaces [(.text "User", .map userFields)] with e | blocks
  · exact absurd (herror e hr).2 (by decide +kernel)
  · exact ⟨blocks, rfl, hlines ▸ (hblocks blocks hr).2⟩

/-- The type of a truth value is not the same in the field and in the interface. -/
theorem not_same_type :
    Model.fields? [(.text "M", .map [(.text "flag", .scalar (.bool true))])] "M" =
      .ok (some [⟨"flag", "true"⟩]) ∧
    interfaces [(.text "M", .map [(.text "flag", .scalar (.bool true))])] =
      .ok ["export interface M \x7b\n  flag: True;\n\x7d\n"] := by
  exact ⟨by decide, by decide⟩

end TypeDefinitions
end FlowPipeline
