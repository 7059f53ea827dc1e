import FlowPipeline.Proofs.ModelLeaves

/-! # Models spliced into others

The directive `__extends` stands for the fields of the models it lists. They are the fields that
these models have on their own: the path on which a model is reached decides about cycles and about
nothing else. A field that is a mapping stands for its leaves, also where references lead through
it; only a mapping that contains itself through mappings alone has no end of them.
-/

namespace FlowPipeline

/-! ## Leaves within collections that contain themselves -/

namespace Value

mutual

/-- The leaves of a value, read through its references; nothing if there is no end of them. -/
def leavesWithin (around : List (Nat × Value)) : Value → Option (List Leaf)
  | .map entries => entryLeavesWithin around entries
  | .cyclic n (.map entries) =>
    entryLeavesWithin ((n, .cyclic n (.map entries)) :: around) entries
  | .again _ true => none
  | v => some [⟨[], v.within around⟩]

def entryLeavesWithin (around : List (Nat × Value)) : List (Scalar × Value) → Option (List Leaf)
  | [] => some []
  | (k, v) :: es => do
    let own ← leavesWithin around v
    return own.map (Leaf.under k.shown) ++ (← entryLeavesWithin around es)

end

/-- The leaves of a value; nothing if it contains itself through mappings alone. -/
def leaves? (v : Value) : Option (List Leaf) := leavesWithin [] v

mutual

theorem hasLong_close_of_hasLong {n : Nat} {whole v : Value} (h : v.hasLong = true) :
    (close n whole v).hasLong = true := by
  match v with
  | .scalar _ => exact h
  | .set _ => exact h
  | .list items => exact anyLong_closeItems_of_anyLong (show anyLong items = true from h)
  | .tuple items => exact anyLong_closeItems_of_anyLong (show anyLong items = true from h)
  | .map entries =>
    exact anyLongEntry_closeEntries_of_anyLongEntry (show anyLongEntry entries = true from h)
  | .cyclic m v =>
    rw [close]
    split_ifs
    · exact h
    · exact hasLong_close_of_hasLong (v := v) h

theorem anyLong_closeItems_of_anyLong {n : Nat} {whole : Value} {vs : List Value}
    (h : anyLong vs = true) : anyLong (closeItems n whole vs) = true := by
  match vs with
  | v :: vs =>
    simp only [closeItems, anyLong, Bool.or_eq_true] at h ⊢
    exact h.imp hasLong_close_of_hasLong anyLong_closeItems_of_anyLong

theorem anyLongEntry_closeEntries_of_anyLongEntry {n : Nat} {whole : Value}
    {es : List (Scalar × Value)} (h : anyLongEntry es = true) :
    anyLongEntry (closeEntries n whole es) = true := by
  match es with
  | (k, v) :: es =>
    simp only [closeEntries, anyLongEntry, Bool.or_eq_true] at h ⊢
    exact h.imp (Or.imp_right hasLong_close_of_hasLong) anyLongEntry_closeEntries_of_anyLongEntry

end

theorem hasLong_within_of_hasLong {around : List (Nat × Value)} {v : Value}
    (h : v.hasLong = true) : (v.within around).hasLong = true := by
  induction around generalizing v with
  | nil => exact h
  | cons w around ih => exact ih (hasLong_close_of_hasLong h)

theorem hasLong_within_eq_false {around : List (Nat × Value)} {v : Value} (h : v.hasLong = false)
    (haround : ∀ w ∈ around, w.2.hasLong = false) : (v.within around).hasLong = false := by
  by_contra hlong
  rcases hasLong_within (Bool.not_eq_false _ ▸ hlong) with hv | ⟨w, hw, hlong⟩
  · simp [h] at hv
  · simp [haround w hw] at hlong

end Value

namespace Model
open Value
open Relation (ReflTransGen TransGen)

/-! ## The fields of a field -/

/-- A field that is read has leaves, and all of it can be written. -/
theorem isSome_leavesWithin_of_nestedField (around : List (Nat × Value)) (path : String)
    (v : Value) : ∀ fs, nestedField around path v = .ok fs →
      v.hasLong = false ∧ (leavesWithin around v).isSome = true := by
  induction around, path, v using nestedField.induct
    (motive_2 := fun around path entries => ∀ fs, nestedFields around path entries = .ok fs →
      anyLongEntry entries = false ∧ (entryLeavesWithin around entries).isSome = true) with
  | case1 around path entries ih =>
    rw [nestedField, leavesWithin]
    exact ih
  | case2 around path n entries ih =>
    rw [nestedField, leavesWithin]
    exact ih
  | case3 around path n =>
    intro fs hfs
    rw [nestedField] at hfs
    cases hfs
  | case4 around path v hmap hcyclic hagain =>
    intro fs hfs
    rw [nestedField, plainField_eq] at hfs
    · obtain ⟨f, hf, -⟩ := Except.eq_ok_of_bind hfs
      have hlong : (v.within around).hasLong = false := (unlessLong_eq_ok_iff.1 hf).1
      constructor
      · by_contra h
        simp [hasLong_within_of_hasLong (Bool.not_eq_false _ ▸ h)] at hlong
      · rw [leavesWithin]
        · rfl
        all_goals assumption
    all_goals assumption
  | case5 around path fs hfs => exact ⟨rfl, rfl⟩
  | case6 around path k v es ihv ihes fs hfs =>
    rw [nestedFields] at hfs
    obtain ⟨key, hkey, hfs⟩ := Except.eq_ok_of_bind hfs
    obtain ⟨own, hown, hfs⟩ := Except.eq_ok_of_bind hfs
    obtain ⟨others, hothers, -⟩ := Except.eq_ok_of_bind hfs
    obtain ⟨hk, -⟩ := unlessLong_eq_ok_iff.1 (k.written_eq ▸ hkey)
    obtain ⟨hv, hleaves⟩ := ihv key own hown
    obtain ⟨hes, hrest⟩ := ihes others hothers
    obtain ⟨ls, hls⟩ := Option.isSome_iff_exists.1 hleaves
    obtain ⟨ms, hms⟩ := Option.isSome_iff_exists.1 hrest
    refine ⟨by simp [anyLongEntry, hk, hv, hes], ?_⟩
    rw [entryLeavesWithin, hls, hms]
    rfl

theorem nestedField_leavesWithin (around : List (Nat × Value)) (path : String) (v : Value) :
    ∀ ls, leavesWithin around v = some ls → v.hasLong = false →
      (∀ w ∈ around, w.2.hasLong = false) →
        nestedField around path v = .ok (ls.map (leafFieldFrom path)) := by
  induction around, path, v using nestedField.induct
    (motive_2 := fun around path entries => ∀ ls, entryLeavesWithin around entries = some ls →
      anyLongEntry entries = false → (∀ w ∈ around, w.2.hasLong = false) →
        nestedFields around path entries = .ok (ls.map (leafFieldFrom path))) with
  | case1 around path entries ih =>
    rw [nestedField, leavesWithin]
    exact ih
  | case2 around path n entries ih =>
    rw [nestedField, leavesWithin]
    exact fun ls hls hlong haround =>
      ih ls hls hlong (List.forall_mem_cons.2 ⟨hlong, haround⟩)
  | case3 around path n =>
    intro ls hls
    rw [leavesWithin] at hls
    cases hls
  | case4 around path v hmap hcyclic hagain =>
    intro ls hls hlong haround
    have hpath : Text.joined "." [path] = path := by simp [Text.joined, List.intercalate]
    rw [leavesWithin] at hls
    · obtain rfl := Option.some.inj hls
      rw [nestedField, plainField_eq, hasLong_within_eq_false hlong haround, List.map_singleton,
        leafFieldFrom, Leaf.pathFrom, hpath]
      · rfl
      all_goals assumption
    all_goals assumption
  | case5 around path ls hls hlong haround =>
    cases hls
    rfl
  | case6 around path k v es ihv ihes ls hls hlong haround =>
    rw [entryLeavesWithin] at hls
    obtain ⟨own, hown, hls⟩ := Option.bind_eq_some_iff.1 hls
    obtain ⟨others, hothers, hls⟩ := Option.bind_eq_some_iff.1 hls
    obtain rfl := Option.some.inj hls
    simp only [anyLongEntry, Bool.or_eq_false_iff] at hlong
    obtain ⟨⟨hk, hv⟩, hes⟩ := hlong
    have hkey : k.written = .ok k.shown := by rw [k.written_eq, hk]; rfl
    have hmap : leafFieldFrom path ∘ Leaf.under k.shown = leafFieldFrom (path ++ "." ++ k.shown) :=
      funext fun l => leafFieldFrom_under path k.shown l
    rw [nestedFields, hkey, List.map_append, List.map_map, hmap]
    show (nestedField around (path ++ "." ++ k.shown) v >>= fun own => _) = _
    rw [ihv k.shown own hown hv haround, ihes others hothers hes haround]
    rfl

/-! ## The fields of an entry -/

/-- The entries have an end of leaves and no integers of too many digits. -/
structure IsReadable (entries : Mapping) : Prop where
  short : anyLongEntry entries = false
  leaves : ∀ kv ∈ entries, kv.1 ≠ extendsKey → kv.2.leaves?.isSome = true

/-- The fields that there are of a name; none if it has none. -/
def collected (f : String → Except ManifestError (Option (List Field))) (name : String) :
    List Field := (f name).toOption.join.getD []

/-- The fields that an entry stands for: after `__extends` those of the models it lists, else one
for each of its leaves. -/
def partOf (f : String → Except ManifestError (Option (List Field))) (kv : Scalar × Value) :
    List Field :=
  if kv.1 = extendsKey then (Text.listed kv.2.shown).flatMap (collected f)
  else (kv.2.leaves?.getD []).map (leafFieldFrom kv.1.shown)

section Entries

variable {f : String → Except ManifestError (Option (List Field))} {names : List String}
  {entries : Mapping} {fs : List Field} {k : Scalar} {v : Value}

theorem allFields_collected (h : ∀ name ∈ names, ∃ r, f name = .ok r) :
    allFields f names = .ok (names.flatMap (collected f)) := by
  induction names with
  | nil => rfl
  | cons name names ih =>
    obtain ⟨⟨r, hr⟩, hrest⟩ := List.forall_mem_cons.1 h
    have hown : collected f name = r.getD [] := by rw [collected, hr]; cases r <;> rfl
    rw [allFields, hr, ih hrest, List.flatMap_cons, hown]
    rfl

theorem IsReadable.tail {kv : Scalar × Value} (h : IsReadable (kv :: entries)) :
    IsReadable entries := by
  refine ⟨?_, fun kv' hkv' => h.leaves kv' (List.mem_cons_of_mem _ hkv')⟩
  have hshort := h.short
  simp only [anyLongEntry, Bool.or_eq_false_iff] at hshort
  exact hshort.2

theorem ownFields_partOf (h : IsReadable ((k, v) :: entries))
    (hlisted : ∀ name, Lists ((k, v) :: entries) name → ∃ r, f name = .ok r) :
    ownFields f k v = .ok (partOf f (k, v)) := by
  have hshort := h.short
  simp only [anyLongEntry, Bool.or_eq_false_iff] at hshort
  obtain ⟨⟨hk, hv⟩, -⟩ := hshort
  unfold ownFields partOf
  split_ifs with hextends
  · subst hextends
    have htext : v.written = .ok v.shown := by rw [v.written_eq, hv]; rfl
    rw [htext]
    exact allFields_collected fun name hname =>
      hlisted name ⟨v, v.shown, List.mem_cons_self, htext, hname⟩
  · obtain ⟨ls, hls⟩ := Option.isSome_iff_exists.1 (h.leaves _ List.mem_cons_self hextends)
    have hkey : k.written = .ok k.shown := by rw [k.written_eq, hk]; rfl
    rw [hkey, hls]
    exact nestedField_leavesWithin [] k.shown v ls hls hv nofun

theorem entryFields_partOf (h : IsReadable entries)
    (hlisted : ∀ name, Lists entries name → ∃ r, f name = .ok r) :
    entryFields f entries = .ok (entries.flatMap (partOf f)) := by
  induction entries with
  | nil => rfl
  | cons kv entries ih =>
    obtain ⟨k, v⟩ := kv
    rw [entryFields_cons, ownFields_partOf h hlisted,
      ih h.tail fun name hname => hlisted name hname.of_tail]
    rfl

theorem isReadable_of_entryFields (h : entryFields f entries = .ok fs) : IsReadable entries := by
  induction entries generalizing fs with
  | nil => exact ⟨rfl, nofun⟩
  | cons kv entries ih =>
    obtain ⟨k, v⟩ := kv
    rw [entryFields_cons] at h
    obtain ⟨own, hown, h⟩ := Except.eq_ok_of_bind h
    obtain ⟨others, hothers, -⟩ := Except.eq_ok_of_bind h
    obtain ⟨hshort, hleaves⟩ := ih hothers
    unfold ownFields at hown
    split_ifs at hown with hextends
    · obtain ⟨text, htext, -⟩ := Except.eq_ok_of_bind hown
      obtain ⟨hv, -⟩ := unlessLong_eq_ok_iff.1 (v.written_eq ▸ htext)
      subst hextends
      refine ⟨by simp [anyLongEntry, hv, hshort, extendsKey, Scalar.isLong], ?_⟩
      exact List.forall_mem_cons.2 ⟨fun hne => absurd rfl hne, hleaves⟩
    · obtain ⟨path, hpath, hown⟩ := Except.eq_ok_of_bind hown
      obtain ⟨hk, -⟩ := unlessLong_eq_ok_iff.1 (k.written_eq ▸ hpath)
      obtain ⟨hv, hsome⟩ := isSome_leavesWithin_of_nestedField [] path v own hown
      exact ⟨by simp [anyLongEntry, hk, hv, hshort],
        List.forall_mem_cons.2 ⟨fun _ => hsome, hleaves⟩⟩

end Entries

/-! ## The path on which a model is reached -/

variable {models entries : Mapping} {root key base name : String} {path path' : List String}
  {depth depth' : Nat}

/-- No model that is reached from a name is on the path, and none leads back to itself. -/
def Clear (models : Mapping) (path : List String) (name : String) : Prop :=
  ∀ root key, target? models name = some root → ReflTransGen (Extends models) root key →
    key ∉ path ∧ ¬TransGen (Extends models) key key

theorem clear_nil_iff : Clear models [] name ↔ ¬ReachesCycle models name := by
  constructor
  · rintro h ⟨root, key, hroot, hkey, hcycle⟩
    exact (h root key hroot hkey).2 hcycle
  · exact fun h root key hroot hkey =>
      ⟨List.not_mem_nil, fun hcycle => h ⟨root, key, hroot, hkey, hcycle⟩⟩

theorem Clear.subset (h : Clear models path name) (hpath : path' ⊆ path) :
    Clear models path' name :=
  fun root key hroot hkey => (h root key hroot hkey).imp_left fun hout hin => hout (hpath hin)

theorem Clear.not_mem (h : Clear models path name) (htarget : target? models name = some key) :
    key ∉ path := (h key key htarget .refl).1

theorem Clear.next (h : Clear models path name) (htarget : target? models name = some key)
    (hbase : Names models key base) : Clear models (key :: path) base := by
  intro root other hroot hother
  have hedge : Extends models key root := ⟨base, hbase, hroot⟩
  obtain ⟨hout, hacyclic⟩ := h key other htarget (.head hedge hother)
  refine ⟨fun hin => ?_, hacyclic⟩
  rcases List.mem_cons.1 hin with rfl | hin
  · exact hacyclic (.head' hedge hother)
  · exact hout hin

theorem Asked.clear {start : String} (h : Asked models start path name)
    (hstart : Clear models [] start) : Clear models path name := by
  induction h with
  | start => exact hstart
  | next h htarget hkey hbase ih => exact ih.next htarget hbase

/-- Where no cycle can be met, the path decides nothing. -/
theorem Ends.fieldsOn_eq (h : Ends models depth path name) (h' : Ends models depth' path' name)
    (hpath : Clear models path name) (hpath' : Clear models path' name) :
    fieldsOn models depth path name = fieldsOn models depth' path' name := by
  induction h generalizing depth' path' with
  | undefined htarget => rw [fieldsOn_undefined htarget, fieldsOn_undefined htarget]
  | seen htarget hkey => exact absurd hkey (hpath.not_mem htarget)
  | @fields depth path name key htarget hkey hbases ih =>
    cases h' with
    | undefined hnone => cases htarget.symm.trans hnone
    | seen htarget' hkey' => exact absurd hkey' (hpath'.not_mem htarget')
    | @fields depth' _ _ key' htarget' hkey' hbases' =>
      obtain rfl : key = key' := Option.some.inj (htarget.symm.trans htarget')
      rcases hentries : entries? models key with _ | entries
      · rw [fieldsOn_plain htarget hkey hentries, fieldsOn_plain htarget hkey' hentries]
      · rw [fieldsOn_entries htarget hkey hentries, fieldsOn_entries htarget hkey' hentries]
        refine congrArg _ (entryFields_congr fun base hbase => ?_)
        have hnames : Names models key base := ⟨entries, hentries, hbase⟩
        exact ih base hnames (hbases' base hnames) (hpath.next htarget hnames)
          (hpath'.next htarget hnames)

/-- The fields that are collected on the way are those of the model itself. -/
theorem Asked.fieldsOn_eq_fields? {start : String} (h : Asked models start path name)
    (hstart : ¬ReachesCycle models start) (hdepth : models.length < depth + path.length) :
    fieldsOn models depth path name = fields? models name := by
  have hclear : Clear models path name := h.clear (clear_nil_iff.2 hstart)
  exact (h.ends hdepth).fieldsOn_eq (ends_of_length_lt name (Nat.lt_succ_self _)) hclear
    (hclear.subset (List.nil_subset path))

/-- The fields of a model are made of the fields that the models it extends have on their own. -/
theorem fields?_entries (htarget : target? models name = some key)
    (hentries : entries? models key = some entries) (hacyclic : ¬ReachesCycle models name) :
    fields? models name = some <$> entryFields (fields? models) entries := by
  rw [fields?, fieldsOn_entries htarget List.not_mem_nil hentries]
  refine congrArg _ (entryFields_congr fun base hbase => ?_)
  have hasked : Asked models name [key] base :=
    .next .start htarget List.not_mem_nil ⟨entries, hentries, hbase⟩
  exact hasked.fieldsOn_eq_fields? hacyclic (by simp)

theorem not_reachesCycle_of_ok {r : Option (List Field)} (h : fields? models name = .ok r) :
    ¬ReachesCycle models name := by
  rintro ⟨root, key, hroot, hkey, hcycle⟩
  exact ((ends_of_length_lt name (Nat.lt_succ_self _)).acyclic h hroot hkey).2 hcycle

/-! ## Which models have fields -/

/-- Each model that is reached from the root can be read. -/
def AllReadable (models : Mapping) (root : String) : Prop :=
  ∀ key entries, ReflTransGen (Extends models) root key → entries? models key = some entries →
    IsReadable entries

theorem Ends.exists_ok (h : Ends models depth path name) (hpath : Clear models path name)
    (hreadable : ∀ root, target? models name = some root → AllReadable models root) :
    ∃ r, fieldsOn models depth path name = .ok r := by
  induction h with
  | undefined htarget => exact ⟨none, fieldsOn_undefined htarget⟩
  | seen htarget hkey => exact absurd hkey (hpath.not_mem htarget)
  | @fields depth path name key htarget hkey hbases ih =>
    rcases hentries : entries? models key with _ | entries
    · exact ⟨some [], fieldsOn_plain htarget hkey hentries⟩
    · have hlisted : ∀ base, Lists entries base →
          ∃ r, fieldsOn models depth (key :: path) base = .ok r := by
        intro base hbase
        have hnames : Names models key base := ⟨entries, hentries, hbase⟩
        refine ih base hnames (hpath.next htarget hnames) fun root hroot other es hother => ?_
        exact hreadable key htarget other es (.head ⟨base, hnames, hroot⟩ hother)
      rw [fieldsOn_entries htarget hkey hentries,
        entryFields_partOf (hreadable key htarget key entries .refl hentries) hlisted]
      exact ⟨_, rfl⟩

theorem allReadable_of_ok {r : Option (List Field)} (h : fields? models name = .ok r)
    (hroot : target? models name = some root) : AllReadable models root := by
  intro key entries hkey hentries
  induction hkey using ReflTransGen.head_induction_on generalizing name r with
  | refl =>
    rw [fields?_entries hroot hentries (not_reachesCycle_of_ok h)] at h
    obtain ⟨fs, hfs, -⟩ := Except.eq_ok_of_bind h
    exact isReadable_of_entryFields hfs
  | @head root middle hedge hrest ih =>
    obtain ⟨base, ⟨es, hes, hbase⟩, hmiddle⟩ := hedge
    rw [fields?_entries hroot hes (not_reachesCycle_of_ok h)] at h
    obtain ⟨fs, hfs, -⟩ := Except.eq_ok_of_bind h
    obtain ⟨r', hr'⟩ := ok_of_entryFields hfs hbase
    exact ih hr' hmiddle

theorem exists_ok_iff (hroot : target? models name = some root)
    (hacyclic : ¬ReachesCycle models name) :
    (∃ r, fields? models name = .ok r) ↔ AllReadable models root := by
  constructor
  · rintro ⟨r, hr⟩
    exact allReadable_of_ok hr hroot
  · intro h
    refine (ends_of_length_lt name (Nat.lt_succ_self _)).exists_ok (clear_nil_iff.2 hacyclic) ?_
    intro root' hroot'
    obtain rfl : root = root' := Option.some.inj (hroot.symm.trans hroot')
    exact h

/-- From a model that reaches no cycle, the fields are spliced: entry by entry, those of the listed
models or those of the entry's leaves. They are there unless a model that is reached cannot be read,
and errors are spliced alike. The fields of a model are the same on every path. -/
theorem fields?_spliced (models entries : Mapping) (name key : String)
    (htarget : target? models name = some key) (hentries : entries? models key = some entries)
    (hacyclic : ¬ReachesCycle models name) :
    (AllReadable models key →
      fields? models name = .ok (some (entries.flatMap (partOf (fields? models)))) ∧
        ∀ base, Lists entries base → ∃ r, fields? models base = .ok r) ∧
    ((∃ r, fields? models name = .ok r) ↔ AllReadable models key) ∧
    fields? models name = some <$> entryFields (fields? models) entries ∧
    ∀ depth path base, Asked models name path base → models.length < depth + path.length →
      fieldsOn models depth path base = fields? models base := by
  have hspliced : fields? models name = some <$> entryFields (fields? models) entries :=
    fields?_entries htarget hentries hacyclic
  refine ⟨fun hreadable => ?_, exists_ok_iff htarget hacyclic, hspliced,
    fun depth path base hasked hdepth => hasked.fieldsOn_eq_fields? hacyclic hdepth⟩
  obtain ⟨r, hr⟩ := (exists_ok_iff htarget hacyclic).2 hreadable
  have hlisted : ∀ base, Lists entries base → ∃ r, fields? models base = .ok r := by
    intro base hbase
    obtain ⟨fs, hfs, -⟩ := Except.eq_ok_of_bind (hspliced.symm.trans hr)
    exact ok_of_entryFields hfs hbase
  refine ⟨?_, hlisted⟩
  rw [hspliced, entryFields_partOf (hreadable key entries .refl hentries) hlisted]
  rfl

/-- A model that extends another one twice, once under a name in the plural and once through a model
between them. -/
def memberFields : Mapping :=
  [(extendsKey, .text "Users, Audited"), (.text "role", .text "string")]

def teamModels : Mapping :=
  [(.text "User", .map [(.text "id", .text "integer"),
      (.text "address", .map [(.text "city", .text "string"), (.int 2, .null)])]),
   (.text "Audited", .map [(extendsKey, .text "User"), (.text "at", .text "date")]),
   (.text "Member", .map memberFields)]

theorem fields?_spliced_team :
    fields? teamModels "User" =
      .ok (some [⟨"id", "number"⟩, ⟨"address.city", "string"⟩, ⟨"address.2", ""⟩]) ∧
    fieldsOn teamModels 2 ["Audited", "Member"] "User" = fields? teamModels "User" ∧
    fields? teamModels "Members" =
      .ok (some (memberFields.flatMap (partOf (fields? teamModels)))) ∧
    memberFields.flatMap (partOf (fields? teamModels)) =
      [⟨"id", "number"⟩, ⟨"address.city", "string"⟩, ⟨"address.2", ""⟩,
        ⟨"id", "number"⟩, ⟨"address.city", "string"⟩, ⟨"address.2", ""⟩, ⟨"at", "Date"⟩,
        ⟨"role", "string"⟩] := by
  have htarget : target? teamModels "Members" = some "Member" := by decide
  have hmember : (fields? teamModels "Members").toOption.isSome = true := by decide +kernel
  obtain ⟨r, hr⟩ : ∃ r, fields? teamModels "Members" = .ok r := by
    rcases h : fields? teamModels "Members" with e | r
    · simp [h, Except.toOption] at hmember
    · exact ⟨r, rfl⟩
  obtain ⟨hfields, hiff, -, hpath⟩ :=
    fields?_spliced teamModels memberFields "Members" "Member" htarget rfl
      (not_reachesCycle_of_ok hr)
  -- The shared model is reached on a path through both of the others.
  have hmiddle : Asked teamModels "Members" ["Member"] "Audited" :=
    .next .start htarget List.not_mem_nil
      ⟨memberFields, rfl, .text "Users, Audited", _, List.mem_cons_self, rfl, by decide⟩
  have hasked : Asked teamModels "Members" ["Audited", "Member"] "User" :=
    .next hmiddle (by decide) (by decide)
      ⟨_, rfl, .text "User", _, List.mem_cons_self, rfl, by decide⟩
  exact ⟨by decide +kernel, hpath 2 _ "User" hasked (by decide), (hfields (hiff.1 ⟨r, hr⟩)).1,
    by decide +kernel⟩

/-! ## Models that cannot be read -/

/-- Without directives there are no cycles. -/
theorem not_reachesCycle_of_plain (h : ∀ kv ∈ models, ∀ entries,
    kv.2.mapping? = some entries → extendsKey ∉ entries.map Prod.fst) :
    ¬ReachesCycle models name := by
  rintro ⟨root, key, -, -, hcycle⟩
  obtain ⟨base, ⟨name', ⟨entries, hentries, v, text, hv, -⟩, -⟩, -⟩ := TransGen.head'_iff.1 hcycle
  rcases hfind : Mapping.find? key models with _ | w
  · rw [entries?, Mapping.get, hfind] at hentries
    cases hentries
  · rw [entries?, Mapping.get, hfind] at hentries
    exact h _ (Mapping.mem_of_find? hfind) entries hentries (List.mem_map_of_mem hv)

/-- A model with an integer that has too many digits, and one with a mapping that contains
itself. -/
def unreadableModels : Mapping :=
  [(.text "Count", .map [(.text "id", .tooLong)]),
   (.text "Loop", .cyclic 0 (.map [(.text "self", .again 0 true)]))]

/-- Models without a cycle need not have fields. -/
theorem fields?_unreadable :
    ¬ReachesCycle unreadableModels "Count" ∧
    target? unreadableModels "Count" = some "Count" ∧
    entries? unreadableModels "Count" = some [(.text "id", .tooLong)] ∧
    fields? unreadableModels "Count" = .error .long ∧
    ¬ReachesCycle unreadableModels "Loop" ∧
    target? unreadableModels "Loop" = some "Loop" ∧
    (entries? unreadableModels "Loop").isSome = true ∧
    fields? unreadableModels "Loop" = .error .endless := by
  have hplain : ∀ kv ∈ unreadableModels, ∀ entries, kv.2.mapping? = some entries →
      extendsKey ∉ entries.map Prod.fst := by
    simp [unreadableModels, Value.mapping?, closeEntries, extendsKey]
  exact ⟨not_reachesCycle_of_plain hplain, by decide +kernel, rfl, by decide +kernel,
    not_reachesCycle_of_plain hplain, by decide, by decide, by decide⟩

end Model
end FlowPipeline
