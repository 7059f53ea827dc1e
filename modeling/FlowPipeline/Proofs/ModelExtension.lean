import FlowPipeline.Proofs.ValueErrors
import Mathlib.Data.List.Chain
import Mathlib.Data.List.Nodup
import Mathlib.Data.List.Perm.Subperm
import Mathlib.Logic.Relation

/-! # Models that extend each other

The directives `__extends` make the models a graph. The fields of a model are collected along its
paths, and no path goes on after a model that it has met. So a path has no more models than the
manifest, and collecting fails on a cycle exactly where one can be reached.
-/

namespace FlowPipeline.Model

open Relation (ReflTransGen TransGen)

/-! ## The graph -/

/-- The key of the model that a name stands for. A primitive type is no model. -/
def target? (models : Mapping) (name : String) : Option String :=
  if FieldType.primitives.contains name then none else key? models name

/-- An entry lists the name after `__extends`. -/
def Lists (entries : Mapping) (name : String) : Prop :=
  ∃ v text, (extendsKey, v) ∈ entries ∧ v.written = .ok text ∧ name ∈ Text.listed text

/-- The entries of the model under a key, if that is a mapping. -/
def entries? (models : Mapping) (key : String) : Option Mapping := (Mapping.get key models).mapping?

/-- The model under a key names another one after `__extends`. -/
def Names (models : Mapping) (key name : String) : Prop :=
  ∃ entries, entries? models key = some entries ∧ Lists entries name

/-- The edges of the graph. -/
def Extends (models : Mapping) (key base : String) : Prop :=
  ∃ name, Names models key name ∧ target? models name = some base

/-- A cycle, its first model repeated at the end. -/
structure IsCycle (models : Mapping) (root : String) (c : List String) : Prop where
  length : 2 ≤ c.length
  closed : c.head? = c.getLast?
  nodup : c.dropLast.Nodup
  joined : c.IsChain (Extends models)
  reached : ∀ key ∈ c, ReflTransGen (Extends models) root key

/-- A path from the model of a name leads to a cycle. -/
def ReachesCycle (models : Mapping) (name : String) : Prop :=
  ∃ root key, target? models name = some root ∧ ReflTransGen (Extends models) root key ∧
    TransGen (Extends models) key key

/-- A model on a path from `root` causes the error with what its entries hold. -/
def Spoiled (models : Mapping) (root : String) (e : ManifestError) : Prop :=
  ∃ key entries, ReflTransGen (Extends models) root key ∧ entries? models key = some entries ∧
    (Value.map entries).Causes e

variable {models entries : Mapping} {root key base name : String} {path : List String}
  {depth : Nat}

theorem find?_of_target? (h : target? models name = some key) :
    (Mapping.find? key models).isSome = true := by
  rw [target?, key?] at h
  split_ifs at h with hprimitive hname hsingular
  · rwa [Option.some.inj h] at hname
  · rw [← Option.some.inj h]
    exact hsingular.2

theorem Spoiled.causes {e : ManifestError} (h : Spoiled models root e) :
    (Value.map models).Causes e := by
  obtain ⟨key, entries, -, hentries, he⟩ := h
  exact .of_get (.of_mapping? hentries he)

/-! ## The fields on a path, one step at a time -/

theorem fieldsOn_undefined (h : target? models name = none) :
    fieldsOn models depth path name = .ok none := by
  cases depth with
  | zero => rfl
  | succ depth =>
    unfold target? at h
    rw [fieldsOn]
    split_ifs at h ⊢ with hprimitive
    · rfl
    · rw [h]

theorem fieldsOn_succ (h : target? models name = some key) :
    fieldsOn models (depth + 1) path name =
      if path.contains key then
        .error (.cycle ((path.takeWhile (· != key) ++ [key]).reverse ++ [key]))
      else
        match entries? models key with
        | some entries => some <$> entryFields (fieldsOn models depth (key :: path)) entries
        | none => .ok (some []) := by
  unfold target? at h
  rw [fieldsOn]
  split_ifs at h with hprimitive
  rw [if_neg hprimitive, h]
  rfl

theorem fieldsOn_seen (h : target? models name = some key) (hkey : key ∈ path) :
    fieldsOn models (depth + 1) path name =
      .error (.cycle ((path.takeWhile (· != key) ++ [key]).reverse ++ [key])) := by
  rw [fieldsOn_succ h, if_pos (List.contains_iff_mem.2 hkey)]

theorem fieldsOn_entries (h : target? models name = some key) (hkey : key ∉ path)
    (hentries : entries? models key = some entries) :
    fieldsOn models (depth + 1) path name =
      some <$> entryFields (fieldsOn models depth (key :: path)) entries := by
  rw [fieldsOn_succ h, if_neg (mt List.contains_iff_mem.1 hkey), hentries]

theorem fieldsOn_plain (h : target? models name = some key) (hkey : key ∉ path)
    (hentries : entries? models key = none) :
    fieldsOn models (depth + 1) path name = .ok (some []) := by
  rw [fieldsOn_succ h, if_neg (mt List.contains_iff_mem.1 hkey), hentries]

section Entries

variable {f g : String → Except ManifestError (Option (List Field))} {names : List String}
  {fs : List Field} {P : ManifestError → Prop}

theorem allFields_congr (h : ∀ name ∈ names, f name = g name) :
    allFields f names = allFields g names := by
  induction names with
  | nil => rfl
  | cons name names ih =>
    rw [allFields, allFields, h name List.mem_cons_self,
      ih fun name' hname => h name' (List.mem_cons_of_mem _ hname)]

theorem ok_of_allFields (h : allFields f names = .ok fs) (hname : name ∈ names) :
    ∃ r, f name = .ok r := by
  induction names generalizing fs with
  | nil => cases hname
  | cons first names ih =>
    obtain ⟨r, hr, hrest⟩ := Except.eq_ok_of_bind h
    obtain ⟨others, hothers, -⟩ := Except.eq_ok_of_bind hrest
    rcases List.mem_cons.1 hname with rfl | hname
    · exact ⟨r, hr⟩
    · exact ih hothers hname

theorem failsOnly_allFields (h : ∀ name ∈ names, FailsOnly P (f name)) :
    FailsOnly P (allFields f names) := by
  induction names with
  | nil => exact .ok []
  | cons name names ih =>
    refine .bind (h name List.mem_cons_self) fun r _ => ?_
    exact .bind (ih fun name' hname => h name' (List.mem_cons_of_mem _ hname)) fun fs _ => .ok _

/-- The fields that one entry of a model stands for. -/
def ownFields (f : String → Except ManifestError (Option (List Field))) (k : Scalar) (v : Value) :
    Except ManifestError (List Field) :=
  if k = extendsKey then v.written >>= fun text => allFields f (Text.listed text)
  else k.written >>= fun path => nestedField [] path v

theorem entryFields_cons (f : String → Except ManifestError (Option (List Field))) (k : Scalar)
    (v : Value) (entries : Mapping) :
    entryFields f ((k, v) :: entries) = ownFields f k v >>= fun own =>
      entryFields f entries >>= fun others => .ok (own ++ others) := by
  rw [entryFields, ownFields]
  split_ifs with hk
  · rcases v.written with e | text <;> rfl
  · rcases k.written with e | path <;> rfl

theorem Lists.of_tail {kv : Scalar × Value} (h : Lists entries name) :
    Lists (kv :: entries) name := by
  obtain ⟨v, text, hv, htext⟩ := h
  exact ⟨v, text, List.mem_cons_of_mem _ hv, htext⟩

theorem entryFields_congr (h : ∀ name, Lists entries name → f name = g name) :
    entryFields f entries = entryFields g entries := by
  induction entries with
  | nil => rfl
  | cons kv entries ih =>
    obtain ⟨k, v⟩ := kv
    have hown : ownFields f k v = ownFields g k v := by
      unfold ownFields
      split_ifs with hk
      · subst hk
        rcases htext : v.written with e | text
        · rfl
        · exact allFields_congr fun name hname => h name ⟨v, text, List.mem_cons_self, htext, hname⟩
      · rfl
    rw [entryFields_cons, entryFields_cons, hown, ih fun name hname => h name hname.of_tail]

theorem ok_of_entryFields (h : entryFields f entries = .ok fs) (hname : Lists entries name) :
    ∃ r, f name = .ok r := by
  induction entries generalizing fs with
  | nil =>
    obtain ⟨v, text, hv, -⟩ := hname
    cases hv
  | cons kv entries ih =>
    obtain ⟨k, v⟩ := kv
    rw [entryFields_cons] at h
    obtain ⟨own, hown, hrest⟩ := Except.eq_ok_of_bind h
    obtain ⟨others, hothers, -⟩ := Except.eq_ok_of_bind hrest
    obtain ⟨w, text, hw, htext, hname⟩ := hname
    rcases List.mem_cons.1 hw with heq | hw
    · cases heq
      rw [ownFields, if_pos rfl, htext] at hown
      exact ok_of_allFields hown hname
    · exact ih hothers ⟨w, text, hw, htext, hname⟩

theorem failsOnly_entryFields (hnames : ∀ name, Lists entries name → FailsOnly P (f name))
    (hentries : ∀ e, (Value.map entries).Causes e → P e) :
    FailsOnly P (entryFields f entries) := by
  induction entries with
  | nil => exact .ok []
  | cons kv entries ih =>
    obtain ⟨k, v⟩ := kv
    have hv : (k, v) ∈ (k, v) :: entries := List.mem_cons_self
    have hown : FailsOnly P (ownFields f k v) := by
      unfold ownFields
      split_ifs with hk
      · subst hk
        refine .bind ((Value.written_causes v).mono fun e he => hentries e (.of_mem hv he)) ?_
        intro text htext
        exact failsOnly_allFields fun name hname => hnames name ⟨v, text, hv, htext, hname⟩
      · refine .bind ((Scalar.written_causes hv).mono hentries) fun path _ => ?_
        refine (failsOnly_nestedField [] path v).mono fun e he => hentries e (.of_mem hv ?_)
        exact Value.CausesWithin.nil_iff.1 he
    have hrest : FailsOnly P (entryFields f entries) :=
      ih (fun name hname => hnames name hname.of_tail) fun e he => hentries e (.of_tail he)
    rw [entryFields_cons]
    exact .bind hown fun own _ => .bind hrest fun others _ => .ok (own ++ others)

end Entries

/-! ## The paths that are taken -/

/-- Where the fields of `start` are collected, the fields of a name are asked for on a path. -/
inductive Asked (models : Mapping) (start : String) : List String → String → Prop where
  | start : Asked models start [] start
  | next {path : List String} {name key base : String} (h : Asked models start path name)
      (htarget : target? models name = some key) (hkey : key ∉ path)
      (hbase : Names models key base) : Asked models start (key :: path) base

namespace Asked

variable {start : String}

theorem nodup (h : Asked models start path name) : path.Nodup := by
  induction h with
  | start => exact List.nodup_nil
  | next h htarget hkey hbase ih => exact List.nodup_cons.2 ⟨hkey, ih⟩

theorem defined (h : Asked models start path name) :
    ∀ key ∈ path, (Mapping.find? key models).isSome = true := by
  induction h with
  | start => nofun
  | next h htarget hkey hbase ih =>
    exact List.forall_mem_cons.2 ⟨find?_of_target? htarget, ih⟩

theorem isChain (h : Asked models start path name) (htarget : target? models name = some key) :
    (key :: path).IsChain (fun base key => Extends models key base) := by
  induction h generalizing key with
  | start => exact .singleton key
  | next h hlast hkey hbase ih => exact .cons_cons ⟨_, hbase, htarget⟩ (ih hlast)

theorem reaches (h : Asked models start path name) (hroot : target? models start = some root)
    (htarget : target? models name = some key) :
    ∀ key' ∈ key :: path, ReflTransGen (Extends models) root key' := by
  induction h generalizing key with
  | start =>
    obtain rfl : root = key := Option.some.inj (hroot.symm.trans htarget)
    exact List.forall_mem_cons.2 ⟨.refl, nofun⟩
  | next h hlast hkey hbase ih =>
    refine List.forall_mem_cons.2 ⟨.tail (ih hlast _ List.mem_cons_self) ?_, ih hlast⟩
    exact ⟨_, hbase, htarget⟩

end Asked

/-! ## Enough depth -/

/-- The texts that are keys of a mapping. -/
def keys (m : Mapping) : List String :=
  m.filterMap fun kv => match kv.1 with
    | .text name => some name
    | _ => none

theorem mem_keys_of_find? {m : Mapping} (h : (Mapping.find? name m).isSome = true) :
    name ∈ keys m := by
  obtain ⟨v, hv⟩ := Option.isSome_iff_exists.1 h
  exact List.mem_filterMap.2 ⟨_, Mapping.mem_of_find? hv, rfl⟩

theorem Asked.length_le {start : String} (h : Asked models start path name) :
    path.length ≤ models.length := by
  have hkeys : path ⊆ keys models := fun key hkey => mem_keys_of_find? (h.defined key hkey)
  calc path.length
    _ ≤ (keys models).length := (List.subperm_of_subset h.nodup hkeys).length_le
    _ ≤ models.length := List.length_filterMap_le _ _

/-- Collecting the fields of a name ends before the depth is used up. -/
inductive Ends (models : Mapping) : Nat → List String → String → Prop where
  | undefined {depth : Nat} {path : List String} {name : String}
      (h : target? models name = none) : Ends models (depth + 1) path name
  | seen {depth : Nat} {path : List String} {name key : String}
      (h : target? models name = some key) (hkey : key ∈ path) : Ends models (depth + 1) path name
  | fields {depth : Nat} {path : List String} {name key : String}
      (h : target? models name = some key) (hkey : key ∉ path)
      (hbases : ∀ base, Names models key base → Ends models depth (key :: path) base) :
      Ends models (depth + 1) path name

/-- A path has met fewer models than there are, so that the depth that is left covers the others. -/
theorem Asked.ends {start : String} (h : Asked models start path name)
    (hdepth : models.length < depth + path.length) : Ends models depth path name := by
  induction depth generalizing path name with
  | zero =>
    have hle : path.length ≤ models.length := h.length_le
    omega
  | succ depth ih =>
    rcases htarget : target? models name with _ | key
    · exact .undefined htarget
    · by_cases hkey : key ∈ path
      · exact .seen htarget hkey
      · refine .fields htarget hkey fun base hbase => ih (.next h htarget hkey hbase) ?_
        rw [List.length_cons]
        omega

/-- Extra depth does not change the fields of a name that are collected to the end. -/
theorem Ends.fieldsOn_add (h : Ends models depth path name) (extra : Nat) :
    fieldsOn models (depth + extra) path name = fieldsOn models depth path name := by
  induction h with
  | undefined h => rw [fieldsOn_undefined h, fieldsOn_undefined h]
  | @seen depth path name key h hkey =>
    rw [Nat.add_right_comm, fieldsOn_seen h hkey, fieldsOn_seen h hkey]
  | @fields depth path name key h hkey hbases ih =>
    rw [Nat.add_right_comm]
    rcases hentries : entries? models key with _ | entries
    · rw [fieldsOn_plain h hkey hentries, fieldsOn_plain h hkey hentries]
    · have hsame : entryFields (fieldsOn models (depth + extra) (key :: path)) entries =
          entryFields (fieldsOn models depth (key :: path)) entries :=
        entryFields_congr fun base hbase => ih base ⟨entries, hentries, hbase⟩
      rw [fieldsOn_entries h hkey hentries, fieldsOn_entries h hkey hentries, hsame]

/-! ## Cycles -/

/-- What a path shows between two visits of a model is a cycle. -/
theorem Asked.isCycle {start : String} (h : Asked models start path name)
    (hroot : target? models start = some root) (htarget : target? models name = some key)
    (hkey : key ∈ path) :
    IsCycle models root ((path.takeWhile (· != key) ++ [key]).reverse ++ [key]) := by
  -- Read backwards, the cycle goes from the new visit down to the old one.
  obtain ⟨inner, rest, rfl, hinner⟩ := List.eq_append_cons_of_mem hkey
  have htake : (inner ++ key :: rest).takeWhile (· != key) = inner := by
    rw [List.takeWhile_append_of_pos fun k hk => by
      simpa using fun h : k = key => hinner (h ▸ hk)]
    simp
  have hreverse : (inner ++ [key]).reverse ++ [key] = (key :: (inner ++ [key])).reverse := by simp
  have hpath : key :: (inner ++ key :: rest) = key :: (inner ++ [key]) ++ rest := by simp
  have hnodup : (inner ++ [key]).Nodup := h.nodup.sublist (by simp)
  rw [htake]
  constructor
  · simp
  · rw [hreverse, List.head?_reverse, List.getLast?_reverse, ← List.cons_append,
      List.getLast?_concat]
    rfl
  · rw [List.dropLast_concat]
    exact List.nodup_reverse.2 hnodup
  · rw [hreverse, List.isChain_reverse]
    exact (hpath ▸ h.isChain htarget).left_of_append
  · intro key' hkey'
    rw [hreverse, List.mem_reverse] at hkey'
    refine h.reaches hroot htarget key' ?_
    rw [hpath]
    exact List.mem_append_left rest hkey'

theorem failsOnly_fieldsOn {start : String} (h : Asked models start path name)
    (hroot : target? models start = some root) :
    FailsOnly (fun e => (∃ c, e = .cycle c ∧ IsCycle models root c) ∨ Spoiled models root e)
      (fieldsOn models depth path name) := by
  induction depth generalizing path name with
  | zero => exact .ok none
  | succ depth ih =>
    rcases htarget : target? models name with _ | key
    · rw [fieldsOn_undefined htarget]
      exact .ok none
    by_cases hkey : key ∈ path
    · rw [fieldsOn_seen htarget hkey]
      exact .error (.inl ⟨_, rfl, h.isCycle hroot htarget hkey⟩)
    rcases hentries : entries? models key with _ | entries
    · rw [fieldsOn_plain htarget hkey hentries]
      exact .ok (some [])
    · rw [fieldsOn_entries htarget hkey hentries]
      have hreached := h.reaches hroot htarget key List.mem_cons_self
      refine .map (failsOnly_entryFields (fun base hbase => ?_) fun e he => ?_)
      · exact ih (.next h htarget hkey ⟨entries, hentries, hbase⟩)
      · exact .inr ⟨key, entries, hreached, hentries, he⟩

theorem IsCycle.transGen {c : List String} (h : IsCycle models root c) :
    ∃ key, ReflTransGen (Extends models) root key ∧ TransGen (Extends models) key key := by
  obtain ⟨hlength, hclosed, -, hjoined, hreached⟩ := h
  match c, hlength with
  | first :: second :: rest, _ =>
    obtain ⟨hedge, htail⟩ := List.isChain_cons_cons.1 hjoined
    have hlast : first = (second :: rest).getLast (List.cons_ne_nil _ _) := by
      rw [List.getLast?_cons_cons, List.getLast?_eq_some_getLast (List.cons_ne_nil _ _)] at hclosed
      exact Option.some.inj hclosed
    have hback : ReflTransGen (Extends models) second first :=
      List.relationReflTransGen_of_exists_isChain_cons rest htail hlast.symm
    exact ⟨first, hreached first List.mem_cons_self, .head' hedge hback⟩

/-- Fields that are collected to the end meet no model of the path and no cycle. -/
theorem Ends.acyclic (h : Ends models depth path name) {r : Option (List Field)}
    (hr : fieldsOn models depth path name = .ok r) (hroot : target? models name = some root)
    (hkey : ReflTransGen (Extends models) root key) :
    key ∉ path ∧ ¬ TransGen (Extends models) key key := by
  induction h generalizing r root key with
  | undefined h =>
    rw [h] at hroot
    cases hroot
  | seen h hseen =>
    rw [fieldsOn_seen h hseen] at hr
    cases hr
  | @fields depth path name root' h hnew hbases ih =>
    obtain rfl : root' = root := Option.some.inj (h.symm.trans hroot)
    -- A step from the root leads to a model whose fields were collected on the longer path.
    have hstep : ∀ base key, Extends models root' base → ReflTransGen (Extends models) base key →
        key ∉ root' :: path ∧ ¬ TransGen (Extends models) key key := by
      rintro base key ⟨name', ⟨entries, hentries, hname⟩, hbase⟩ hkey
      rw [fieldsOn_entries h hnew hentries] at hr
      obtain ⟨fs, hfs, -⟩ := Except.eq_ok_of_bind hr
      obtain ⟨r', hr'⟩ := ok_of_entryFields hfs hname
      exact ih name' ⟨entries, hentries, hname⟩ hr' hbase hkey
    rcases ReflTransGen.cases_head hkey with rfl | ⟨base, hedge, hkey⟩
    · refine ⟨hnew, fun hcycle => ?_⟩
      obtain ⟨base, hedge, hback⟩ := TransGen.head'_iff.1 hcycle
      exact (hstep base root' hedge hback).1 List.mem_cons_self
    · obtain ⟨hout, hacyclic⟩ := hstep base key hedge hkey
      exact ⟨fun hmem => hout (List.mem_cons_of_mem _ hmem), hacyclic⟩

/-! ## The fields of a model -/

theorem ends_of_length_lt (name : String) (h : models.length < depth) :
    Ends models depth [] name :=
  Asked.start.ends (by simpa using h)

theorem fieldsOn_of_length_lt (name : String) (h : models.length < depth) :
    fieldsOn models depth [] name = fields? models name := by
  obtain ⟨extra, rfl⟩ := Nat.exists_eq_add_of_lt h
  rw [Nat.add_right_comm]
  exact (ends_of_length_lt name (Nat.lt_succ_self _)).fieldsOn_add extra

theorem failsOnly_fields? (models : Mapping) (name : String) :
    FailsOnly (fun e => ∃ root, target? models name = some root ∧
      ((∃ c, e = .cycle c ∧ IsCycle models root c) ∨ Spoiled models root e))
      (fields? models name) := by
  rcases hroot : target? models name with _ | root
  · rw [fields?, fieldsOn_undefined hroot]
    exact .ok none
  · exact (failsOnly_fieldsOn .start hroot).mono fun e he => ⟨root, rfl, he⟩

theorem Spoiled.eq_long {e : ManifestError} (h : Spoiled models root e)
    (hmodels : (Value.map models).isAcyclic = true) : e = .long := by
  cases h.causes with
  | long _ => rfl
  | endless hcyclic => exact absurd hmodels (by simp [hcyclic])

/-- Whatever the depth, if it is more than the number of models, the fields of a model are collected
to the end. Collecting reports a cycle if and only if one can be reached, unless an integer of too
many digits stands in a model on the way and is met first; and what it reports is such a cycle. -/
theorem fields?_cycle_iff (models : Mapping) (name : String)
    (hmodels : (Value.map models).isAcyclic = true) :
    (∀ depth, models.length < depth → Ends models depth [] name ∧
      fieldsOn models depth [] name = fields? models name) ∧
    ((∃ c, fields? models name = .error (.cycle c)) ↔
      ReachesCycle models name ∧ fields? models name ≠ .error .long) ∧
    (fields? models name = .error .long →
      ∃ root, target? models name = some root ∧ Spoiled models root .long) ∧
    ∀ c, fields? models name = .error (.cycle c) →
      ∃ root, target? models name = some root ∧ IsCycle models root c := by
  have hcycle : ∀ c, fields? models name = .error (.cycle c) →
      ∃ root, target? models name = some root ∧ IsCycle models root c := by
    intro c hc
    obtain ⟨root, hroot, ⟨c', heq, hcycle⟩ | hspoiled⟩ := failsOnly_fields? models name _ hc
    · cases heq
      exact ⟨root, hroot, hcycle⟩
    · cases hspoiled.eq_long hmodels
  refine ⟨fun depth hlt => ⟨ends_of_length_lt name hlt, fieldsOn_of_length_lt name hlt⟩,
    ⟨?_, ?_⟩, ?_, hcycle⟩
  · rintro ⟨c, hc⟩
    obtain ⟨root, hroot, hiscycle⟩ := hcycle c hc
    obtain ⟨key, hreached, hkey⟩ := hiscycle.transGen
    exact ⟨⟨root, key, hroot, hreached, hkey⟩, by rw [hc]; nofun⟩
  · rintro ⟨⟨root, key, hroot, hreached, hkey⟩, hlong⟩
    rcases hr : fields? models name with e | r
    · obtain ⟨root', -, ⟨c, rfl, -⟩ | hspoiled⟩ := failsOnly_fields? models name e hr
      · exact ⟨c, rfl⟩
      · rw [hspoiled.eq_long hmodels] at hr
        exact absurd hr hlong
    -- Without an error no model that can be reached leads back to itself.
    · have hends : Ends models (models.length + 1) [] name :=
        ends_of_length_lt name (Nat.lt_succ_self _)
      exact absurd hkey (hends.acyclic hr hroot hreached).2
  · intro hlong
    obtain ⟨root, hroot, ⟨c, hc, -⟩ | hspoiled⟩ := failsOnly_fields? models name _ hlong
    · cases hc
    · exact ⟨root, hroot, hspoiled⟩

/-- Two models that extend each other, one of them by a name in the plural. -/
def mutualModels : Mapping :=
  [(.text "User", .map [(extendsKey, .text "Accounts")]),
   (.text "Account", .map [(extendsKey, .text "User")])]

theorem fields?_mutualModels : (Value.map mutualModels).isAcyclic = true ∧
    fields? mutualModels "Users" = .error (.cycle ["User", "Account", "User"]) ∧
    ReachesCycle mutualModels "Users" :=
  have hacyclic : (Value.map mutualModels).isAcyclic = true := by decide
  have hcycle : fields? mutualModels "Users" = .error (.cycle ["User", "Account", "User"]) := by
    decide
  ⟨hacyclic, hcycle, ((fields?_cycle_iff mutualModels "Users" hacyclic).2.1.1 ⟨_, hcycle⟩).1⟩

/-- A model that extends itself after a field of too many digits. -/
def longModels : Mapping :=
  [(.text "User", .map [(.text "id", .tooLong), (extendsKey, .text "User")])]

theorem fields?_longModels : (Value.map longModels).isAcyclic = true ∧
    ReachesCycle longModels "User" ∧ fields? longModels "User" = .error .long := by
  have hlists : Lists [(.text "id", .tooLong), (extendsKey, .text "User")] "User" :=
    ⟨.text "User", "User", List.mem_cons_of_mem _ List.mem_cons_self, by decide,
      by decide⟩
  have hroot : target? longModels "User" = some "User" := by decide
  have hedge : Extends longModels "User" "User" := ⟨"User", ⟨_, rfl, hlists⟩, hroot⟩
  exact ⟨by decide, ⟨"User", "User", hroot, .refl, .single hedge⟩, by decide +kernel⟩

end FlowPipeline.Model
