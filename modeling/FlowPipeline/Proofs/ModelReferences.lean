import FlowPipeline.Flow.Issue
import FlowPipeline.Proofs.NormalizedFlows
import FlowPipeline.Proofs.TextParts

/-! # References to models

A flow names the models that it returns, and a model names those that it extends. A returned name
that stands for nothing is an issue of its flow. A base that stands for nothing has no fields and is
no issue: the manifest is read as if the directive left it out.
-/

namespace FlowPipeline

/-! ## Directives without some of their names -/

namespace Text

/-- The name that a part of a list stands for; blanks name nothing. -/
def named? (part : List Char) : Option String :=
  if (trimChars part).isEmpty then none else some (String.ofList (trimChars part))

theorem listed_eq (s : String) : listed s = (parts ',' s.toList).filterMap named? := by
  rw [listed, List.filterMap_map]
  rfl

/-- The text with those of its listed names for which `keep` holds. -/
def listing (keep : String → Bool) (s : String) : String :=
  String.ofList ([','].intercalate
    ((parts ',' s.toList).filter fun part => (named? part).any keep))

theorem listed_listing (keep : String → Bool) (s : String) :
    listed (listing keep s) = (listed s).filter keep := by
  have hkept : (listed s).filter keep =
      ((parts ',' s.toList).filter fun part => (named? part).any keep).filterMap named? := by
    rw [listed_eq, List.filter_filterMap, List.filterMap_filter]
    congr 1
    funext part
    rcases named? part with _ | name
    · simp
    · cases hname : keep name <;> simp [hname]
  rw [hkept, listed_eq, listing, String.toList_ofList]
  rcases hparts : (parts ',' s.toList).filter fun part => (named? part).any keep with _ | ⟨p, ps⟩
  · decide
  · rw [parts_intercalate (fun part hpart => ?_) (List.cons_ne_nil p ps)]
    rw [← hparts] at hpart
    exact notMem_of_mem_parts (List.mem_filter.1 hpart).1

end Text

namespace Model

/-! ## Names that stand for something -/

/-- A name is that of a primitive type, or of a model with or without an `s` at its end. -/
def IsKnown (models : Mapping) (name : String) : Prop :=
  name ∈ FieldType.primitives ∨ (Mapping.find? name models).isSome = true ∨
    ∃ singular, name = singular ++ "s" ∧ (Mapping.find? singular models).isSome = true

/-- A name stands for a model that names `base` in its directive. -/
def Refers (models : Mapping) (name base : String) : Prop :=
  ∃ key, target? models name = some key ∧ Names models key base

variable {models entries : Mapping} {name base key : String}

theorem singular_iff {singular : String} : name = singular ++ "s" ↔
    name.toList.getLast? = some 's' ∧ String.ofList name.toList.dropLast = singular := by
  constructor
  · rintro rfl
    simp
  · rintro ⟨hlast, rfl⟩
    obtain ⟨cs, hcs⟩ := List.getLast?_eq_some_iff.1 hlast
    refine String.toList_inj.1 ?_
    simp [hcs]

theorem key?_isSome_iff : (key? models name).isSome = true ↔
    (Mapping.find? name models).isSome = true ∨
      ∃ singular, name = singular ++ "s" ∧ (Mapping.find? singular models).isSome = true := by
  rw [key?]
  split_ifs with hname hsingular
  · exact iff_of_true rfl (.inl hname)
  · exact iff_of_true rfl (.inr ⟨_, singular_iff.2 ⟨hsingular.1, rfl⟩, hsingular.2⟩)
  · refine iff_of_false (by simp) (not_or.2 ⟨hname, ?_⟩)
    rintro ⟨singular, heq, hmodel⟩
    obtain ⟨hlast, rfl⟩ := singular_iff.1 heq
    exact hsingular ⟨hlast, hmodel⟩

theorem isKnown_iff : IsKnown models name ↔
    name ∈ FieldType.primitives ∨ (key? models name).isSome = true := by
  rw [IsKnown, key?_isSome_iff]

instance (models : Mapping) (name : String) : Decidable (IsKnown models name) :=
  decidable_of_iff _ isKnown_iff.symm

/-- Whether a name is known. -/
def knows (models : Mapping) (name : String) : Bool := decide (IsKnown models name)

theorem target?_of_not_isKnown (h : ¬IsKnown models name) : target? models name = none := by
  rw [isKnown_iff, not_or, Option.not_isSome_iff_eq_none] at h
  rw [target?, if_neg (mt List.contains_iff_mem.1 h.1), h.2]

/-! ## Models without dangling bases -/

/-- The value of a directive with those of its names for which `keep` holds. -/
def keptNames (keep : String → Bool) (v : Value) : Value :=
  match v.written with
  | .ok text => .text (Text.listing keep text)
  | .error _ => v

/-- The entries of a model whose directive has only names for which `keep` holds. -/
def keptBases (keep : String → Bool) (entries : Mapping) : Mapping :=
  entries.map fun entry =>
    (entry.1, if entry.1 = extendsKey then keptNames keep entry.2 else entry.2)

/-- The model whose directive has only names for which `keep` holds. -/
def keptModel (keep : String → Bool) (v : Value) : Value :=
  match v.mapping? with
  | some entries => .map (keptBases keep entries)
  | none => v

/-- The models with directives that have only names of known models. -/
def withoutDangling (models : Mapping) : Mapping :=
  models.map fun kv => (kv.1, keptModel (knows models) kv.2)

section Kept

variable {keep : String → Bool} {f : String → Except ManifestError (Option (List Field))}

theorem written_keptNames (keep : String → Bool) (v : Value) :
    (keptNames keep v).written = Text.listing keep <$> v.written := by
  unfold keptNames
  rcases hv : v.written with e | text
  · exact hv
  · rfl

theorem mapping?_keptModel (keep : String → Bool) (v : Value) :
    (keptModel keep v).mapping? = v.mapping?.map (keptBases keep) := by
  unfold keptModel
  rcases hv : v.mapping? with _ | entries
  · exact hv
  · rfl

theorem lists_keptBases : Lists (keptBases keep entries) base ↔
    Lists entries base ∧ keep base = true := by
  constructor
  · rintro ⟨v, text, hv, htext, hbase⟩
    obtain ⟨⟨k, w⟩, hw, heq⟩ := List.mem_map.1 hv
    obtain ⟨rfl, rfl⟩ := Prod.mk.inj heq
    rw [if_pos rfl, written_keptNames] at htext
    rcases hw' : w.written with e | text'
    · rw [hw'] at htext
      cases htext
    · rw [hw'] at htext
      cases htext
      rw [Text.listed_listing, List.mem_filter] at hbase
      exact ⟨⟨w, text', hw, hw', hbase.1⟩, hbase.2⟩
  · rintro ⟨⟨v, text, hv, htext, hbase⟩, hkeep⟩
    refine ⟨keptNames keep v, Text.listing keep text, ?_, ?_, ?_⟩
    · exact List.mem_map.2 ⟨_, hv, by rw [if_pos rfl]⟩
    · rw [written_keptNames, htext]
      rfl
    · rw [Text.listed_listing]
      exact List.mem_filter.2 ⟨hbase, hkeep⟩

/-- Names that stand for nothing have no fields. -/
theorem allFields_filter (hkeep : ∀ name, keep name = false → f name = .ok none)
    (names : List String) : allFields f (names.filter keep) = allFields f names := by
  induction names with
  | nil => rfl
  | cons name names ih =>
    cases hname : keep name
    · rw [List.filter_cons_of_neg (by simp [hname]), allFields, hkeep name hname, ih]
      rcases allFields f names with e | fs <;> rfl
    · rw [List.filter_cons_of_pos hname, allFields, allFields, ih]

theorem entryFields_keptBases (hkeep : ∀ name, keep name = false → f name = .ok none)
    (entries : Mapping) : entryFields f (keptBases keep entries) = entryFields f entries := by
  induction entries with
  | nil => rfl
  | cons entry entries ih =>
    obtain ⟨k, v⟩ := entry
    have hown :
        ownFields f k (if k = extendsKey then keptNames keep v else v) = ownFields f k v := by
      unfold ownFields
      split_ifs with hk
      · rw [written_keptNames]
        rcases v.written with e | text
        · rfl
        · simp only [Functor.map, Except.map, bind, Except.bind]
          rw [Text.listed_listing, allFields_filter hkeep]
      · rfl
    rw [keptBases, List.map_cons, entryFields_cons, entryFields_cons, hown, ← keptBases, ih]

end Kept

section WithoutDangling

theorem find?_map (g : Value → Value) (m : Mapping) (name : String) :
    Mapping.find? name (m.map fun kv => (kv.1, g kv.2)) = (Mapping.find? name m).map g := by
  induction m with
  | nil => rfl
  | cons kv m ih =>
    rw [List.map_cons, Mapping.find?, Mapping.find?]
    split_ifs
    · rfl
    · exact ih

theorem find?_withoutDangling : Mapping.find? name (withoutDangling models) =
    (Mapping.find? name models).map (keptModel (knows models)) :=
  find?_map _ models name

theorem target?_withoutDangling : target? (withoutDangling models) name = target? models name := by
  simp only [target?, key?, find?_withoutDangling, Option.isSome_map]

theorem entries?_withoutDangling : entries? (withoutDangling models) key =
    (entries? models key).map (keptBases (knows models)) := by
  rw [entries?, Mapping.get, find?_withoutDangling]
  rw [entries?, Mapping.get]
  rcases Mapping.find? key models with _ | v
  · rfl
  · exact mapping?_keptModel _ v

/-- The directives are the same, but that they name no models that are not known. -/
theorem refers_withoutDangling :
    Refers (withoutDangling models) name base ↔ Refers models name base ∧ IsKnown models base := by
  constructor
  · rintro ⟨key, htarget, entries, hentries, hbase⟩
    rw [entries?_withoutDangling] at hentries
    obtain ⟨own, hown, rfl⟩ := Option.map_eq_some_iff.1 hentries
    obtain ⟨hlists, hknown⟩ := lists_keptBases.1 hbase
    exact ⟨⟨key, target?_withoutDangling.symm.trans htarget, own, hown, hlists⟩,
      of_decide_eq_true hknown⟩
  · rintro ⟨⟨key, htarget, entries, hentries, hbase⟩, hknown⟩
    refine ⟨key, target?_withoutDangling.trans htarget, keptBases (knows models) entries, ?_,
      lists_keptBases.2 ⟨hbase, decide_eq_true hknown⟩⟩
    rw [entries?_withoutDangling, hentries, Option.map_some]

theorem fieldsOn_withoutDangling (depth : Nat) (path : List String) (name : String) :
    fieldsOn (withoutDangling models) depth path name = fieldsOn models depth path name := by
  induction depth generalizing path name with
  | zero => rfl
  | succ depth ih =>
    rcases htarget : target? models name with _ | key
    · rw [fieldsOn_undefined htarget, fieldsOn_undefined (target?_withoutDangling.trans htarget)]
    rw [fieldsOn_succ htarget, fieldsOn_succ (target?_withoutDangling.trans htarget),
      entries?_withoutDangling]
    rcases entries? models key with _ | entries
    · rfl
    · have hsame : entryFields (fieldsOn (withoutDangling models) depth (key :: path))
          (keptBases (knows models) entries) =
          entryFields (fieldsOn models depth (key :: path)) entries := by
        rw [entryFields_congr fun base _ => ih (key :: path) base]
        refine entryFields_keptBases (fun base hbase => fieldsOn_undefined ?_) entries
        exact target?_of_not_isKnown (of_decide_eq_false hbase)
      simp only [Option.map_some, hsame]

theorem fields?_withoutDangling : fields? (withoutDangling models) name = fields? models name := by
  rw [fields?, fields?, fieldsOn_withoutDangling, withoutDangling, List.length_map]

end WithoutDangling

/-- The fields of a name that are collected are those of a model. -/
theorem isSome_of_fields? {r : Option (List Field)} (h : fields? models name = .ok r) :
    r.isSome = (target? models name).isSome := by
  rw [fields?] at h
  rcases htarget : target? models name with _ | key
  · rw [fieldsOn_undefined htarget] at h
    cases h
    rfl
  rcases hentries : entries? models key with _ | entries
  · rw [fieldsOn_plain htarget List.not_mem_nil hentries] at h
    cases h
    rfl
  · rw [fieldsOn_entries htarget List.not_mem_nil hentries] at h
    obtain ⟨fs, -, h⟩ := Except.eq_ok_of_bind h
    cases h
    rfl

theorem isKnown_iff_of_fields? {r : Option (List Field)} (h : fields? models name = .ok r) :
    (r.isSome || FieldType.primitives.contains name) = true ↔ IsKnown models name := by
  have hmem : FieldType.primitives.contains name = true ↔ name ∈ FieldType.primitives :=
    List.contains_iff_mem
  rw [isSome_of_fields? h, isKnown_iff, ← hmem, Bool.or_eq_true, target?]
  split_ifs with hprimitive
  · exact iff_of_true (.inr hprimitive) (.inl hprimitive)
  · exact or_comm

end Model

namespace Flow

variable {models models' : Mapping}

theorem returnedOf_congr (h : ∀ name, Model.fields? models' name = Model.fields? models name)
    (names : List String) : returnedOf models' names = returnedOf models names := by
  induction names with
  | nil => rfl
  | cons name names ih => rw [returnedOf, returnedOf, h name, ih]

theorem ofEntries_congr (h : ∀ name, Model.fields? models' name = Model.fields? models name)
    (name : String) (definition : Mapping) :
    ofEntries name definition models' = ofEntries name definition models := by
  unfold ofEntries
  simp only [returnedOf_congr h]

theorem mem_returnedOf {names : List String} {rs : List Returned}
    (h : returnedOf models names = .ok rs) :
    rs.map Returned.name = names ∧
      ∀ r ∈ rs, r.resolved = true ↔ Model.IsKnown models r.name := by
  obtain ⟨hnames, hrs⟩ := returnedOf_eq_ok h
  refine ⟨hnames, fun r hr => ?_⟩
  obtain ⟨fields, hfields, -, hresolved⟩ := hrs r hr
  rw [hresolved]
  exact Model.isKnown_iff_of_fields? hfields

theorem undefinedModel_mem_issues {f : Flow} {name : String} :
    .undefinedModel name ∈ f.issues ↔ name ∈ f.unresolved := by
  unfold issues
  split_ifs <;> simp

/-- The names that a flow returns in vain. -/
theorem mem_unresolved {f : Flow} (h : returnedOf models f.returns = .ok f.models) {name : String} :
    name ∈ f.unresolved ↔ name ∈ f.returns ∧ ¬Model.IsKnown models name := by
  obtain ⟨hnames, hknown⟩ := mem_returnedOf h
  rw [unresolved, ← hnames]
  constructor
  · intro hname
    obtain ⟨r, hr, rfl⟩ := List.mem_map.1 hname
    obtain ⟨hr, hresolved⟩ := List.mem_filter.1 hr
    exact ⟨List.mem_map_of_mem hr, fun hisknown => by simp [(hknown r hr).2 hisknown] at hresolved⟩
  · rintro ⟨hname, hunknown⟩
    obtain ⟨r, hr, rfl⟩ := List.mem_map.1 hname
    refine List.mem_map_of_mem (List.mem_filter.2 ⟨hr, ?_⟩)
    simpa using mt (hknown r hr).1 hunknown

end Flow

namespace Normalizing

variable {models models' : Mapping}

theorem flows_congr (h : ∀ name, Model.fields? models' name = Model.fields? models name)
    (seen : List String) (entries : Mapping) :
    flows models' seen entries = flows models seen entries := by
  induction entries generalizing seen with
  | nil => rfl
  | cons entry entries ih =>
    obtain ⟨k, v⟩ := entry
    rcases hprovider : isProvider (k, v) with _ | _
    · simp only [flows_cons hprovider, flow_eq, Flow.ofEntries_congr h, ih]
    · rw [flows_cons_provider hprovider, flows_cons_provider hprovider, ih]

theorem integrations_congr (h : ∀ name, Model.fields? models' name = Model.fields? models name)
    (seen : List String) (es : Mapping) :
    integrations models' seen es = integrations models seen es := by
  induction es generalizing seen with
  | nil => rfl
  | cons entry es ih =>
    obtain ⟨k, v⟩ := entry
    simp only [integrations_cons, flows_congr h, ih]

end Normalizing

/-! ## Issues of references -/

namespace Manifest

/-- The manifest in which no model extends one that is not known. -/
def withoutDangling (m : Manifest) : Manifest :=
  { m with models := Model.withoutDangling m.models }

theorem normalize_withoutDangling (m : Manifest) : m.withoutDangling.normalize = m.normalize :=
  Normalizing.integrations_congr (fun _ => Model.fields?_withoutDangling) [] m.integrations

theorem exists_of_mem_right {α β : Type} {R : α → β → Prop} {as : List α} {bs : List β} {b : β}
    (h : List.Forall₂ R as bs) (hb : b ∈ bs) : ∃ a ∈ as, R a b := by
  induction h with
  | nil => cases hb
  | cons hab hrest ih =>
    rcases List.mem_cons.1 hb with rfl | hb
    · exact ⟨_, List.mem_cons_self, hab⟩
    · obtain ⟨a, ha, hab⟩ := ih hb
      exact ⟨a, List.mem_cons_of_mem _ ha, hab⟩

namespace IsNormalized

variable {m : Manifest} {is : List Integration} {f : Flow}

/-- Every flow is described by an entry. -/
theorem exists_entry (h : m.IsNormalized is) (hf : f ∈ is.flatMap Integration.flows) :
    ∃ entry, Normalizing.IsFlowOf m.models entry f := by
  obtain ⟨i, hi, hf⟩ := List.mem_flatMap.1 hf
  obtain ⟨entry, -, hof⟩ := exists_of_mem_right h.sections hi
  obtain ⟨entries, fs, -, hfs, hsyncs, hactions⟩ := hof.flows
  obtain ⟨entry, -, hof⟩ :=
    exists_of_mem_right hfs ((Normalizing.flows_perm hsyncs hactions).mem_iff.1 hf)
  exact ⟨entry, hof⟩

/-- The issues under the name of a flow are those of the flow. -/
theorem mem_issues (h : m.IsNormalized is) (hf : f ∈ is.flatMap Integration.flows) {i : Issue} :
    (f.name, i) ∈ Integration.issues is ↔ i ∈ f.issues := by
  rw [Integration.issues, List.mem_flatMap]
  constructor
  · rintro ⟨g, hg, hi⟩
    obtain ⟨i', hi', heq⟩ := List.mem_map.1 hi
    obtain ⟨hname, rfl⟩ := Prod.mk.inj heq
    rwa [← List.inj_on_of_nodup_map h.distinct hg hf hname]
  · exact fun hi => ⟨f, hf, List.mem_map_of_mem hi⟩

theorem undefinedModel_mem_issues (h : m.IsNormalized is) (hf : f ∈ is.flatMap Integration.flows)
    {name : String} : (f.name, .undefinedModel name) ∈ Integration.issues is ↔
      name ∈ f.returns ∧ ¬Model.IsKnown m.models name := by
  obtain ⟨entry, hof⟩ := h.exists_entry hf
  rw [h.mem_issues hf, Flow.undefinedModel_mem_issues,
    Flow.mem_unresolved (Flow.isReadFrom_of_ofEntries hof.described).models]

end IsNormalized

open Model (IsKnown Refers)
open Relation (ReflTransGen)

/-- A manifest is read as if its directives named no models that are not known. So issues vouch for
the names that flows return, and for those that are reached from them in that other manifest; a name
that is not known is an issue if a flow returns it, and only then. -/
theorem normalize_references (m : Manifest) :
    m.withoutDangling.normalize = m.normalize ∧
    (∀ name base, Refers m.withoutDangling.models name base ↔
      Refers m.models name base ∧ IsKnown m.models base) ∧
    ∀ log is, (m.normalize.run log).1 = .ok is →
      (∀ f ∈ is.flatMap Integration.flows, ∀ name,
        (f.name, .undefinedModel name) ∈ Integration.issues is ↔
          name ∈ f.returns ∧ ¬IsKnown m.models name) ∧
      (Integration.issues is = [] → ∀ f ∈ is.flatMap Integration.flows, ∀ name ∈ f.returns,
        ∀ base, ReflTransGen (Refers m.withoutDangling.models) name base →
          IsKnown m.models base) := by
  refine ⟨normalize_withoutDangling m, fun name base => Model.refers_withoutDangling, ?_⟩
  intro log is his
  have hnormalized : m.IsNormalized is := .of_run his
  refine ⟨fun f hf name => hnormalized.undefinedModel_mem_issues hf, ?_⟩
  intro hnone f hf name hname base hbase
  rcases ReflTransGen.cases_tail hbase with rfl | ⟨last, -, hrefers⟩
  · by_contra hunknown
    have hmem := (hnormalized.undefinedModel_mem_issues hf).2 ⟨hname, hunknown⟩
    rw [hnone] at hmem
    cases hmem
  · exact (Model.refers_withoutDangling.1 hrefers).2

/-- The manifest of a sync that returns a model with a base that nothing defines. -/
def danglingBase : Manifest where
  integrations := [(.text "github", .map [(.text "users",
    .map [(.text "runs", .text "every hour"), (.text "returns", .text "User")])])]
  models := [(.text "User", .map [(.text "__extends", .text "Missing"),
    (.text "id", .text "integer")])]
  text := ""

theorem refers_danglingBase : Refers danglingBase.models "User" "Missing" := by
  refine ⟨"User", by decide, _, rfl, .text "Missing", "Missing", ?_, ?_, ?_⟩
  · exact List.mem_cons_self
  · decide
  · decide

theorem normalize_danglingBase : ∃ is, (danglingBase.normalize.run []).1 = .ok is ∧
    Integration.issues is = [] ∧ ∃ f ∈ is.flatMap Integration.flows, f.returns = ["User"] := by
  have hissues : (danglingBase.normalize.run []).1.map (fun is => (Integration.issues is,
      (is.flatMap Integration.flows).map fun f => f.returns)) = .ok ([], [["User"]]) := by
    decide
  rcases hr : (danglingBase.normalize.run []).1 with e | is
  · rw [hr] at hissues
    cases hissues
  · rw [hr] at hissues
    obtain ⟨hnone, hreturns⟩ := Prod.mk.inj (Except.ok.inj hissues)
    exact ⟨is, rfl, hnone, List.mem_map.1 (hreturns ▸ List.mem_singleton_self ["User"])⟩

theorem normalize_references_dangling :
    (∃ is, (danglingBase.normalize.run []).1 = .ok is ∧ Integration.issues is = [] ∧
      ∃ f ∈ is.flatMap Integration.flows, f.returns = ["User"] ∧
        IsKnown danglingBase.models "User") ∧
    ¬Refers danglingBase.withoutDangling.models "User" "Missing" := by
  obtain ⟨-, hrefers, hread⟩ := normalize_references danglingBase
  refine ⟨?_, fun h => absurd ((hrefers _ _).1 h).2 (by decide)⟩
  obtain ⟨is, his, hnone, f, hf, hreturns⟩ := normalize_danglingBase
  have huser : "User" ∈ f.returns := hreturns ▸ List.mem_singleton_self "User"
  exact ⟨is, his, hnone, f, hf, hreturns, (hread [] is his).2 hnone f hf "User" huser "User" .refl⟩

/-- A base that nothing defines is no issue. -/
theorem not_reported_dangling :
    ∃ is, (danglingBase.normalize.run []).1 = .ok is ∧ Integration.issues is = [] ∧
      (∃ f ∈ is.flatMap Integration.flows, "User" ∈ f.returns) ∧
      ReflTransGen (Refers danglingBase.models) "User" "Missing" ∧
      ¬IsKnown danglingBase.models "Missing" := by
  obtain ⟨is, his, hnone, f, hf, hreturns⟩ := normalize_danglingBase
  exact ⟨is, his, hnone, ⟨f, hf, hreturns ▸ List.mem_singleton_self "User"⟩,
    .single refers_danglingBase, by decide⟩

end Manifest
end FlowPipeline
