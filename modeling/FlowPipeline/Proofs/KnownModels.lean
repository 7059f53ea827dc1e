import FlowPipeline.Proofs.LintFindings
import FlowPipeline.Proofs.ModelReferences

/-! # The models that scripts may name

A script may name the models that flows return. The manifest defines these, but for the primitive
types: they can be returned too, and count as resolved, so that a script may save records as if such
a type were a model.
-/

namespace FlowPipeline

/-- The manifest defines a model of the name, and its fields can be collected. -/
def Model.IsDefined (models : Mapping) (name : String) : Prop :=
  ∃ fs, fields? models name = .ok (some fs)

/-- Something in a script saves or deletes records of the model of a name. -/
def Lint.Saves (t : Script.Tree) (model : String) : Prop :=
  ∃ a line call types args,
    t.at? a = some (.call line (.member (.identifier "nango") (some call)) types args) ∧
      call ∈ ["batchSave", "batchDelete"] ∧ args.getLast? = some (.literal model)

/-! ## Names that are collected -/

theorem List.mem_foldl_insert {names acc : List String} {name : String} :
    name ∈ names.foldl (fun acc n => if acc.contains n then acc else acc ++ [n]) acc ↔
      name ∈ acc ∨ name ∈ names := by
  induction names generalizing acc with
  | nil => simp
  | cons n names ih =>
    rw [List.foldl_cons, ih, List.mem_cons]
    split_ifs with hn
    · have hmem : n ∈ acc := List.contains_iff_mem.1 hn
      constructor
      · exact Or.imp_right .inr
      · rintro (h | rfl | h)
        · exact .inl h
        · exact .inl hmem
        · exact .inr h
    · rw [List.mem_append, List.mem_singleton, or_assoc]

theorem Integration.mem_modelNames {is : List Integration} {name : String} :
    name ∈ modelNames is ↔
      ∃ f ∈ is.flatMap flows, ∃ r ∈ f.models, r.resolved = true ∧ r.name = name := by
  rw [modelNames, List.mem_foldl_insert, List.mem_flatMap]
  simp only [List.not_mem_nil, false_or, List.mem_map, List.mem_filter, and_assoc]

/-! ## Names that are resolved -/

namespace Flow

variable {models : Mapping} {names : List String} {name : String} {f : Flow}

/-- Whatever a flow returns, its fields have been asked for. -/
theorem fields?_of_returnedOf {rs : List Returned} (h : returnedOf models names = .ok rs)
    (hname : name ∈ names) : ∃ r, Model.fields? models name = .ok r := by
  obtain ⟨rfl, hrs⟩ := returnedOf_eq_ok h
  obtain ⟨r, hr, rfl⟩ := List.mem_map.1 hname
  obtain ⟨fields, hfields, -⟩ := hrs r hr
  exact ⟨fields, hfields⟩

theorem isKnown_iff_of_returnedOf {rs : List Returned} (h : returnedOf models names = .ok rs)
    (hname : name ∈ names) :
    Model.IsKnown models name ↔ name ∈ FieldType.primitives ∨ Model.IsDefined models name := by
  obtain ⟨r, hr⟩ := fields?_of_returnedOf h hname
  rw [← Model.isKnown_iff_of_fields? hr, Bool.or_eq_true, List.contains_iff_mem, or_comm,
    Model.IsDefined, hr, Option.isSome_iff_exists]
  simp only [Except.ok.injEq]

end Flow

/-! ## Names in manifests and in scripts -/

namespace Manifest

variable {m : Manifest} {is : List Integration} {log : Log}

/-- The names of models are those that flows return and that stand for something. -/
theorem IsNormalized.mem_modelNames (h : m.IsNormalized is) {name : String} :
    name ∈ Integration.modelNames is ↔ (∃ f ∈ is.flatMap Integration.flows, name ∈ f.returns) ∧
      (name ∈ FieldType.primitives ∨ Model.IsDefined m.models name) := by
  have hreturned {f : Flow} (hf : f ∈ is.flatMap Integration.flows) :
      Flow.returnedOf m.models f.returns = .ok f.models := by
    obtain ⟨entry, hof⟩ := h.exists_entry hf
    exact (Flow.isReadFrom_of_ofEntries hof.described).models
  rw [Integration.mem_modelNames]
  constructor
  · rintro ⟨f, hf, r, hr, hresolved, rfl⟩
    obtain ⟨hnames, hknown⟩ := Flow.mem_returnedOf (hreturned hf)
    have hname : r.name ∈ f.returns := hnames ▸ List.mem_map_of_mem hr
    exact ⟨⟨f, hf, hname⟩,
      (Flow.isKnown_iff_of_returnedOf (hreturned hf) hname).1 ((hknown r hr).1 hresolved)⟩
  · rintro ⟨⟨f, hf, hname⟩, hdefined⟩
    obtain ⟨hnames, hknown⟩ := Flow.mem_returnedOf (hreturned hf)
    have hisknown := (Flow.isKnown_iff_of_returnedOf (hreturned hf) hname).2 hdefined
    rw [← hnames] at hname
    obtain ⟨r, hr, rfl⟩ := List.mem_map.1 hname
    exact ⟨f, hf, r, hr, (hknown r hr).2 hisknown, rfl⟩

end Manifest

namespace Lint

variable {source type label : String} {models : List String} {t : Script.Tree} {r : Report}

theorem encoded_of_lint (h : lint source type models label = .ok r) :
    ∃ bytes, Text.Utf8.encoded source = .ok bytes := by
  unfold lint at h
  obtain ⟨bytes, hbytes, -⟩ := Except.eq_ok_of_bind h
  rcases hs : Text.Utf8.encoded source with e | bytes
  · rw [hs] at hbytes
    cases hbytes
  · exact ⟨bytes, rfl⟩

/-- A script that may be compiled saves records of models that it may name. -/
theorem Saves.mem_models {model : String} (h : Saves t model) (ht : Script.parse source = .ok t)
    (hr : lint source type models label = .ok r) (heligible : r.isEligible = true) :
    model ∈ models := by
  obtain ⟨a, line, call, types, args, hat, hcall, hlast⟩ := h
  obtain ⟨bytes, hbytes⟩ := encoded_of_lint hr
  rw [lint_eq hbytes ht type models label] at hr
  by_contra hmodel
  have herror := error_mem_diagnosticsOf_iff.2 ⟨a, _, hat,
    (.unknownModel hcall hlast hmodel : IsMisuse type models _)⟩
  rw [Report.isEligible_eq_false_iff.2 (Except.ok.inj hr ▸ herror)] at heligible
  cases heligible

end Lint

namespace Manifest
open Lint (Saves)

variable {m : Manifest} {is : List Integration} {log : Log}

/-- A name is known to scripts exactly if a flow returns it and it is the name of a primitive type
or of a model with fields. So the script of a flow saves records of no other models. -/
theorem known_iff_defined (h : (m.normalize.run log).1 = .ok is) :
    (∀ name, name ∈ Integration.modelNames is ↔
      (∃ f ∈ is.flatMap Integration.flows, name ∈ f.returns) ∧
        (name ∈ FieldType.primitives ∨ Model.IsDefined m.models name)) ∧
    ∀ source t type label r, Script.parse source = .ok t →
      Lint.lint source type (Integration.modelNames is) label = .ok r → r.isEligible = true →
        ∀ model, Saves t model →
          model ∈ FieldType.primitives ∨ Model.IsDefined m.models model := by
  have hnormalized : m.IsNormalized is := .of_run h
  refine ⟨fun name => hnormalized.mem_modelNames, ?_⟩
  intro source t type label r ht hr heligible model hsaves
  exact (hnormalized.mem_modelNames.1 (hsaves.mem_models ht hr heligible)).2

/-! ## A flow that returns a primitive type -/

/-- The manifest of a sync that returns a model and texts. -/
def mixedReturns : Manifest where
  integrations := [(.text "github", .map [(.text "users", .map [(.text "runs", .text "every hour"),
    (.text "returns", .list [.text "User", .text "string"])])])]
  models := [(.text "User", .map [(.text "id", .text "integer")])]
  text := ""

/-- A script that saves texts as records. -/
def saving : String := "await nango.batchSave([],\"string\")"

def savingTree : Script.Tree :=
  let call : Script.Tree := .call 1 (.member (.identifier "nango") (some "batchSave")) .empty
    [.empty, .literal "string"]
  .group [.group [.group [.group [.await call, .empty]]]]

theorem saves_savingTree : Saves savingTree "string" :=
  ⟨[0, 0, 0, 0, 0], 1, "batchSave", _, _, rfl, List.mem_cons_self, rfl⟩

theorem parse_saving : Script.parse saving = .ok savingTree := by
  have hparse : (Script.parse saving).toOption = some savingTree := by decide +kernel
  exact Except.eq_ok_of_toOption hparse

theorem normalize_mixedReturns : ∃ is, (mixedReturns.normalize.run []).1 = .ok is ∧
    Integration.modelNames is = ["User", "string"] := by
  have hnames : (mixedReturns.normalize.run []).1.toOption.map Integration.modelNames =
      some ["User", "string"] := by
    decide
  obtain ⟨is, his, hnames⟩ := Option.map_eq_some_iff.1 hnames
  exact ⟨is, Except.eq_ok_of_toOption his, hnames⟩

theorem lint_saving : ∃ r, Lint.lint saving "sync" ["User", "string"] "users.ts" = .ok r ∧
    r.isEligible = true := by
  have hbytes : (Text.Utf8.encoded saving).toOption.isSome = true := by decide
  have hnone : Lint.diagnosticsOf false ["User", "string"] savingTree = [] := by decide
  rcases hb : Text.Utf8.encoded saving with e | bytes
  · rw [hb] at hbytes
    cases hbytes
  · refine ⟨_, Lint.lint_eq hb parse_saving "sync" ["User", "string"] "users.ts", ?_⟩
    simp [Lint.Report.isEligible, Lint.Report.errors, FlowKind.name, hnone]

theorem known_iff_defined_mixed : ∃ is r, (mixedReturns.normalize.run []).1 = .ok is ∧
    ("User" ∈ Integration.modelNames is ↔
      (∃ f ∈ is.flatMap Integration.flows, "User" ∈ f.returns) ∧
        ("User" ∈ FieldType.primitives ∨ Model.IsDefined mixedReturns.models "User")) ∧
    Lint.lint saving "sync" (Integration.modelNames is) "users.ts" = .ok r ∧
      r.isEligible = true ∧ Saves savingTree "string" ∧
      ("string" ∈ FieldType.primitives ∨ Model.IsDefined mixedReturns.models "string") := by
  obtain ⟨is, his, hnames⟩ := normalize_mixedReturns
  obtain ⟨r, hr, heligible⟩ := lint_saving
  rw [← hnames] at hr
  obtain ⟨hknown, hsaves⟩ := known_iff_defined his
  exact ⟨is, r, his, hknown "User", hr, heligible, saves_savingTree,
    hsaves _ _ _ _ r parse_saving hr heligible "string" saves_savingTree⟩

/-- A script may save texts as if they were records, though no model is behind them. -/
theorem not_defined_string : ∃ is r, (mixedReturns.normalize.run []).1 = .ok is ∧
    "string" ∈ Integration.modelNames is ∧
    Model.fields? mixedReturns.models "string" = .ok none ∧
    Script.parse saving = .ok savingTree ∧
    Lint.lint saving "sync" (Integration.modelNames is) "users.ts" = .ok r ∧
      r.isEligible = true ∧ Saves savingTree "string" := by
  obtain ⟨is, his, hnames⟩ := normalize_mixedReturns
  obtain ⟨r, hr, heligible⟩ := lint_saving
  rw [← hnames] at hr
  refine ⟨is, r, his, ?_, rfl, parse_saving, hr, heligible, saves_savingTree⟩
  rw [hnames]
  decide

end Manifest
end FlowPipeline
