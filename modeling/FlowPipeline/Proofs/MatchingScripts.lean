import FlowPipeline.Proofs.BuildFrames
import FlowPipeline.Proofs.WellFormedFlows

/-! # Scripts that match the manifest

A build that checks for this goes on only if the stems of the scripts are the names of the flows.
Otherwise it ends before anything is compiled, and names all flows without a script and all scripts
without a flow. The flows are named in the order of the manifest, but the actions of an integration
come after its other flows.
-/

namespace FlowPipeline

/-! ## The order of flows -/

namespace Normalizing

/-- The type of the flow that an entry stands for. -/
def typeOf (entry : Scalar × Value) : String :=
  ((Mapping.get "type" (entry.2.mapping?.getD [])).orElse (.text FlowKind.sync.name)).shown

theorem IsFlowOf.type_eq {models : Mapping} {entry : Scalar × Value} {f : Flow}
    (h : IsFlowOf models entry f) : f.type = typeOf entry :=
  Value.eq_shown_of_written (Flow.isReadFrom_of_ofEntries h.described).type

/-- The entries that stand for flows, those of actions last. -/
def sortedEntries (entries : Mapping) : Mapping :=
  (flowEntries entries).filter (fun e => typeOf e ≠ "action") ++
    (flowEntries entries).filter fun e => typeOf e = "action"

theorem IsIntegrationOf.forall₂_flows {models : Mapping} {entry : Scalar × Value} {i : Integration}
    (h : IsIntegrationOf models entry i) :
    List.Forall₂ (IsFlowOf models) (sortedEntries ((sectionEntries? entry.2).getD [])) i.flows := by
  obtain ⟨entries, fs, hentries, hfs, hsyncs, hactions⟩ := h.flows
  have hfilter (p : String → Bool) : List.Forall₂ (IsFlowOf models)
      ((flowEntries entries).filter fun e => p (typeOf e)) (fs.filter fun f => p f.type) :=
    List.rel_filter (fun e f hf => by simp only [hf.type_eq]) hfs
  rw [Integration.flows, hsyncs, hactions, hentries]
  exact List.rel_append (hfilter fun type => type ≠ "action") (hfilter fun type => type = "action")

end Normalizing

namespace Manifest

open Normalizing

/-- The names of the flows in the order of the manifest, but with the actions of an integration
after its other flows. -/
def sortedNames (m : Manifest) : List String :=
  m.integrations.flatMap fun entry =>
    (sortedEntries ((sectionEntries? entry.2).getD [])).map fun e => e.1.shown

theorem sortedNames_eq {models es : Mapping} {is : List Integration} (text : String)
    (h : List.Forall₂ (IsIntegrationOf models) es is) :
    sortedNames ⟨es, models, text⟩ = (is.flatMap Integration.flows).map Flow.name := by
  induction h with
  | nil => rfl
  | @cons entry i es is hi his ih =>
    rw [sortedNames, List.flatMap_cons, map_name_of_forall₂ hi.forall₂_flows, List.flatMap_cons,
      List.map_append]
    exact congrArg _ ih

end Manifest

/-! ## The check -/

namespace Build
open Work

variable {run : Runner} {s : Settings} {x y : World} {m : Manifest} {c : Context}

theorem sortedNames_of_prepare {options : Option CompilerOptions} {renew : Bool}
    (h : (prepare s options renew).on x = (.ok (m, c), y)) :
    (c.integrations.flatMap Integration.flows).map Flow.name = m.sortedNames := by
  obtain ⟨-, -, -, z, hread⟩ := prepare_eq_ok h
  obtain ⟨-, log, hrun⟩ := (readIntegrations_eq_ok hread).2
  exact (Manifest.sortedNames_eq m.text (Manifest.IsNormalized.of_run hrun).sections).symm

/-- The stems of the scripts of a project. -/
def stems (d : Disk) (root : Path) : List String := (listed d root).map Path.stem

theorem mismatch?_listed (is : List Integration) (d : Disk) (root : Path) :
    mismatch? is (listed d root) =
      let flows := (is.flatMap Integration.flows).map Flow.name
      let missing := flows.filter fun name => name ∉ stems d root
      let extra := (stems d root).filter fun name => name ∉ flows
      if missing.isEmpty && extra.isEmpty then none else some (.unmatched missing extra) := by
  have hlisted : (listed d root).filter (fun p => p.name != TypeDefinitions.fileName) =
      listed d root := by
    refine List.filter_eq_self.2 fun p hp => ?_
    obtain ⟨n, -, hn, rfl⟩ := mem_listed_iff.1 hp
    rw [Path.name_child]
    simpa using (isListed_iff.1 hn).2.1
  have hnot (names : List String) :
      (fun name => !names.contains name) = fun name => decide (name ∉ names) := by
    funext name
    simp
  rw [mismatch?, hlisted]
  simp only [hnot, stems]
  rfl

/-- The stems of the scripts of a project are the names of the flows of the manifest. -/
def IsMatching (m : Manifest) (d : Disk) (root : Path) : Prop :=
  ∀ name, name ∈ m.sortedNames ↔ name ∈ stems d root

/-- With the same names there is nothing left of either list. -/
theorem isEmpty_filters_iff {as bs : List String} :
    ((as.filter fun a => a ∉ bs).isEmpty && (bs.filter fun b => b ∉ as).isEmpty) = true ↔
      ∀ name, name ∈ as ↔ name ∈ bs := by
  simp only [Bool.and_eq_true, List.isEmpty_iff, List.filter_eq_nil_iff, decide_eq_true_eq, not_not,
    iff_def, forall_and]

/-- Once a build is prepared, its scripts are those of the project at that moment, and the check is
made for them. -/
theorem on_plan_none {matching : Bool} (h : (prepare s none false).on x = (.ok (m, c), y)) :
    (plan s none matching).on x =
      match if matching then mismatch? c.integrations (listed y.disk s.root) else none with
      | none => (.ok (m, c, listed y.disk s.root), y)
      | some e => (.error (.compilation e), y) := by
  have hchosen : (plan s none matching).on x = (chosen s none matching m c).on y :=
    (on_bind_ok h).trans rfl
  have hscripts : (scripts s.root).on y = (.ok (listed y.disk s.root), y) := rfl
  rw [hchosen, chosen, wanted, on_bind_ok hscripts]
  cases matching with
  | false => rfl
  | true =>
    simp only [if_true]
    rw [on_bind_ok hscripts]
    rcases mismatch? c.integrations (listed y.disk s.root) with _ | e <;> rfl

theorem compile_of_mismatch? (h : (prepare s none false).on x = (.ok (m, c), y))
    {e : CompilationError} (he : mismatch? c.integrations (listed y.disk s.root) = some e) :
    (compile run s none true).on x = (.error (.build e.message), y) := by
  have hplan : (plan s none true).on x = (.error (.compilation e), y) := by
    rw [on_plan_none h, if_pos rfl, he]
  have hmapped : (mapFault asBuild (plan s none true)).on x = (.error (.build e.message), y) := by
    rw [on_mapFault, hplan]
    rfl
  exact on_bind_error hmapped

theorem compile_of_match (h : (prepare s none false).on x = (.ok (m, c), y))
    (hnone : mismatch? c.integrations (listed y.disk s.root) = none) :
    (compile run s none true).on x = (compile run s none false).on x := by
  have hplan : (plan s none true).on x = (plan s none false).on x := by
    rw [on_plan_none h, on_plan_none h, if_pos rfl, hnone]
    rfl
  rw [compile, compile, on_bind, on_bind, on_mapFault, on_mapFault, hplan]

/-- Once a build of all scripts is prepared, the check that they match the manifest makes no
difference if they do. Otherwise the build ends with an error that names, in order, the flows
without a script and the scripts without a flow, and nothing but type definitions has been
written. -/
theorem compile_matching (run : Runner) (h : (prepare s none false).on x = (.ok (m, c), y)) :
    (IsMatching m y.disk s.root →
      (compile run s none true).on x = (compile run s none false).on x) ∧
    (¬IsMatching m y.disk s.root →
      (compile run s none true).on x = (.error (.build (CompilationError.unmatched
        (m.sortedNames.filter fun name => name ∉ stems y.disk s.root)
        ((stems y.disk s.root).filter fun name => name ∉ m.sortedNames)).message), y)) ∧
    x.Leads (IsTypes s) y := by
  have hmismatch := mismatch?_listed c.integrations y.disk s.root
  simp only [sortedNames_of_prepare h] at hmismatch
  refine ⟨fun hsame => ?_, fun hdiffer => ?_, ?_⟩
  · rw [if_pos (isEmpty_filters_iff.2 hsame)] at hmismatch
    exact compile_of_match h hmismatch
  · rw [if_neg (mt isEmpty_filters_iff.1 hdiffer)] at hmismatch
    exact compile_of_mismatch? h hmismatch
  · have hleads := leads_prepare s none false x
    rwa [h] at hleads

/-- A project whose manifest has an action before a sync, and whose only script is of neither. -/
def ungrouped : World where
  disk := {
    entries := [
      (["p"], .dir), (["p", "c.ts"], .file []), (["p", "models.ts"], .file []),
      (["p", "nango.yaml"], .file (bytesOf ("integrations:\n  i:\n    a:\n      type: action\n" ++
        "    b:\n      runs: every hour\n      returns: string\n")))]
    here := ["p"] }
  log := []

theorem stems_ungrouped : stems ungrouped.disk Sample.root = ["c"] := by
  have hlist : ungrouped.disk.list Sample.root = ["c.ts", "models.ts", "nango.yaml"] :=
    List.mergeSort_of_pairwise (by decide)
  rw [stems, listed, hlist]
  decide

theorem prepare_ungrouped : ∃ m c y,
    (prepare Sample.settings none false).on ungrouped = (.ok (m, c), y) ∧
    m.flowNames = ["a", "b"] ∧ m.sortedNames = ["b", "a"] ∧ stems y.disk Sample.root = ["c"] := by
  have hnames : ((prepare Sample.settings none false).on ungrouped).1.toOption.map
      (fun r => (r.1.flowNames, r.1.sortedNames)) = some (["a", "b"], ["b", "a"]) := by
    decide +kernel
  obtain ⟨⟨m, c⟩, y, hon, hread⟩ := on_eq_ok_of_map hnames
  obtain ⟨hflow, hsorted⟩ := Prod.mk.inj hread
  have hdisk : y.disk = ungrouped.disk := by
    rcases prepare_cases hon with ⟨hdisk, -⟩ | ⟨hhas, -⟩
    · exact hdisk
    · cases hhas
  exact ⟨m, c, y, hon, hflow, hsorted, hdisk ▸ stems_ungrouped⟩

theorem compile_matching_ungrouped : ∃ m c y,
    (prepare Sample.settings none false).on ungrouped = (.ok (m, c), y) ∧
    ¬IsMatching m y.disk Sample.root ∧
    (compile blank Sample.settings none true).on ungrouped =
      (.error (.build ("The following syncs are missing a corresponding .ts file: b, a\n" ++
        "The following .ts files do not have a corresponding sync in the config: c")), y) ∧
    ungrouped.Leads (IsTypes Sample.settings) y := by
  obtain ⟨m, c, y, hprepare, -, hsorted, hstems⟩ := prepare_ungrouped
  obtain ⟨-, hdiffer, hleads⟩ := compile_matching blank hprepare
  have hnot : ¬IsMatching m y.disk Sample.root := by
    intro hmatching
    have hc := (hmatching "c").2 (hstems ▸ List.mem_singleton_self "c")
    rw [hsorted] at hc
    exact absurd hc (by decide)
  refine ⟨m, c, y, hprepare, hnot, ?_, hleads⟩
  have hmissing : ["b", "a"].filter (fun name => name ∉ ["c"]) = ["b", "a"] := by decide
  have hextra : ["c"].filter (fun name => name ∉ ["b", "a"]) = ["c"] := by decide
  have hmessage : (CompilationError.unmatched ["b", "a"] ["c"]).message =
      "The following syncs are missing a corresponding .ts file: b, a\n" ++
        "The following .ts files do not have a corresponding sync in the config: c" := by
    decide +kernel
  have hroot : Sample.settings.root = Sample.root := rfl
  rw [hdiffer hnot, hroot, hsorted, hstems, hmissing, hextra, hmessage]

/-- The flows without a script are not named in the order of their entries. -/
theorem not_in_order_of_entries : ∃ m c y message,
    (prepare Sample.settings none false).on ungrouped = (.ok (m, c), y) ∧
    (compile blank Sample.settings none true).on ungrouped = (.error (.build message), y) ∧
    message ≠ (CompilationError.unmatched
      (m.flowNames.filter fun name => name ∉ stems y.disk Sample.root)
      ((stems y.disk Sample.root).filter fun name => name ∉ m.flowNames)).message := by
  obtain ⟨m, c, y, hprepare, hflow, hsorted, hstems⟩ := prepare_ungrouped
  have hmismatch := mismatch?_listed c.integrations y.disk Sample.settings.root
  have hroot : Sample.settings.root = Sample.root := rfl
  simp only [sortedNames_of_prepare hprepare, hroot, hsorted, hstems] at hmismatch
  refine ⟨m, c, y, _, hprepare, compile_of_mismatch? hprepare hmismatch, ?_⟩
  rw [hflow, hstems]
  decide +kernel

end Build
end FlowPipeline
