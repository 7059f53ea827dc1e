import FlowPipeline.Proofs.WellFormedFlows

/-! # Flows that are left out and reported

Packaging and the check for issues look at a flow apart from each other, but agree on what keeps it
back: a sync without a cadence, and a model that is not defined. So of the flows that are compiled,
exactly those are left out that have an issue of these kinds.
-/

namespace FlowPipeline

/-- Whether an issue of a flow keeps it from being packaged. -/
def Issue.isObstacle : Issue → Bool
  | .noCadence | .undefinedModel _ => true
  | _ => false

namespace Flow

variable {models : Mapping} {f : Flow}

theorem noCadence_mem_issues : .noCadence ∈ f.issues ↔ f.kind? = some .sync ∧ f.cadence = none := by
  unfold issues
  rcases f.kind? with _ | _ | _ <;> rcases f.cadence with _ | s <;> simp

/-- A cadence that is there is not empty, so that packaging and checking miss the same ones. -/
theorem IsWellFormed.cadence_getD_eq_iff (h : f.IsWellFormed models) :
    f.cadence.getD "" = "" ↔ f.cadence = none := by
  rcases hcadence : f.cadence with _ | s
  · exact iff_of_true rfl rfl
  · have htrimmed := h.cadence s hcadence
    exact iff_of_false (Text.isTrimmed_iff.1 htrimmed).1 nofun

theorem IsWellFormed.not_isComplete_iff (h : f.IsWellFormed models) :
    ¬f.IsComplete ↔ ∃ i ∈ f.issues, i.isObstacle = true := by
  constructor
  · intro hincomplete
    by_cases hidle : f.kind? = some .sync ∧ f.cadence = none
    · exact ⟨.noCadence, noCadence_mem_issues.2 hidle, rfl⟩
    · have hunresolved : f.unresolved ≠ [] := fun hnil => hincomplete
        ⟨fun hsync hempty => hidle ⟨hsync, h.cadence_getD_eq_iff.1 hempty⟩, hnil⟩
      obtain ⟨name, hname⟩ := List.exists_mem_of_ne_nil _ hunresolved
      exact ⟨.undefinedModel name, undefinedModel_mem_issues.2 hname, rfl⟩
  · rintro ⟨i, hi, hobstacle⟩ hcomplete
    cases i with
    | noCadence =>
      obtain ⟨hsync, hnone⟩ := noCadence_mem_issues.1 hi
      exact hcomplete.cadence hsync (h.cadence_getD_eq_iff.2 hnone)
    | undefinedModel name =>
      rw [undefinedModel_mem_issues, hcomplete.models] at hi
      cases hi
    | _ => cases hobstacle

end Flow

namespace Package
open Work

variable {root output : Path} {version : String} {now : Moment} {x y : World}
  {fs : List (String × Flow)} {ps : List Package} {kf : String × Flow}

/-! ## Flows one by one -/

/-- With its compiled script in place, a flow has its package. -/
theorem entryAt?_of_ofScript {key : String} {f : Flow} {o : Obstacle}
    (h : (ofScript root output version key f).on x = (.ok (.error o), y)) :
    x.disk.entryAt? (artifactOf output f) = none := by
  rcases ofScript_cases h with ⟨o', -, hhas⟩ | ⟨p, hr, -⟩
  · have hnone := Disk.has_eq_ok_iff hhas
    exact Option.not_isSome_iff_eq_none.1 (by rw [artifactOf, ← hnone]; decide)
  · cases hr

/-- What is packaged is complete. -/
theorem isComplete_of_ofFlow {key : String} {f : Flow} {p : Package}
    (h : ((ofFlow root output version now key f).on x).1 = .ok (.ok p)) : f.IsComplete := by
  rcases Obstacle.ofFlow?_cases f now with ⟨-, o, ho, -⟩ | ⟨-, -, o, ho, -⟩ | ⟨-, hcomplete, -⟩
  · rw [on_ofFlow_of_some version key ho] at h
    cases h
  · rw [on_ofFlow_of_some version key ho] at h
    cases h
  · exact hcomplete

/-- What is complete and compiled is not skipped. -/
theorem not_isComplete_of_ofFlow {key : String} {f : Flow} {o : Obstacle}
    (h : ((ofFlow root output version now key f).on x).1 = .ok (.error o)) (ho : o.isFinal = false)
    (hcompiled : (x.disk.entryAt? (artifactOf output f)).isSome = true) : ¬f.IsComplete := by
  rcases Obstacle.ofFlow?_cases f now with ⟨-, o', ho', hfinal⟩ | ⟨-, hcomplete, -⟩ |
    ⟨-, -, hnone⟩
  · rw [on_ofFlow_of_some version key ho'] at h
    cases h
    rw [hfinal] at ho
    cases ho
  · exact hcomplete
  · obtain ⟨y, hdisk, hscript⟩ := on_ofFlow_of_none root output version key x hnone
    rw [hscript] at h
    rw [← hdisk, entryAt?_of_ofScript (on_of_fst h)] at hcompiled
    cases hcompiled

/-! ## Flows in order -/

namespace Yields

theorem isComplete (h : Yields root output version now x fs ps) :
    ∀ p ∈ ps, p.flow.IsComplete := by
  induction h with
  | nil => exact nofun
  | package h _ ih =>
    refine List.forall_mem_cons.2 ⟨?_, ih⟩
    rw [(owner_of_ofFlow h).2]
    exact isComplete_of_ofFlow h
  | skip _ _ _ ih => exact ih

/-- A flow that is compiled is packaged, unless it is not complete. -/
theorem exists_package (h : Yields root output version now x fs ps) (hkf : kf ∈ fs)
    (hcompiled : (x.disk.entryAt? (artifactOf output kf.2)).isSome = true)
    (hcomplete : kf.2.IsComplete) : ∃ p ∈ ps, p.flow = kf.2 := by
  induction h with
  | nil => cases hkf
  | @package kf' fs p ps h _ ih =>
    rcases List.mem_cons.1 hkf with rfl | hkf
    · exact ⟨p, List.mem_cons_self, (owner_of_ofFlow h).2⟩
    · obtain ⟨p', hp', hflow⟩ := ih hkf
      exact ⟨p', List.mem_cons_of_mem _ hp', hflow⟩
  | @skip kf' fs o ps h ho _ ih =>
    rcases List.mem_cons.1 hkf with rfl | hkf
    · exact absurd hcomplete (not_isComplete_of_ofFlow h ho hcompiled)
    · exact ih hkf

end Yields

/-! ## All flows -/

theorem mem_flatMap_of_mem_keyed {wanted : Selection} {is : List Integration}
    (h : kf ∈ wanted.keyed is) : kf.2 ∈ is.flatMap Integration.flows := by
  obtain ⟨i, hi, hmem⟩ := List.mem_flatMap.1 h
  obtain ⟨f, hf, rfl⟩ := List.mem_map.1 hmem
  exact List.mem_flatMap.2 ⟨i, hi, wanted.flows_subset i hf⟩

/-- Of the selected flows that are compiled, packaging leaves out those that have been reported with
an issue that keeps them back, and no others. -/
theorem all_leaves_out_reported {m : Manifest} {log : Log} {is : List Integration}
    (h : (m.normalize.run log).1 = .ok is) {wanted : Selection}
    (hps : ((all root output version wanted now is).on x).1 = .ok (some ps))
    (hkf : kf ∈ wanted.keyed is)
    (hcompiled : (x.disk.entryAt? (artifactOf output kf.2)).isSome = true) :
    (∀ p ∈ ps, p.flow.name ≠ kf.2.name) ↔
      ∃ i, (kf.2.name, i) ∈ Integration.issues is ∧ i.isObstacle = true := by
  have hnormalized : m.IsNormalized is := .of_run h
  have hyields : Yields root output version now x (wanted.keyed is) ps :=
    .of_ofFlows (on_of_fst hps)
  have hf := mem_flatMap_of_mem_keyed hkf
  have hissues : (∃ i, (kf.2.name, i) ∈ Integration.issues is ∧ i.isObstacle = true) ↔
      ¬kf.2.IsComplete := by
    rw [(hnormalized.isWellFormed kf.2 hf).not_isComplete_iff]
    simp only [hnormalized.mem_issues hf]
  rw [hissues]
  constructor
  · intro hleft hcomplete
    obtain ⟨p, hp, hflow⟩ := hyields.exists_package hkf hcompiled hcomplete
    exact hleft p hp (by rw [hflow])
  · -- A package of that name is the package of that flow.
    intro hincomplete p hp hname
    have hmem := mem_flatMap_of_mem_keyed (hyields.owner_mem p hp)
    have hflow : p.flow = kf.2 := List.inj_on_of_nodup_map hnormalized.distinct hmem hf hname
    exact hincomplete (hflow ▸ hyields.isComplete p hp)

end Package

namespace Package.Sample
open Work

/-- A manifest with an action, a sync without a cadence and one that returns an unknown model. -/
def heldFlows : Manifest where
  integrations := [(.text "github", .map [
    (.text "create", .map [(.text "type", .text "action")]),
    (.text "issues", .map [(.text "returns", .text "string")]),
    (.text "report", .map [(.text "runs", .text "every hour"), (.text "returns", .text "User")])])]
  models := []
  text := ""

theorem all_leaves_out_reported_held : ∃ is ps kf,
    (heldFlows.normalize.run []).1 = .ok is ∧
    ((all Path.root output "1" everything midnight is).on mixedWorld).1 = .ok (some ps) ∧
    kf ∈ everything.keyed is ∧ kf.2.name = "report" ∧
    (mixedWorld.disk.entryAt? (artifactOf output kf.2)).isSome = true ∧
    ps.map (fun p => p.flow.name) = ["create"] ∧
    ∃ i, (kf.2.name, i) ∈ Integration.issues is ∧ i.isObstacle = true := by
  have hpackages : ((heldFlows.normalize.run []).1.toOption.bind fun is =>
      ((all Path.root output "1" everything midnight is).on mixedWorld).1.toOption.join.bind
        fun ps => ((everything.keyed is)[1]?).map fun kf => (ps.map fun p => p.flow.name, kf.2.name,
          (mixedWorld.disk.entryAt? (artifactOf output kf.2)).isSome)) =
      some (["create"], "report", true) := by
    decide
  obtain ⟨is, his, hpackages⟩ := Option.bind_eq_some_iff.1 hpackages
  obtain ⟨ps, hps, hpackages⟩ := Option.bind_eq_some_iff.1 hpackages
  obtain ⟨kf, hkf, hpackages⟩ := Option.map_eq_some_iff.1 hpackages
  obtain ⟨hnames, hrest⟩ := Prod.mk.inj hpackages
  obtain ⟨hname, hcompiled⟩ := Prod.mk.inj hrest
  have his := Except.eq_ok_of_toOption his
  have hps := Except.eq_ok_of_toOption (Option.join_eq_some_iff.1 hps)
  have hkf : kf ∈ everything.keyed is := List.mem_of_getElem? hkf
  refine ⟨is, ps, kf, his, hps, hkf, hname, hcompiled, hnames, ?_⟩
  refine (all_leaves_out_reported his hps hkf hcompiled).1 fun p hp hsame => ?_
  have hmem := List.mem_map_of_mem (f := fun p : Package => p.flow.name) hp
  rw [hnames, List.mem_singleton, hsame, hname] at hmem
  exact absurd hmem (by decide)

end Package.Sample
end FlowPipeline
