import FlowPipeline.Proofs.ModelReferences
import FlowPipeline.Proofs.PackagedFlows
import FlowPipeline.Proofs.RepeatedBuilds

/-! # Packaging a selection

A flow is packaged by itself: what comes of it depends on its files, neither on the flows before it
nor on the moment. So where all flows can be packaged together, a selection of them has the same
packages, without those of the other flows. The converse does not hold, as a flow that keeps all
flows back may be left out of a selection.
-/

namespace FlowPipeline

/-! ## Selected flows -/

/-- The actions are kept apart from the other flows. -/
structure Integration.IsSorted (i : Integration) : Prop where
  syncs : ∀ f ∈ i.syncs, f.type ≠ "action"
  actions : ∀ f ∈ i.actions, f.type = "action"

theorem Manifest.IsNormalized.isSorted {m : Manifest} {is : List Integration}
    (h : m.IsNormalized is) : ∀ i ∈ is, i.IsSorted := by
  intro i hi
  obtain ⟨entry, -, hof⟩ := exists_of_mem_right h.sections hi
  obtain ⟨entries, fs, -, -, hsyncs, hactions⟩ := hof.flows
  refine ⟨fun f hf => ?_, fun f hf => ?_⟩
  · rw [hsyncs, List.mem_filter] at hf
    simpa using hf.2
  · rw [hactions, List.mem_filter] at hf
    simpa using hf.2

namespace Selection

variable {s : Selection}

/-- The selection names a flow: an action as its action, any other flow as its sync. -/
def Names (s : Selection) (f : Flow) : Prop :=
  f.type ≠ "action" ∧ s.sync = some f.name ∨ f.type = "action" ∧ s.action = some f.name

instance (s : Selection) (f : Flow) : Decidable (s.Names f) :=
  inferInstanceAs (Decidable (_ ∨ _))

theorem flows_subset (s : Selection) (i : Integration) : s.flows i ⊆ i.flows := by
  unfold flows Integration.flows
  split_ifs
  · exact List.append_subset.2 ⟨List.subset_append_of_subset_left _ (List.filter_subset_self _),
      List.subset_append_of_subset_right _ (List.filter_subset_self _)⟩
  · exact List.Subset.refl _

theorem flows_of_not_isPartial (h : s.isPartial = false) (i : Integration) :
    s.flows i = i.flows := by
  rw [flows, if_neg (by simp [h])]

theorem flows_of_isPartial (h : s.isPartial = true) {i : Integration} (hi : i.IsSorted) :
    s.flows i = i.flows.filter fun f => s.Names f := by
  have hsyncs : (i.syncs.filter fun f => s.sync == some f.name) =
      i.syncs.filter fun f => s.Names f :=
    List.filter_congr fun f hf => by simp [Names, hi.syncs f hf, beq_eq_decide]
  have hactions : (i.actions.filter fun f => s.action == some f.name) =
      i.actions.filter fun f => s.Names f :=
    List.filter_congr fun f hf => by simp [Names, hi.actions f hf, beq_eq_decide]
  rw [flows, if_pos h, hsyncs, hactions, ← List.filter_append, Integration.flows]

theorem keyed_cons (s : Selection) (i : Integration) (is : List Integration) :
    s.keyed (i :: is) = (s.flows i).map (fun f => (i.key, f)) ++ s.keyed is :=
  List.flatMap_cons

/-- The selected flows are those of all flows that the selection names. -/
theorem keyed_of_isPartial {everything : Selection} (heverything : everything.isPartial = false)
    (h : s.isPartial = true) {is : List Integration} (his : ∀ i ∈ is, i.IsSorted) :
    s.keyed is = (everything.keyed is).filter fun kf => s.Names kf.2 := by
  induction is with
  | nil => rfl
  | cons i is ih =>
    obtain ⟨hi, his⟩ := List.forall_mem_cons.1 his
    rw [keyed_cons, keyed_cons, ih his, flows_of_isPartial h hi, List.filter_append,
      flows_of_not_isPartial heverything, List.filter_map]
    rfl

end Selection

namespace Package
open Work

variable {root output : Path} {version : String} {now : Moment} {x x' : World}
  {fs : List (String × Flow)} {ps : List Package}

/-! ## One flow -/

theorem blind_ofScript (root output : Path) (version key : String) (f : Flow) :
    Blind (ofScript root output version key f) := by
  have hread : Blind (do
      log .debug ("Integration file found for " ++ f.name ++ " at " ++ (artifactOf output f).toText)
      let compiled ← readText (artifactOf output f)
      let source ←
        if ← has (sourceOf root f) then some <$> readText (sourceOf root f) else pure none
      return .ok ⟨key, f, version, compiled, source⟩ : Work (Except Obstacle Package)) := by
    refine .bind (.log _ _) fun _ => .bind (.readText _) fun _ => .bind (.has _) fun there => ?_
    cases there with
    | false => exact .bind (.pure _) fun _ => .pure _
    | true => exact .bind (.map (.readText _)) fun _ => .pure _
  refine .bind (.has _) fun there => ?_
  cases there with
  | false => exact .pure _
  | true => exact hread

theorem blind_ofFlow (root output : Path) (version : String) (now : Moment) (key : String)
    (f : Flow) : Blind (ofFlow root output version now key f) := by
  unfold ofFlow
  split_ifs
  · refine .bind (.log _ _) fun _ => ?_
    split
    · exact .pure _
    · exact blind_ofScript root output version key f
  · split
    · exact .pure _
    · exact blind_ofScript root output version key f

/-- A package is of its flow, with the key of the integration. -/
theorem owner_of_ofFlow {key : String} {f : Flow} {p : Package}
    (h : ((ofFlow root output version now key f).on x).1 = .ok (.ok p)) :
    p.key = key ∧ p.flow = f := by
  cases ho : Obstacle.ofFlow? f now with
  | some o =>
    rw [on_ofFlow_of_some version key ho] at h
    cases h
  | none =>
    obtain ⟨y, -, hscript⟩ := on_ofFlow_of_none root output version key x ho
    rcases hon : (ofScript root output version key f).on y with ⟨r, z⟩
    rw [hscript, hon] at h
    obtain rfl : r = .ok (.ok p) := h
    obtain ⟨hkey, hflow, -⟩ := ofScript_eq_ok hon
    exact ⟨hkey, hflow⟩

/-! ## Flows in order -/

/-- What flows come to, each packaged by itself, where none of them keeps all flows back. -/
inductive Yields (root output : Path) (version : String) (now : Moment) (x : World) :
    List (String × Flow) → List Package → Prop where
  | nil : Yields root output version now x [] []
  | package {kf : String × Flow} {fs : List (String × Flow)} {p : Package} {ps : List Package}
    (h : ((ofFlow root output version now kf.1 kf.2).on x).1 = .ok (.ok p))
    (hs : Yields root output version now x fs ps) :
    Yields root output version now x (kf :: fs) (p :: ps)
  | skip {kf : String × Flow} {fs : List (String × Flow)} {o : Obstacle} {ps : List Package}
    (h : ((ofFlow root output version now kf.1 kf.2).on x).1 = .ok (.error o))
    (ho : o.isFinal = false) (hs : Yields root output version now x fs ps) :
    Yields root output version now x (kf :: fs) ps

namespace Yields

theorem of_disk (h : Yields root output version now x fs ps) (hdisk : x'.disk = x.disk) :
    Yields root output version now x' fs ps := by
  induction h with
  | nil => exact .nil
  | @package kf _ _ _ h _ ih =>
    exact .package ((blind_ofFlow root output version now kf.1 kf.2 x x' hdisk).1.trans h) ih
  | @skip kf _ _ _ h ho _ ih =>
    exact .skip ((blind_ofFlow root output version now kf.1 kf.2 x x' hdisk).1.trans h) ho ih

/-- Some of the flows come to their packages among those of all. -/
theorem filter (h : Yields root output version now x fs ps) (q : Flow → Prop) [DecidablePred q] :
    Yields root output version now x (fs.filter fun kf => q kf.2)
      (ps.filter fun p => q p.flow) := by
  induction h with
  | nil => exact .nil
  | @package kf fs p ps h _ ih =>
    rw [List.filter_cons, List.filter_cons, (owner_of_ofFlow h).2]
    split_ifs
    · exact .package h ih
    · exact ih
  | @skip kf fs o ps h ho _ ih =>
    rw [List.filter_cons]
    split_ifs
    · exact .skip h ho ih
    · exact ih

/-- Every package is of one of the flows. -/
theorem owner_mem (h : Yields root output version now x fs ps) :
    ∀ p ∈ ps, (p.key, p.flow) ∈ fs := by
  induction h with
  | nil => exact nofun
  | @package kf fs p ps h _ ih =>
    obtain ⟨hkey, hflow⟩ := owner_of_ofFlow h
    refine List.forall_mem_cons.2 ⟨?_, fun q hq => List.mem_cons_of_mem _ (ih q hq)⟩
    rw [hkey, hflow]
    exact List.mem_cons_self
  | skip _ _ _ ih => exact fun p hp => List.mem_cons_of_mem _ (ih p hp)

theorem of_ofFlows {y : World}
    (h : (ofFlows root output version now fs).on x = (.ok (some ps), y)) :
    Yields root output version now x fs ps := by
  induction fs generalizing x ps with
  | nil =>
    cases h
    exact .nil
  | cons kf fs ih =>
    obtain ⟨r, z, hr, h⟩ := on_bind_eq_ok h
    have hresult : ((ofFlow root output version now kf.1 kf.2).on x).1 = .ok r := by rw [hr]
    have hdisk := ((reads_ofFlow root output version now kf.1 kf.2).disk_eq hr).symm
    rcases r with o | p
    · obtain ⟨_, z', hlog, h⟩ := on_bind_eq_ok h
      cases hlog
      split_ifs at h with hfinal
      · cases h
      · refine .skip hresult (by simpa using hfinal) ((ih h).of_disk ?_)
        exact hdisk
    · obtain ⟨rest, z', hrest, h⟩ := on_bind_eq_ok h
      cases rest with
      | none => cases h
      | some ps' =>
        cases h
        exact .package hresult ((ih hrest).of_disk hdisk)

theorem on_ofFlows (h : Yields root output version now x fs ps) :
    ((ofFlows root output version now fs).on x).1 = .ok (some ps) := by
  have hflow (kf : String × Flow) (y : World) (hy : y.disk = x.disk) :
      ((ofFlow root output version now kf.1 kf.2).on y).1 =
          ((ofFlow root output version now kf.1 kf.2).on x).1 ∧
        ((ofFlow root output version now kf.1 kf.2).on y).2.disk = x.disk :=
    ⟨(blind_ofFlow root output version now kf.1 kf.2 x y hy).1,
      ((reads_ofFlow root output version now kf.1 kf.2).disk y).trans hy⟩
  have hall (y : World) (hy : y.disk = x.disk) :
      ((ofFlows root output version now fs).on y).1 = .ok (some ps) := by
    induction h generalizing y with
    | nil => rfl
    | @package kf fs p ps h _ ih =>
      obtain ⟨hresult, hdisk⟩ := hflow kf y hy
      have hrest := ih ((ofFlow root output version now kf.1 kf.2).on y).2 hdisk
      rw [ofFlows, on_bind_ok (on_of_fst (hresult.trans h))]
      exact congrArg Prod.fst (on_bind_ok (on_of_fst hrest))
    | @skip kf fs o ps h ho _ ih =>
      obtain ⟨hresult, hdisk⟩ := hflow kf y hy
      rw [ofFlows, on_bind_ok (on_of_fst (hresult.trans h))]
      dsimp only
      rw [on_bind_ok (on_log _ _ _), if_neg (by simp [ho])]
      exact ih _ hdisk
  exact hall x rfl

end Yields

/-! ## All flows -/

/-- Where packages are made of all flows of a manifest, the packages of a selection of them are
those that the selection names, in the same order and at any moment. -/
theorem all_selected {m : Manifest} {log : Log} {is : List Integration}
    (h : (m.normalize.run log).1 = .ok is) {everything wanted : Selection}
    (heverything : everything.isPartial = false) (hwanted : wanted.isPartial = true)
    (hdisk : x'.disk = x.disk)
    (hps : ((all root output version everything now is).on x).1 = .ok (some ps)) (now' : Moment) :
    ((all root output version wanted now' is).on x').1 =
      .ok (some (ps.filter fun p => wanted.Names p.flow)) := by
  have hsorted := (Manifest.IsNormalized.of_run h).isSorted
  have hyields : Yields root output version now x (everything.keyed is) ps :=
    .of_ofFlows (on_of_fst hps)
  rw [all, ofFlows_of_moment now' now, ← Selection.keyed,
    Selection.keyed_of_isPartial heverything hwanted hsorted]
  exact ((hyields.filter wanted.Names).of_disk hdisk).on_ofFlows

end Package

/-! ## Flows that are not selected -/

namespace Package.Sample
open Work

/-- A manifest with a sync, a flow of an unknown type and two actions. -/
def mixedFlows : Manifest where
  integrations := [(.text "github", .map [
    (.text "create", .map [(.text "type", .text "action")]),
    (.text "issues", .map [(.text "runs", .text "every hour")]),
    (.text "remove", .map [(.text "type", .text "action")]),
    (.text "report", .map [(.text "type", .text "cron")])])]
  models := []
  text := ""

/-- A world in which all flows but one are compiled. -/
def mixedWorld : World where
  disk := {
    entries := [(["dist"], .dir), (["dist", "create.js"], .file [120]),
      (["dist", "issues.js"], .file [121]), (["dist", "report.js"], .file [122])]
    here := [] }
  log := []

theorem all_selected_report : ∃ is ps, (mixedFlows.normalize.run []).1 = .ok is ∧
    everything.isPartial = false ∧ (⟨some "report", none⟩ : Selection).isPartial = true ∧
    ((all Path.root output "1" everything midnight is).on mixedWorld).1 = .ok (some ps) ∧
    ps.map (fun p => (p.flow.name, p.compiled)) =
      [("issues", "y"), ("report", "z"), ("create", "x")] ∧
    ((all Path.root output "1" ⟨some "report", none⟩ midnight is).on mixedWorld).1 =
      .ok (some (ps.filter fun p => (⟨some "report", none⟩ : Selection).Names p.flow)) ∧
    ((ps.filter fun p => (⟨some "report", none⟩ : Selection).Names p.flow).map
      fun p => p.flow.name) = ["report"] := by
  have hpackages : ((mixedFlows.normalize.run []).1.toOption.bind fun is =>
      ((all Path.root output "1" everything midnight is).on mixedWorld).1.toOption.join.map
        fun ps => (ps.map fun p => (p.flow.name, p.compiled), (ps.filter fun p =>
          (⟨some "report", none⟩ : Selection).Names p.flow).map fun p => p.flow.name)) =
      some ([("issues", "y"), ("report", "z"), ("create", "x")], ["report"]) := by
    decide
  obtain ⟨is, his, hpackages⟩ := Option.bind_eq_some_iff.1 hpackages
  obtain ⟨ps, hps, hnames⟩ := Option.map_eq_some_iff.1 hpackages
  obtain ⟨hall, hselected⟩ := Prod.mk.inj hnames
  have his := Except.eq_ok_of_toOption his
  have hps := Except.eq_ok_of_toOption (Option.join_eq_some_iff.1 hps)
  exact ⟨is, ps, his, rfl, by decide, hps, hall,
    all_selected his rfl (by decide) rfl hps midnight, hselected⟩

end Package.Sample
end FlowPipeline
