import FlowPipeline.Proofs.CompiledScripts
import FlowPipeline.Watch

/-! # Handling events

A handler keeps its settings and its compiler options for good. Its context is that of the manifest
as it was read last, and is replaced only by an event that says that the manifest has changed; only
then the type definitions are written, before any script is compiled.
-/

namespace FlowPipeline.Watch
open Work Build

variable {run : Runner} {h h' : Handler} {e : Event} {x y : World}

/-- A handler is for one project, whose compiled scripts go to `dist`. -/
structure Handler.Coherent (h : Handler) : Prop where
  output : h.settings.output = h.settings.root.child "dist"
  contextRoot : h.context.root = h.settings.root
  contextOutput : h.context.output = h.settings.output

namespace Handler

theorem leads_reload (h : Handler) (x : World) :
    x.Leads (IsTypes h.settings) (h.reload.on x).2 := by
  refine leads_bind (leads_outcome (leads_prepare h.settings h.options true x)) fun r y _ => ?_
  rcases r with f | ⟨m, c⟩
  · refine (Reads.ite (.bind (.throw _) fun _ => ?_) ?_).leads y
    all_goals exact .bind (.log _ _) fun _ => .pure _
  · exact (Reads.bind (.log _ _) fun _ => .pure _).leads y

/-- A handler is as before, or has the context that the manifest now gives. -/
theorem reload_eq_ok (hr : h.reload.on x = (.ok h', y)) :
    h' = h ∨ ∃ m c z, (prepare h.settings h.options true).on x = (.ok (m, c), z) ∧
      h' = { h with context := c } := by
  obtain ⟨r, z, ho, hr⟩ := on_bind_eq_ok hr
  have hp := on_outcome_eq_ok ho
  rcases r with f | ⟨m, c⟩
  · left
    simp only at hr
    split_ifs at hr
    · obtain ⟨_, _, ht, -⟩ := on_bind_eq_ok hr
      cases ht
    · obtain ⟨_, _, -, hr⟩ := on_bind_eq_ok hr
      cases hr
      rfl
  · obtain ⟨_, _, -, hr⟩ := on_bind_eq_ok hr
    cases hr
    exact .inr ⟨m, c, z, hp, rfl⟩

theorem leads_renewed (h : Handler) (e : Event) (x : World) :
    x.Leads (IsTypes h.settings) ((h.renewed e).on x).2 := by
  unfold renewed
  split_ifs
  · exact leads_reload h x
  · exact .refl x

theorem renewed_eq_ok (hr : (h.renewed e).on x = (.ok h', y)) :
    h' = h ∨ ∃ m c z, (prepare h.settings h.options true).on x = (.ok (m, c), z) ∧
      h' = { h with context := c } := by
  unfold renewed at hr
  split_ifs at hr
  · exact reload_eq_ok hr
  · cases hr
    exact .inl rfl

theorem Coherent.renewed (hc : h.Coherent) (hr : (h.renewed e).on x = (.ok h', y)) :
    h'.settings = h.settings ∧ h'.Coherent := by
  rcases renewed_eq_ok hr with rfl | ⟨m, c, z, hp, rfl⟩
  · exact ⟨rfl, hc⟩
  · obtain ⟨hroot, hout, -⟩ := prepare_eq_ok hp
    exact ⟨rfl, hc.output, hroot, hout⟩

theorem leads_compileExisting_of {P : Disk → Edit → Prop} (hP : Covers run h.context P)
    (x : World) : x.Leads P ((h.compileExisting run).on x).2 :=
  leads_bind ((reads_scripts _).leads x) fun _ y _ =>
    leads_bind (leads_compileAll hP none _ y) fun _ _ _ => .refl _

theorem leads_compileExisting (run : Runner) (h : Handler) (x : World) :
    x.Leads (Gated run h.context) ((h.compileExisting run).on x).2 :=
  leads_compileExisting_of (covers_gated run h.context) x

theorem leads_respond {P : Disk → Edit → Prop} (hP : Covers run h.context P) (e : Event)
    (x : World) : x.Leads P ((h.respond run e).on x).2 := by
  unfold respond
  split_ifs
  · exact leads_compileExisting_of hP x
  · exact .refl x
  · exact leads_bind (leads_removeCompiled hP e.path x) fun _ _ _ => .refl _
  · exact leads_bind (leads_compileScript hP e.path x) fun _ _ _ => .refl _
  · exact .refl x

theorem leads_handle {P : Disk → Edit → Prop} (htypes : ∀ d e, IsTypes h.settings d e → P d e)
    (hP : ∀ h' y, (h.renewed e).on x = (.ok h', y) → Covers run h'.context P) :
    x.Leads P ((h.handle run e).on x).2 := by
  refine leads_bind (leads_outcome ((h.leads_renewed e x).mono htypes)) fun r y hr => ?_
  rcases r with f | h'
  · exact .refl y
  · refine leads_bind (leads_outcome ?_) fun r z _ => ?_
    · exact leads_respond (hP h' y (on_outcome_eq_ok hr)) e y
    · rcases r with f | u <;> exact .refl z

theorem on_handle_of_stale {f : Fault} (hr : (h.renewed e).on x = (.error f, y)) :
    (h.handle run e).on x = (.ok (h, some f), y) := by
  refine (on_bind_ok (on_outcome _ x)).trans ?_
  rw [hr]
  rfl

theorem on_handle_of_fault {f : Fault} {z : World} (hr : (h.renewed e).on x = (.ok h', y))
    (hs : (h'.respond run e).on y = (.error f, z)) :
    (h.handle run e).on x = (.ok (h', some f), z) := by
  refine (on_bind_ok (on_outcome _ x)).trans ?_
  rw [hr]
  refine (on_bind_ok (on_outcome _ y)).trans ?_
  rw [hs]
  rfl

theorem on_handle_of_ok {z : World} {u : PUnit} (hr : (h.renewed e).on x = (.ok h', y))
    (hs : (h'.respond run e).on y = (.ok u, z)) :
    (h.handle run e).on x = (.ok (h', none), z) := by
  refine (on_bind_ok (on_outcome _ x)).trans ?_
  rw [hr]
  refine (on_bind_ok (on_outcome _ y)).trans ?_
  rw [hs]
  rfl

/-- Handling an event ends with what kept the handler from being renewed, or as the renewed handler
responds. -/
theorem handle_ends {f : Option Fault} (hr : (h.handle run e).on x = (.ok (h', f), y)) :
    (h' = h ∧ ∃ g, (h.renewed e).on x = (.error g, y) ∧ f = some g) ∨
    ∃ z, (h.renewed e).on x = (.ok h', z) ∧
      ((∃ g, (h'.respond run e).on z = (.error g, y) ∧ f = some g) ∨
        (h'.respond run e).on z = (.ok ⟨⟩, y) ∧ f = none) := by
  obtain ⟨r, z, hn, hrest⟩ := on_bind_eq_ok hr
  have hn := on_outcome_eq_ok hn
  rcases r with g | h''
  · cases hrest
    exact .inl ⟨rfl, g, hn, rfl⟩
  · obtain ⟨r, z', hs, hend⟩ := on_bind_eq_ok hrest
    have hs := on_outcome_eq_ok hs
    rcases r with g | u <;> cases hend
    · exact .inr ⟨z, hn, .inl ⟨g, hs, rfl⟩⟩
    · exact .inr ⟨z, hn, .inr ⟨hs, rfl⟩⟩

/-- Whatever becomes of an event, the handler afterwards is the one it came to or has been renewed
by it. -/
theorem handle_eq_ok {f : Option Fault} (hr : (h.handle run e).on x = (.ok (h', f), y)) :
    h' = h ∨ ∃ z, (h.renewed e).on x = (.ok h', z) := by
  rcases handle_ends hr with ⟨hh, -⟩ | ⟨z, hn, -⟩
  · exact .inl hh
  · exact .inr ⟨z, hn⟩

/-- What handling an event comes to if there is no fault. -/
inductive Handles (run : Runner) (h : Handler) (e : Event) (x : World) :
    Handler → World → Prop where
  | noManifest (hm : isManifest e.path = true) (hk : e.kind = .removed) : Handles run h e x h x
  | manifest {h' : Handler} {y z : World} (hm : isManifest e.path = true) (hk : e.kind ≠ .removed)
    (hr : (h.renewed e).on x = (.ok h', z)) (hs : (h'.compileExisting run).on z = (.ok ⟨⟩, y)) :
    Handles run h e x h' y
  | noScript {y : World} {b : Bool} (hm : isManifest e.path = false) (hw : isScript e.path = true)
    (hk : e.kind = .removed) (hs : (removeCompiled h.context e.path).on x = (.ok b, y)) :
    Handles run h e x h y
  | script {y : World} {o : Outcome} (hm : isManifest e.path = false)
    (hw : isScript e.path = true) (hk : e.kind ≠ .removed)
    (hs : (compileScript run h.context e.path).on x = (.ok o, y)) : Handles run h e x h y
  | other (hm : isManifest e.path = false) (hw : isScript e.path = false) : Handles run h e x h x

theorem handle_eq_none (hr : (h.handle run e).on x = (.ok (h', none), y)) :
    Handles run h e x h' y := by
  rcases handle_ends hr with ⟨-, _, -, hf⟩ | ⟨z, hn, ⟨_, -, hf⟩ | ⟨hs, -⟩⟩
  · cases hf
  · cases hf
  rw [respond] at hs
  cases hm : isManifest e.path with
  | true =>
    rw [if_pos hm] at hs
    by_cases hk : e.kind = .removed
    · simp only [renewed, hk, ne_eq, not_true_eq_false, decide_false, Bool.and_false,
        Bool.false_eq_true, if_false] at hn hs
      cases hn
      cases hs
      exact .noManifest hm hk
    · rw [if_pos hk] at hs
      exact .manifest hm hk hn hs
  | false =>
    rw [if_neg (by simp [hm])] at hs
    simp only [renewed, hm, Bool.false_and, Bool.false_eq_true, if_false] at hn
    cases hn
    cases hw : isScript e.path with
    | true =>
      rw [if_pos hw] at hs
      by_cases hk : e.kind = .removed
      · rw [if_pos hk] at hs
        obtain ⟨b, z', hs, hs'⟩ := on_bind_eq_ok hs
        cases hs'
        exact .noScript hm hw hk hs
      · rw [if_neg hk] at hs
        obtain ⟨o, z', hs, hs'⟩ := on_bind_eq_ok hs
        cases hs'
        exact .script hm hw hk hs
    | false =>
      rw [if_neg (by simp [hw])] at hs
      cases hs
      exact .other hm hw

theorem Coherent.handle (hc : h.Coherent) {f : Option Fault}
    (hr : (h.handle run e).on x = (.ok (h', f), y)) : h'.Coherent := by
  rcases handle_eq_ok hr with rfl | ⟨z, hn⟩
  · exact hc
  · exact (hc.renewed hn).2

end Handler

theorem leads_handler (s : Settings) (options : Option CompilerOptions) (x : World) :
    x.Leads (IsTypes s) ((handler s options).on x).2 :=
  leads_bind (leads_prepare s options false x) fun _ _ _ => .refl _

theorem handler_eq_ok {s : Settings} {options : Option CompilerOptions}
    (hs : s.output = s.root.child "dist") (hr : (handler s options).on x = (.ok h, y)) :
    h.settings = s ∧ h.Coherent := by
  obtain ⟨⟨m, c⟩, z, hp, hr⟩ := on_bind_eq_ok hr
  cases hr
  obtain ⟨hroot, hout, -⟩ := prepare_eq_ok hp
  exact ⟨rfl, hs, hroot, hout⟩

theorem leads_opened (s : Settings) (x : World) : x.Leads (IsTypes s) ((opened s).on x).2 :=
  leads_bind ((reads_projectOptions s).leads x) fun o y _ => leads_handler s (some o) y

theorem opened_eq_ok {s : Settings} (hs : s.output = s.root.child "dist")
    (hr : (opened s).on x = (.ok h, y)) : h.settings = s ∧ h.Coherent := by
  obtain ⟨o, z, -, hr⟩ := on_bind_eq_ok hr
  exact handler_eq_ok hs hr

theorem leads_start {P : Disk → Edit → Prop} {s : Settings}
    (htypes : ∀ d e, IsTypes s d e → P d e) (houtput : ∀ d, P d (.makeDirs s.output))
    (hP : ∀ h y, (opened s).on x = (.ok h, y) → Covers run h.context P) :
    x.Leads P ((start run s).on x).2 := by
  refine leads_bind (leads_mapFault ((leads_opened s x).mono htypes)) fun h y hr => ?_
  refine leads_bind (leads_change (houtput _)) fun _ z _ => ?_
  refine leads_bind ((Reads.log _ _).leads z) fun _ z' _ => ?_
  exact leads_bind (Handler.leads_compileExisting_of (hP h y (on_mapFault_eq_ok hr)) z')
    fun _ _ _ => .refl _

/-- A project that is watched has been opened, has an output directory, and its scripts have been
compiled. -/
theorem start_eq_ok {s : Settings} (hr : (start run s).on x = (.ok h, y)) :
    ∃ z z' z'', (opened s).on x = (.ok h, z) ∧ (makeDirs s.output).on z = (.ok (), z') ∧
      z''.disk = z'.disk ∧ z''.history = z'.history ∧
      (h.compileExisting run).on z'' = (.ok ⟨⟩, y) := by
  obtain ⟨h', z, ho, hr⟩ := on_bind_eq_ok hr
  obtain ⟨_, z', hd, hr⟩ := on_bind_eq_ok hr
  obtain ⟨_, z'', hl, hr⟩ := on_bind_eq_ok hr
  obtain ⟨_, z₃, hc, hr⟩ := on_bind_eq_ok hr
  cases hr
  rw [on_log] at hl
  obtain ⟨-, hz⟩ := Prod.mk.inj hl
  exact ⟨z, z', z'', on_mapFault_eq_ok ho, hd, by rw [← hz], by rw [← hz], hc⟩

end FlowPipeline.Watch
