import FlowPipeline.Proofs.Artifacts
import FlowPipeline.Proofs.BuildFaults

/-! # Faults of a watched project

A handler outlives a manifest that it is told of as wrong, a file that it cannot read, and all that
is wrong with a script. What it does not outlive is a fault that the build does not foresee, and
compiled scripts that it cannot remove. Its context is replaced only where the manifest has been
read again.
-/

namespace FlowPipeline

/-- A file cannot be removed: its name is too long, or a directory stands in its place. -/
inductive Disk.IsStuck (d : Disk) (p : Path) : Fault → Prop where
  | long {e : FileError} (h : d.has p = .error e) : IsStuck d p (.file e)
  | dir (h : d.entryAt? p = some .dir) : IsStuck d p (.file ⟨.isDirectory, p.toText⟩)

/-- Only a directory is there and is not removed. -/
theorem Disk.dir_of_remove {d : Disk} {p : Path} {e : FileError} (hthere : d.has p = .ok true)
    (h : d.remove p = .error e) : d.entryAt? p = some .dir ∧ e = ⟨.isDirectory, p.toText⟩ := by
  obtain ⟨entry, hentry⟩ := Option.isSome_iff_exists.1 (has_eq_ok_iff hthere).symm
  obtain ⟨names, hlocate, hfind⟩ := entryAt?_eq_some_iff.1 hentry
  simp only [remove, hlocate, hfind] at h
  cases entry with
  | dir =>
    cases h
    exact ⟨hentry, rfl⟩
  | file bytes => cases h

namespace Build
open Work

theorem faults_removeCompiled (c : Context) (script : Path) (x : World) :
    Faults (removeCompiled c script) x fun _ f => x.disk.IsStuck (c.outputOf script) f := by
  refine .bind ((Faults.has _).mono ?_) fun there y hthere => ?_
  · rintro y f ⟨-, e, rfl, he⟩
    exact .long he
  · obtain ⟨hthere, rfl⟩ := on_has_eq_ok hthere
    split_ifs with htrue
    · subst htrue
      refine .bind ((Faults.change _).mono ?_) fun _ _ _ => .bind (.log _ _) fun _ _ _ => .pure _
      rintro y f ⟨-, e, rfl, he⟩
      obtain ⟨hdir, rfl⟩ := Disk.dir_of_remove hthere he
      exact .dir hdir
    · exact .bind (.log _ _) fun _ _ _ => .pure _

end Build

namespace Watch
open Work Build

variable {run : Runner} {s : Settings} {h h' : Handler} {e : Event} {x y : World}

/-- The handlers that come to watch a project, and those that they become by events, whatever the
files are at that time. -/
inductive Watched (run : Runner) (s : Settings) : Handler → Prop where
  | start {h : Handler} {x y : World} (hr : (start run s).on x = (.ok h, y)) : Watched run s h
  | event {h h' : Handler} {e : Event} {r : Option Fault} {x y : World} (hw : Watched run s h)
    (hr : (h.handle run e).on x = (.ok (h', r), y)) : Watched run s h'

/-- A handler keeps its settings, and does not read the options of the compiler again. -/
structure Handler.Keeps (s : Settings) (h : Handler) : Prop where
  settings : h.settings = s
  options : h.options ≠ none

theorem Watched.keeps (hw : Watched run s h) : h.Keeps s := by
  induction hw with
  | start hr =>
    -- The options are read once, when the project is opened.
    obtain ⟨z, -, -, hopened, -⟩ := start_eq_ok hr
    obtain ⟨o, z', -, hopened⟩ := on_bind_eq_ok hopened
    obtain ⟨mc, z'', -, hopened⟩ := on_bind_eq_ok hopened
    cases hopened
    exact ⟨rfl, nofun⟩
  | event hw hr ih =>
    rcases Handler.handle_eq_ok hr with rfl | ⟨z, hn⟩
    · exact ih
    · rcases Handler.renewed_eq_ok hn with rfl | ⟨m, c, z', -, rfl⟩
      · exact ih
      · exact ⟨ih.settings, ih.options⟩

/-- A fault that ends the watching: the manifest is changed to what the build does not foresee,
compiling fails by more than a script, or a compiled script cannot be removed. -/
inductive Lethal (run : Runner) (h : Handler) (e : Event) (d d' : Disk) : Fault → Prop where
  | manifest {f : Fault} (he : isManifest e.path = true) (hk : e.kind ≠ .removed)
    (hf : Unforeseen h.settings d f) : Lethal run h e d d' f
  | script {f : Fault} (hf : Uncaught run d' f) : Lethal run h e d d' f
  | removal {f : Fault} (he : isScript e.path = true) (hk : e.kind = .removed)
    (hf : d.IsStuck (h.context.outputOf e.path) f) : Lethal run h e d d' f

theorem Handler.faults_reload (ho : h.options ≠ none) (x : World) : Faults h.reload x fun _ f =>
    Unforeseen h.settings x.disk f := by
  refine .bind .outcome fun r y hr => ?_
  have hprepare := on_outcome_eq_ok hr
  rcases r with f | ⟨m, c⟩
  · dsimp only
    split_ifs with htolerated
    · have hnot : ¬isTolerated f = true := by simpa using htolerated
      have hunforeseen : Unforeseen h.settings x.disk f := by
        rcases faults_prepare h.settings h.options true x f y hprepare with hf | hf | ⟨hf, -⟩
        · exact absurd hf hnot
        · exact hf
        · exact absurd hf ho
      exact Faults.bind (Faults.throw hunforeseen) fun _ _ h => by cases h
    · exact .bind (.log _ _) fun _ _ _ => .pure _
  · exact .bind (.log _ _) fun _ _ _ => .pure _

theorem Handler.faults_respond (run : Runner) (h : Handler) (e : Event) (x : World) :
    Faults (h.respond run e) x fun y f => Uncaught run y.disk f ∨
      isManifest e.path = false ∧ isScript e.path = true ∧ e.kind = .removed ∧
        x.disk.IsStuck (h.context.outputOf e.path) f := by
  unfold respond
  split_ifs with hmanifest hkind hscript hkind
  · refine .bind (.bind (fun f y h => by cases h) fun _ _ _ => .pure _) fun ps y _ => ?_
    exact .bind ((faults_compileAll run h.context none ps y).mono fun _ _ hf => .inl hf)
      fun _ _ _ => .pure _
  · exact .pure _
  · refine .bind ((faults_removeCompiled h.context e.path x).mono fun _ f hf => ?_) fun _ _ _ =>
      .pure _
    exact .inr ⟨by simpa using hmanifest, hscript, hkind, hf⟩
  · exact .bind ((faults_compileScript run h.context e.path x).mono fun _ _ hf => .inl hf)
      fun _ _ _ => .pure _
  · exact .pure _

theorem Handler.renewed_of_not_manifest (he : isManifest e.path = false)
    (hr : (h.renewed e).on x = (.ok h', y)) : h' = h ∧ y = x := by
  rw [renewed, if_neg (by simp [he])] at hr
  cases hr
  exact ⟨rfl, rfl⟩

/-- A manifest whose bytes are no text ends the watching. -/
theorem Handler.handle_of_isBroken {err : Text.Utf8.DecodeError} (he : isManifest e.path = true)
    (hk : e.kind ≠ .removed) (hbroken : x.disk.IsBroken (h.settings.root.child manifestName) err) :
    (h.handle run e).on x = (.ok (h, some (.decoding err)), x) := by
  have hprepare : (prepare h.settings h.options true).on x = (.error (.decoding err), x) :=
    on_bind_error (on_readIntegrations_of_isBroken hbroken)
  refine on_handle_of_stale ?_
  rw [renewed, if_pos (by simp [he, hk])]
  refine (on_bind_ok (on_outcome _ x)).trans ?_
  rw [hprepare]
  rfl

/-- A handler comes to an end with every event, and what it does not outlive has a cause. It keeps
its context, unless the event tells of a manifest that can be read. -/
theorem Watched.handle_cases (hw : Watched run s h) (e : Event) (x : World) :
    ∃ h' r y, (h.handle run e).on x = (.ok (h', r), y) ∧
      (∀ f, r = some f → Lethal run h e x.disk y.disk f) ∧
      (h'.context = h.context ∨ isManifest e.path = true ∧ e.kind ≠ .removed ∧
        ∃ m z, (prepare s h.options true).on x = (.ok (m, h'.context), z)) := by
  have hmanifest (hm : (isManifest e.path && decide (e.kind ≠ .removed)) = true) :
      isManifest e.path = true ∧ e.kind ≠ .removed := by simpa using hm
  -- Either reading the manifest again fails, or the scripts are compiled in what it has given.
  rcases hn : (h.renewed e).on x with ⟨f | h', z⟩
  · refine ⟨h, some f, z, Handler.on_handle_of_stale hn, ?_, .inl rfl⟩
    rintro _ ⟨⟩
    unfold Handler.renewed at hn
    split_ifs at hn with hm
    · obtain ⟨hpath, hkind⟩ := hmanifest hm
      exact .manifest hpath hkind (Handler.faults_reload hw.keeps.options x f z hn)
    · cases hn
  · have hcontext : h'.context = h.context ∨ isManifest e.path = true ∧ e.kind ≠ .removed ∧
        ∃ m z, (prepare s h.options true).on x = (.ok (m, h'.context), z) := by
      cases hm : isManifest e.path && decide (e.kind ≠ .removed) with
      | false =>
        rw [Handler.renewed, hm] at hn
        cases hn
        exact .inl rfl
      | true =>
        rcases Handler.renewed_eq_ok hn with rfl | ⟨m, c, z', hprepare, rfl⟩
        · exact .inl rfl
        · rw [hw.keeps.settings] at hprepare
          exact .inr ⟨(hmanifest hm).1, (hmanifest hm).2, m, z', hprepare⟩
    rcases hs : (h'.respond run e).on z with ⟨f | u, y⟩
    · refine ⟨h', some f, y, Handler.on_handle_of_fault hn hs, ?_, hcontext⟩
      rintro _ ⟨⟩
      rcases Handler.faults_respond run h' e z f y hs with hf | ⟨hpath, hscript, hkind, hf⟩
      · exact .script hf
      · obtain ⟨rfl, rfl⟩ := Handler.renewed_of_not_manifest hpath hn
        exact .removal hscript hkind hf
    · refine ⟨h', none, y, Handler.on_handle_of_ok hn hs, ?_, hcontext⟩
      rintro f ⟨⟩

/-- A small project is watched. -/
theorem watched_of_sample : ∃ h, Watched Sample.echo Sample.settings h := by
  obtain ⟨h, y, hc, hy, hstart⟩ := Sample.start_of_script "" none
  obtain ⟨o, x, hcompile, -, -⟩ := Sample.compile_empty hc hy
  exact ⟨h, .start (hstart o x hcompile)⟩

/-- The small project, with a manifest that is no text. -/
def spoiled : World where
  disk := (Sample.project "" (some "")).set ["p", "nango.yaml"] (.file [0xFF])
  log := []

/-- The manifest has changed. -/
def manifestChanged : Event := ⟨.changed, Sample.root.child manifestName⟩

theorem handle_spoiled : ∃ h, Watched Sample.echo Sample.settings h ∧
    ∃ h' r y, (h.handle Sample.echo manifestChanged).on spoiled = (.ok (h', r), y) ∧
      (∀ f, r = some f → Lethal Sample.echo h manifestChanged spoiled.disk y.disk f) ∧
      (h'.context = h.context ∨
        isManifest manifestChanged.path = true ∧ manifestChanged.kind ≠ .removed ∧
        ∃ m z, (prepare Sample.settings h.options true).on spoiled = (.ok (m, h'.context), z)) := by
  obtain ⟨h, hw⟩ := watched_of_sample
  exact ⟨h, hw, hw.handle_cases manifestChanged spoiled⟩

/-- The handler does not keep its configuration and go on, but fails. -/
theorem not_survived : ∃ h, Watched Sample.echo Sample.settings h ∧
    ∃ f, (h.handle Sample.echo manifestChanged).on spoiled = (.ok (h, some f), spoiled) := by
  obtain ⟨h, hw⟩ := watched_of_sample
  have hbroken : spoiled.disk.IsBroken (h.settings.root.child manifestName) ⟨0, [0xFF], .start⟩ := by
    rw [hw.keeps.settings]
    exact ⟨[0xFF], rfl, rfl⟩
  exact ⟨h, hw, _, Handler.handle_of_isBroken (by decide) (by decide) hbroken⟩

end Watch
end FlowPipeline
