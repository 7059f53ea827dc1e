import FlowPipeline.Deployment
import FlowPipeline.Proofs.Artifacts
import FlowPipeline.Proofs.Packaging

/-! # The gate in front of the output directory

A run compiles, packages and watches projects in any order, and others may change the file system at
any time between its steps. Whatever it writes to an output directory is the compiled form of a
script which is, at the moment of the write, that of a flow and without errors in the context that
the step compiles with.
-/

namespace FlowPipeline

/-- A path leads into a directory. -/
def Disk.IsIn (d : Disk) (dir p : Path) : Prop :=
  (d.resolve dir).names <+: (d.resolve p).names

/-- The type definitions are not in the output directory. -/
theorem Disk.not_isIn_types {s : Settings} (h : s.output = s.root.child "dist") (d : Disk) :
    ¬d.IsIn s.output (s.root.child TypeDefinitions.fileName) := by
  rw [IsIn, h, resolve_child d _ (by decide), resolve_child d _ (by decide)]
  simp [TypeDefinitions.fileName]

open Work Build Watch

/-- What a run is made of. -/
inductive Step where
  | compile (w : Wishes) (script : Option String) (matching : Bool)
  | package (w : Wishes) (version : String) (wanted : Selection) (now : Moment)
  | watch (w : Wishes)
  | attach (w : Wishes) (options : Option CompilerOptions)
  | compileExisting
  | event (e : Event)

namespace Step

def resolved (w : Wishes) : Work Settings := do
  ofExcept Fault.settings (Settings.resolve (← disk) w)

/-- Does a step, where `h` is the handler at work, and says which one is afterwards. -/
def perform (run : Runner) (h : Option Handler) : Step → Work (Option Handler)
  | compile w script matching => do
    let _ ← Build.compile run (← resolved w) script matching
    return h
  | package w version wanted now => do
    let _ ← Deployment.ofProject run (← resolved w) version wanted now
    return h
  | watch w => do return some (← start run (← resolved w))
  | attach w options => do return some (← handler (← resolved w) options)
  | compileExisting => do
    match h with
    | none => return none
    | some h =>
      h.compileExisting run
      return some h
  | event e => do
    match h with
    | none => return none
    | some h => return some (← h.handle run e).1

/-- The settings of the project that a step works on. -/
def settings (h : Option Handler) : Step → Work (Option Settings)
  | compile w _ _ | package w _ _ _ | watch w | attach w _ => some <$> resolved w
  | compileExisting | event _ => return h.map Handler.settings

/-- The context in force when a step compiles scripts. -/
def context (h : Option Handler) : Step → Work (Option Context)
  | compile w _ _ | package w _ _ _ => do return some (← prepare (← resolved w) none false).2
  | watch w => do return some (← opened (← resolved w)).context
  | attach w options => do return some (← handler (← resolved w) options).context
  | compileExisting => return h.map Handler.context
  | event e => do
    match h with
    | none => return none
    | some h => return some (← h.renewed e).context

end Step

/-- A world, and the handler at work in it, that a run comes to. -/
inductive Reached (run : Runner) : World → Option Handler → Prop where
  | start (d : Disk) : Reached run { disk := d, log := [] } none
  /-- Others change the file system. -/
  | disturbed {x : World} {h : Option Handler} (hx : Reached run x h) (d : Disk) :
    Reached run { x with disk := d } h
  /-- A step is done. One that fails leaves the handler that was there. -/
  | step {x : World} {h : Option Handler} (hx : Reached run x h) (st : Step) :
    Reached run ((st.perform run h).on x).2 (((st.perform run h).on x).1.toOption.getD h)

/-! ## What each step writes -/

/-- A file of the output directory is written only as the compiled form of a script that passes in a
context in force. -/
def Admitted (run : Runner) (s : Settings) (inForce : Context → Prop) (d : Disk) (e : Edit) :
    Prop :=
  ∀ p bytes, e = .write p bytes → d.IsIn s.output p →
    ∃ c, inForce c ∧ ∃ script source output, d.text? script = some source ∧
      Passes run c script source output ∧
      p = s.output.join (Path.ofString (script.stem ++ ".js")) ∧ bytes = bytesOf output

variable {run : Runner} {s : Settings} {inForce : Context → Prop} {d : Disk} {e : Edit}

theorem Admitted.of_isTypes (hs : s.output = s.root.child "dist") (h : IsTypes s d e) :
    Admitted run s inForce d e := by
  obtain ⟨bytes, rfl⟩ := h
  intro p b he hin
  obtain ⟨rfl, -⟩ := Edit.write.inj he
  exact absurd hin (d.not_isIn_types hs)

theorem Admitted.of_gated {c : Context} (hc : inForce c) (hout : c.output = s.output)
    (h : Gated run c d e) : Admitted run s inForce d e := by
  intro p bytes he _
  obtain ⟨script, source, output, hs, hp, hpath, hb⟩ := h p bytes he
  refine ⟨c, hc, script, source, output, hs, hp, ?_, hb⟩
  rw [hpath, Context.outputOf, hout]

theorem Admitted.covers {c : Context} (hc : inForce c) (hout : c.output = s.output) :
    Covers run c (Admitted run s inForce) :=
  (covers_gated run c).mono fun _ _ => of_gated hc hout

theorem Admitted.makeDirs (d : Disk) (p : Path) : Admitted run s inForce d (.makeDirs p) := by
  intro q bytes h
  cases h

theorem leads_compile (hs : s.output = s.root.child "dist") (script : Option String)
    (matching : Bool) (x : World) :
    x.Leads (Admitted run s fun c => ∃ m y, (prepare s none false).on x = (.ok (m, c), y))
      ((Build.compile run s script matching).on x).2 := by
  refine Build.leads_compile (fun _ _ => .of_isTypes hs) (fun d => .makeDirs d _) ?_ script matching
  exact fun m c y hp => Admitted.covers ⟨m, y, hp⟩ (prepare_eq_ok hp).2.1

theorem leads_ofProject (hs : s.output = s.root.child "dist") (version : String)
    (wanted : Selection) (now : Moment) (x : World) :
    x.Leads (Admitted run s fun c => ∃ m y, (prepare s none false).on x = (.ok (m, c), y))
      ((Deployment.ofProject run s version wanted now).on x).2 :=
  Deployment.leads_ofProject (leads_compile hs none false x) version wanted now

theorem leads_start (hs : s.output = s.root.child "dist") (x : World) :
    x.Leads (Admitted run s fun c => ∃ h y, (opened s).on x = (.ok h, y) ∧ c = h.context)
      ((start run s).on x).2 := by
  refine Watch.leads_start (fun _ _ => .of_isTypes hs) (fun d => .makeDirs d _) fun h y ho => ?_
  obtain ⟨hsettings, hc⟩ := opened_eq_ok hs ho
  exact Admitted.covers ⟨h, y, ho, rfl⟩ (by rw [hc.contextOutput, hsettings])

theorem leads_handle {h : Handler} (hc : h.Coherent) (e : Event) (x : World) :
    x.Leads (Admitted run h.settings fun c =>
        ∃ h' y, (h.renewed e).on x = (.ok h', y) ∧ c = h'.context)
      ((h.handle run e).on x).2 := by
  refine Handler.leads_handle (fun _ _ => .of_isTypes hc.output) fun h' y hr => ?_
  obtain ⟨hsettings, hc'⟩ := hc.renewed hr
  exact Admitted.covers ⟨h', y, hr, rfl⟩ (by rw [hc'.contextOutput, hsettings])

/-! ## Runs -/

/-- The handler at work, if there is one, is coherent. -/
def CoherentIfAny (o : Option Handler) : Prop := ∀ h, o = some h → h.Coherent

theorem Step.on_resolved_eq_ok {w : Wishes} {s : Settings} {x y : World}
    (h : (resolved w).on x = (.ok s, y)) : y = x ∧ Settings.resolve x.disk w = .ok s := by
  rw [resolved, on_bind_ok (on_disk x), on_ofExcept] at h
  rcases hr : Settings.resolve x.disk w with f | s'
  · rw [hr] at h
    cases h
  · rw [hr] at h
    cases h
    exact ⟨rfl, rfl⟩

/-- What starts with the settings of a project does nothing if there are none. -/
theorem Step.leads_resolved_bind {α : Type} {f : Settings → Work α} {w : Wishes} {x : World}
    {P : Disk → Edit → Prop}
    (hl : ∀ s, (resolved w).on x = (.ok s, x) → x.Leads P ((f s).on x).2) :
    x.Leads P ((resolved w >>= f).on x).2 := by
  have hreads : Reads (resolved w) := .bind .readDisk fun _ => .ofExcept _ _
  refine leads_bind (hreads.leads x) fun s y hr => ?_
  obtain ⟨rfl, -⟩ := on_resolved_eq_ok hr
  exact hl s hr

/-- A handler at work after a step has been at work before, or is new, or has handled an event. -/
theorem Step.perform_handler {P : Handler → Prop} {o o' : Option Handler} {st : Step} {x y : World}
    (ho : ∀ h, o = some h → P h)
    (hnew : ∀ {w s options h z z'}, (resolved w).on x = (.ok s, x) →
      (handler s options).on z = (.ok h, z') → P h)
    (hhandle : ∀ {h h' e f z}, P h → (h.handle run e).on x = (.ok (h', f), z) → P h')
    (h : (st.perform run o).on x = (.ok o', y)) : ∀ h', o' = some h' → P h' := by
  cases st with
  | compile w script matching =>
    obtain ⟨s, z, -, h⟩ := on_bind_eq_ok h
    obtain ⟨r, z', -, h⟩ := on_bind_eq_ok h
    cases h
    exact ho
  | package w version wanted now =>
    obtain ⟨s, z, -, h⟩ := on_bind_eq_ok h
    obtain ⟨r, z', -, h⟩ := on_bind_eq_ok h
    cases h
    exact ho
  | watch w =>
    obtain ⟨s, z, hs, h⟩ := on_bind_eq_ok h
    obtain ⟨h', z', hh, h⟩ := on_bind_eq_ok h
    cases h
    obtain ⟨_, _, _, hopened, -⟩ := start_eq_ok hh
    obtain ⟨options, _, -, hhandler⟩ := on_bind_eq_ok hopened
    obtain ⟨rfl, -⟩ := on_resolved_eq_ok hs
    rintro _ ⟨⟩
    exact hnew hs hhandler
  | attach w options =>
    obtain ⟨s, z, hs, h⟩ := on_bind_eq_ok h
    obtain ⟨h', z', hh, h⟩ := on_bind_eq_ok h
    cases h
    obtain ⟨rfl, -⟩ := on_resolved_eq_ok hs
    rintro _ ⟨⟩
    exact hnew hs hh
  | compileExisting =>
    rcases o with _ | hd
    · cases h
      exact ho
    · obtain ⟨_, _, -, h⟩ := on_bind_eq_ok h
      cases h
      exact ho
  | event e =>
    rcases o with _ | hd
    · cases h
      exact ho
    · obtain ⟨r, _, hr, h⟩ := on_bind_eq_ok h
      cases h
      rintro _ ⟨⟩
      exact hhandle (ho hd rfl) hr

theorem Step.perform_coherent {o o' : Option Handler} (ho : CoherentIfAny o) {st : Step}
    {x y : World} (h : (st.perform run o).on x = (.ok o', y)) : CoherentIfAny o' := by
  refine perform_handler ho (fun hs hh => ?_) (fun hc hr => hc.handle hr) h
  exact (handler_eq_ok (Settings.resolve_eq_ok (on_resolved_eq_ok hs).2).2.2 hh).2

theorem Reached.coherent {x : World} {o : Option Handler} (hx : Reached run x o) :
    CoherentIfAny o := by
  induction hx with
  | start => simp [CoherentIfAny]
  | disturbed _ _ ih => exact ih
  | @step x o hx st ih =>
    rcases hp : (st.perform run o).on x with ⟨f | o', y⟩
    · exact ih
    · exact Step.perform_coherent ih hp

/-- What a step may write when it is done in a world: of the files in the output directory of its
project only the compiled form of a script, which at the moment of the write has the source that is
compiled and is eligible in the context of the step. -/
def Step.Allows (run : Runner) (x : World) (o : Option Handler) (st : Step) (d : Disk) (e : Edit) :
    Prop :=
  ∀ p bytes, e = .write p bytes → ∃ s, (st.settings o).on x = (.ok (some s), x) ∧
    (d.IsIn s.output p → ∃ c y, (st.context o).on x = (.ok (some c), y) ∧
      ∃ script source output, d.text? script = some source ∧ Eligible c script source ∧
        run (Compiler.command Compiler.program c.options script) source = .ok output ∧
        p = s.output.join (Path.ofString (script.stem ++ ".js")) ∧ bytes = bytesOf output)

theorem Admitted.allows {x : World} {o : Option Handler} {st : Step}
    (hs : (st.settings o).on x = (.ok (some s), x))
    (hc : ∀ c, inForce c → ∃ y, (st.context o).on x = (.ok (some c), y))
    (h : Admitted run s inForce d e) : st.Allows run x o d e := by
  intro p bytes he
  refine ⟨s, hs, fun hin => ?_⟩
  obtain ⟨c, hforce, script, source, output, hsource, hpasses, hp, hb⟩ := h p bytes he hin
  obtain ⟨y, hy⟩ := hc c hforce
  exact ⟨c, y, hy, script, source, output, hsource, hpasses.eligible, hpasses.compiles, hp, hb⟩

/-- A step that starts with the settings of a project is judged by what it does with them. -/
theorem leads_resolved {α : Type} {f : Settings → Work α} {w : Wishes} {x : World}
    {o : Option Handler} {st : Step} (inForce : Settings → Context → Prop)
    (hs : st.settings o = some <$> Step.resolved w)
    (hc : ∀ s c, (Step.resolved w).on x = (.ok s, x) → inForce s c →
      ∃ y, (st.context o).on x = (.ok (some c), y))
    (hl : ∀ s, s.output = s.root.child "dist" →
      x.Leads (Admitted run s (inForce s)) ((f s).on x).2) :
    x.Leads (st.Allows run x o) ((Step.resolved w >>= f).on x).2 := by
  refine Step.leads_resolved_bind fun s hr => ?_
  have hsettings : (st.settings o).on x = (.ok (some s), x) := by
    rw [hs, on_map, hr]
    rfl
  have hout := (Settings.resolve_eq_ok (Step.on_resolved_eq_ok hr).2).2.2
  exact (hl s hout).mono fun d e h => h.allows hsettings fun c => hc s c hr

/-- In every run, each step writes to the output directory what it is allowed to write only: nothing
passes the gate but eligible scripts. -/
theorem Reached.leads_perform {x : World} {o : Option Handler} (hx : Reached run x o) (st : Step) :
    x.Leads (st.Allows run x o) ((st.perform run o).on x).2 := by
  cases st with
  | compile w script matching =>
    refine leads_resolved _ rfl ?_ fun s hs =>
      leads_bind (leads_compile hs script matching x) fun _ _ _ => .refl _
    rintro s c hr ⟨m, y, hp⟩
    exact ⟨y, (on_bind_ok hr).trans (on_bind_ok hp)⟩
  | package w version wanted now =>
    refine leads_resolved _ rfl ?_ fun s hs =>
      leads_bind (leads_ofProject hs version wanted now x) fun _ _ _ => .refl _
    rintro s c hr ⟨m, y, hp⟩
    exact ⟨y, (on_bind_ok hr).trans (on_bind_ok hp)⟩
  | watch w =>
    refine leads_resolved _ rfl ?_ fun s hs => leads_bind (leads_start hs x) fun _ _ _ => .refl _
    rintro s _ hr ⟨h, y, ho, rfl⟩
    exact ⟨y, (on_bind_ok hr).trans (on_bind_ok ho)⟩
  | attach w options =>
    -- The new handler compiles nothing yet, so no context is in force.
    refine leads_resolved (fun _ _ => False) rfl (fun _ _ _ hf => hf.elim) fun s hs => ?_
    refine leads_bind ?_ fun _ _ _ => .refl _
    exact (leads_handler s options x).mono fun _ _ => Admitted.of_isTypes hs
  | compileExisting =>
    rcases o with _ | h
    · exact .refl x
    · have hc := hx.coherent h rfl
      refine leads_bind ?_ fun _ _ _ => .refl _
      refine (h.leads_compileExisting run x).mono fun d e hg => ?_
      have hadmitted : Admitted run h.settings (· = h.context) d e :=
        .of_gated rfl hc.contextOutput hg
      refine hadmitted.allows rfl ?_
      rintro _ rfl
      exact ⟨x, rfl⟩
  | event e =>
    rcases o with _ | h
    · exact .refl x
    · refine leads_bind ?_ fun _ _ _ => .refl _
      refine (leads_handle (hx.coherent h rfl) e x).mono fun d e hg => hg.allows rfl ?_
      rintro _ ⟨h', y, hr, rfl⟩
      exact ⟨y, on_bind_ok hr⟩

theorem Sample.on_resolved (source : String) (compiled : Option String) :
    (Step.resolved wishes).on (fresh source compiled) = (.ok settings, fresh source compiled) := by
  refine (on_bind_ok (on_disk _)).trans ?_
  rw [on_ofExcept]
  exact congrArg (fun r => (Except.mapError Fault.settings r, fresh source compiled))
    (resolve_eq source compiled)

open Sample

/-- Watching a project whose only script is not compiled writes the compiled form. -/
theorem Reached.leads_perform_watch :
    (fresh "" none).Leads (Step.Allows echo (fresh "" none) none (.watch wishes))
        (((Step.watch wishes).perform echo none).on (fresh "" none)).2 ∧
      (project "" none, .write artifact (bytesOf "")) ∈
        (((Step.watch wishes).perform echo none).on (fresh "" none)).2.history := by
  refine ⟨Reached.leads_perform (.start (project "" none)) (.watch wishes), ?_⟩
  obtain ⟨h, y, hc, hy, hstart⟩ := start_of_script "" none
  obtain ⟨o, x, ho, -, hmem⟩ := compile_empty hc hy
  have hperform : ((Step.watch wishes).perform echo none).on (fresh "" none) = (.ok (some h), x) :=
    (on_bind_ok (on_resolved "" none)).trans ((on_bind_ok (hstart o x ho)).trans rfl)
  rw [hperform, ← hy]
  exact hmem

end FlowPipeline
