import FlowPipeline.Build
import FlowPipeline.Proofs.WorkRuns

/-! # What compiling scripts writes

A script of a flow passes if nothing in it is an error and the compiler makes something of it. What
passes is written to the entry of the output directory that is named for the stem, and nothing else
is written when scripts are compiled. Before scripts are compiled, only the type definitions are.
-/

namespace FlowPipeline

/-- What settings are made of, if there are settings. -/
theorem Settings.resolve_parts {d : Disk} {w : Wishes} {s : Settings}
    (h : Settings.resolve d w = .ok s) :
    d.isDir (d.resolve w.root) = .ok true ∧ Text.trim w.tag ≠ "" ∧ ∃ options types,
      compilerOptionsOf d (d.resolve w.root) w.compilerOptions = .ok options ∧
      hostTypesOf d (d.resolve w.root) w = .ok types ∧
      s = {
        address := Host.address (Text.trim w.tag) w.environment
        secretKey := Host.secretKey? (Text.trim w.tag) w.environment
        tag := Text.trim w.tag
        root := d.resolve w.root
        output := (d.resolve w.root).child "dist"
        compilerOptions := options
        hostTypes := types
        debug := w.debug } := by
  unfold Settings.resolve at h
  obtain ⟨there, hdir, h⟩ := Except.eq_ok_of_bind h
  have hdir := Except.eq_ok_of_mapError hdir
  cases there with
  | false => cases h
  | true =>
    simp only [Bool.not_true, Bool.false_eq_true, if_false] at h
    split_ifs at h with htag
    · cases h
    · obtain ⟨options, hoptions, h⟩ := Except.eq_ok_of_bind h
      obtain ⟨types, htypes, h⟩ := Except.eq_ok_of_bind h
      cases h
      exact ⟨hdir, htag, options, types, hoptions, htypes, rfl⟩

/-- The settings of a project are for a directory that is there. -/
theorem Settings.resolve_eq_ok {d : Disk} {w : Wishes} {s : Settings}
    (h : Settings.resolve d w = .ok s) :
    s.root = d.resolve w.root ∧ d.entryAt? s.root = some .dir ∧ s.output = s.root.child "dist" := by
  obtain ⟨hdir, -, _, _, -, -, rfl⟩ := Settings.resolve_parts h
  exact ⟨rfl, Disk.entryAt?_of_isDir hdir, rfl⟩

/-- The bytes of a file that a text is written to: none if the text cannot be encoded. -/
def Work.bytesOf (s : String) : List UInt8 :=
  match Text.Utf8.encoded s with
  | .ok bytes => bytes
  | .error _ => []

/-- A file holds a text. -/
def Disk.Holds (d : Disk) (p : Path) (s : String) : Prop :=
  ∃ bytes, Text.Utf8.encoded s = .ok bytes ∧ d.read p = .ok bytes

namespace Build

/-- The stem of a script is a flow, and a source has no errors as the script of this flow. -/
def Eligible (c : Context) (script : Path) (source : String) : Prop :=
  ∃ flow report, c.flowOf? script = some flow ∧
    Lint.lint source flow.type c.models script.toText = .ok report ∧ report.errors = []

/-- A source is eligible as a script of the project, and the compiler makes `output` of it. -/
structure Passes (run : Runner) (c : Context) (script : Path) (source output : String) : Prop where
  eligible : Eligible c script source
  compiles : run (Compiler.command Compiler.program c.options script) source = .ok output

theorem Passes.unique {run : Runner} {c : Context} {script : Path} {source o o' : String}
    (h : Passes run c script source o) (h' : Passes run c script source o') : o = o' := by
  have := h.compiles.symm.trans h'.compiles
  simpa using this

/-- A file is written only as the compiled form of a script that passes at that moment. -/
def Gated (run : Runner) (c : Context) (d : Disk) (e : Edit) : Prop :=
  ∀ p bytes, e = .write p bytes → ∃ script source output,
    d.text? script = some source ∧ Passes run c script source output ∧
      p = c.outputOf script ∧ bytes = Work.bytesOf output

theorem gated_write {run : Runner} {c : Context} {d : Disk} {script : Path}
    {source output : String} (h : d.text? script = some source)
    (hp : Passes run c script source output) :
    Gated run c d (.write (c.outputOf script) (Work.bytesOf output)) := by
  intro p bytes he
  obtain ⟨hp', hb⟩ := Edit.write.inj he
  exact ⟨script, source, output, h, hp, hp'.symm, hb.symm⟩

theorem gated_makeDirs (run : Runner) (c : Context) (d : Disk) (p : Path) :
    Gated run c d (.makeDirs p) := by
  intro q bytes h
  cases h

theorem gated_remove (run : Runner) (c : Context) (d : Disk) (p : Path) :
    Gated run c d (.remove p) := by
  intro q bytes h
  cases h

/-- A property that every change has which compiling scripts in a context makes. -/
structure Covers (run : Runner) (c : Context) (P : Disk → Edit → Prop) : Prop where
  makeDirs : ∀ d script, P d (.makeDirs (c.outputOf script).parent)
  write : ∀ d script source output, d.text? script = some source →
    Passes run c script source output → P d (.write (c.outputOf script) (Work.bytesOf output))
  remove : ∀ d script, P d (.remove (c.outputOf script))

theorem covers_gated (run : Runner) (c : Context) : Covers run c (Gated run c) where
  makeDirs d _ := gated_makeDirs run c d _
  write _ _ _ _ := gated_write
  remove d _ := gated_remove run c d _

theorem Covers.mono {run : Runner} {c : Context} {P Q : Disk → Edit → Prop} (h : Covers run c P)
    (hpq : ∀ d e, P d e → Q d e) : Covers run c Q where
  makeDirs d script := hpq _ _ (h.makeDirs d script)
  write d script source output hs hp := hpq _ _ (h.write d script source output hs hp)
  remove d script := hpq _ _ (h.remove d script)

end Build

namespace Work

theorem on_writeText (p : Path) (s : String) (x : World) :
    (writeText p s).on x =
      match x.disk.write p (bytesOf s) with
      | .ok d =>
        ((Text.Utf8.encoded s).map (fun _ => ()) |>.mapError .encoding,
          { x with disk := d, history := x.history ++ [(x.disk, .write p (bytesOf s))] })
      | .error f => (.error (.file f), x) := by
  unfold writeText bytesOf
  rcases hs : Text.Utf8.encoded s with e | bytes
  · simp only
    rw [on_bind, on_change]
    simp only [Edit.apply]
    rcases x.disk.write p [] with f | d <;> rfl
  · simp only
    rw [on_change]
    simp only [Edit.apply]
    rcases x.disk.write p bytes with f | d <;> rfl

theorem on_writeText_cases {p : Path} {s : String} {x y : World} {r : Except Fault Unit}
    (h : (writeText p s).on x = (r, y)) :
    (y = x ∧ ∃ f, x.disk.write p (bytesOf s) = .error f ∧ r = .error (.file f)) ∨
      x.disk.write p (bytesOf s) = .ok y.disk ∧
        r = ((Text.Utf8.encoded s).map fun _ => ()).mapError .encoding := by
  rw [on_writeText] at h
  rcases hw : x.disk.write p (bytesOf s) with f | d <;> rw [hw] at h <;> cases h
  · exact .inl ⟨rfl, f, rfl, rfl⟩
  · exact .inr ⟨rfl, rfl⟩

theorem on_writeText_eq_ok {p : Path} {s : String} {x y : World} {u : Unit}
    (h : (writeText p s).on x = (.ok u, y)) :
    ∃ bytes, Text.Utf8.encoded s = .ok bytes ∧ x.disk.write p bytes = .ok y.disk := by
  rcases on_writeText_cases h with ⟨-, f, -, hr⟩ | ⟨hw, hr⟩
  · cases hr
  · rcases hs : Text.Utf8.encoded s with e | bytes <;> rw [hs] at hr <;> cases hr
    exact ⟨bytes, rfl, by rw [← hw, bytesOf, hs]⟩

theorem leads_writeText {P : Disk → Edit → Prop} {p : Path} {s : String} {x : World}
    (h : P x.disk (.write p (bytesOf s))) : x.Leads P ((writeText p s).on x).2 := by
  rw [on_writeText]
  rcases hw : x.disk.write p (bytesOf s) with f | d
  · exact .refl x
  · exact ⟨[(x.disk, .write p (bytesOf s))], rfl, .cons hw (.nil d), by simpa using h⟩

end Work

namespace Build
open Work

variable {run : Runner} {c : Context} {script : Path}

/-! ## Before scripts are compiled -/

theorem reads_readManifest (root : Path) : Reads (readManifest root) :=
  .bind (.has _) fun _ => .guard (.bind (.readText _) fun _ => .ofExcept _ _)

theorem on_readManifest {root : Path} {x : World} {text : String}
    (hhas : x.disk.has (root.child manifestName) = .ok true)
    (htext : x.disk.text? (root.child manifestName) = some text) :
    (readManifest root).on x = ((Manifest.parse text).mapError .manifest, x) := by
  have hthere : (has (root.child manifestName)).on x = (.ok true, x) := by
    rw [on_has, hhas]
    rfl
  refine (on_bind_ok hthere).trans ?_
  exact (on_bind_ok (on_readText_of_text? htext)).trans (on_ofExcept _ _ _)

theorem reads_readIntegrations (root : Path) : Reads (readIntegrations root) :=
  .bind (reads_readManifest root) fun m => .bind (.normalize m) fun _ =>
    .bind (.logAll _) fun _ => .pure _

theorem reads_readOptions (file : Option Path) : Reads (readOptions file) := by
  cases file with
  | none => exact .pure _
  | some p => exact .bind (.has _) fun _ => .guard (.bind (.readText _) fun _ => .ofExcept _ _)

theorem reads_projectOptions (s : Settings) : Reads (projectOptions s) := by
  refine .bind (reads_readOptions _) fun o => ?_
  split_ifs
  · exact .bind (.log _ _) fun _ => .pure _
  · exact .pure _

theorem reads_optionsOr (s : Settings) (options : Option CompilerOptions) :
    Reads (optionsOr s options) := by
  cases options with
  | none => exact reads_projectOptions s
  | some o => exact .pure o

theorem reads_hostTypes (s : Settings) : Reads (hostTypes s) := by
  unfold hostTypes
  split
  · exact .pure _
  · exact .map (.readText _)

theorem reads_scripts (root : Path) : Reads (scripts root) := .bind .readDisk fun _ => .pure _

theorem reads_wanted (root : Path) (name : Option String) : Reads (wanted root name) := by
  cases name with
  | none => exact reads_scripts root
  | some n => exact .bind (.has _) fun _ => .guard (.pure _)

/-- The type definitions of a project are written, and nothing else. -/
def IsTypes (s : Settings) (_ : Disk) (e : Edit) : Prop :=
  ∃ bytes, e = .write (s.root.child TypeDefinitions.fileName) bytes

theorem leads_writeTypes (s : Settings) (m : Manifest) (is : List Integration) (x : World) :
    x.Leads (IsTypes s) ((writeTypes s m is).on x).2 := by
  refine leads_bind ((reads_hostTypes s).leads x) fun host y _ => ?_
  refine leads_bind ((Reads.ofExcept _ _).leads y) fun text z _ => ?_
  exact leads_bind (leads_writeText ⟨_, rfl⟩) fun _ _ _ => .refl _

theorem leads_prepare (s : Settings) (options : Option CompilerOptions) (renew : Bool)
    (x : World) : x.Leads (IsTypes s) ((prepare s options renew).on x).2 := by
  have hend (m : Manifest) (is : List Integration) : Reads (do
      let options ← optionsOr s options
      return (m, ⟨s.root, s.output, is, Integration.modelNames is, options⟩) :
      Work (Manifest × Context)) :=
    .bind (reads_optionsOr s options) fun _ => .pure _
  refine leads_bind ((reads_readIntegrations s.root).leads x) fun mi y _ => ?_
  refine leads_bind ((Reads.has _).leads y) fun there z _ => ?_
  split_ifs
  · refine leads_bind (leads_writeTypes s mi.1 mi.2 z) fun p z' _ => ?_
    exact leads_bind ((Reads.log _ _).leads z') fun _ z'' _ => (hend mi.1 mi.2).leads z''
  · exact (hend mi.1 mi.2).leads z

theorem prepare_eq_ok {s : Settings} {options : Option CompilerOptions} {renew : Bool}
    {x y : World} {m : Manifest} {c : Context}
    (h : (prepare s options renew).on x = (.ok (m, c), y)) :
    c.root = s.root ∧ c.output = s.output ∧ c.models = Integration.modelNames c.integrations ∧
      ∃ z, (readIntegrations s.root).on x = (.ok (m, c.integrations), z) := by
  have hend {m' : Manifest} {is : List Integration} {z : World} (h : (do
      let options ← optionsOr s options
      return (m', ⟨s.root, s.output, is, Integration.modelNames is, options⟩) :
      Work (Manifest × Context)).on z = (.ok (m, c), y)) :
      m' = m ∧ ∃ o, c = ⟨s.root, s.output, is, Integration.modelNames is, o⟩ := by
    obtain ⟨o, _, -, h⟩ := on_bind_eq_ok h
    cases h
    exact ⟨rfl, o, rfl⟩
  obtain ⟨⟨m', is⟩, z, hread, h⟩ := on_bind_eq_ok h
  obtain ⟨there, z', -, h⟩ := on_bind_eq_ok h
  suffices hc : m' = m ∧ ∃ o, c = ⟨s.root, s.output, is, Integration.modelNames is, o⟩ by
    obtain ⟨rfl, o, rfl⟩ := hc
    exact ⟨rfl, rfl, rfl, z, hread⟩
  split_ifs at h
  · obtain ⟨p, z₁, -, h⟩ := on_bind_eq_ok h
    obtain ⟨_, z₂, -, h⟩ := on_bind_eq_ok h
    exact hend h
  · exact hend h

theorem leads_plan (s : Settings) (script : Option String) (matching : Bool) (x : World) :
    x.Leads (IsTypes s) ((plan s script matching).on x).2 := by
  refine leads_bind (leads_prepare s none false x) fun mc y _ => ?_
  refine leads_bind ((reads_wanted _ _).leads y) fun ps z _ => ?_
  split_ifs
  · refine leads_bind ((reads_scripts _).leads z) fun all z' _ => ?_
    split
    · exact (Reads.bind (.throw _) fun _ => .pure _).leads z'
    · exact .refl z'
  · exact .refl z

theorem plan_eq_ok {s : Settings} {name : Option String} {matching : Bool} {x y : World}
    {m : Manifest} {ps : List Path} (h : (plan s name matching).on x = (.ok (m, c, ps), y)) :
    ∃ z, (prepare s none false).on x = (.ok (m, c), z) ∧
      (wanted s.root name).on z = (.ok ps, y) := by
  obtain ⟨⟨m', c'⟩, z, hp, h⟩ := on_bind_eq_ok h
  obtain ⟨ps', z', hw, h⟩ := on_bind_eq_ok h
  suffices hr : (m', c', ps') = (m, c, ps) ∧ z' = y by
    obtain ⟨hr, rfl⟩ := hr
    simp only [Prod.mk.injEq] at hr
    obtain ⟨rfl, rfl, rfl⟩ := hr
    exact ⟨z, hp, hw⟩
  split_ifs at h
  · obtain ⟨all, z'', hall, h⟩ := on_bind_eq_ok h
    cases hall
    split at h
    · obtain ⟨_, _, ht, -⟩ := on_bind_eq_ok h
      cases ht
    · cases h
      exact ⟨rfl, rfl⟩
  · cases h
    exact ⟨rfl, rfl⟩

/-! ## The gate -/

section Lint

variable {p : Path} {source type : String} {models : List String}

theorem on_lintFile_error {f : Lint.Failure} (h : Lint.lint source type models p.toText = .error f)
    (x : World) : (lintFile p source type models).on x = (.error (Fault.ofLint p.toText f), x) := by
  refine on_bind_error ?_
  rw [h]
  rfl

theorem on_lintFile_ok {report : Lint.Report}
    (h : Lint.lint source type models p.toText = .ok report) (x : World) :
    (lintFile p source type models).on x = (.ok report, { x with log := x.log ++ report.log }) := by
  refine (on_bind_ok (y := x) (a := report) ?_).trans rfl
  rw [h]
  rfl

end Lint

theorem on_compileFlow (run : Runner) (c : Context) (type : String) {x : World} {source : String}
    (h : x.disk.text? script = some source) :
    (compileFlow run c script type).on x =
      match Lint.lint source type c.models script.toText with
      | .error f => (.error (Fault.ofLint script.toText f), x)
      | .ok report =>
        if report.errors = [] then
          match run (Compiler.command Compiler.program c.options script) source with
          | .error f => (.error f, { x with log := x.log ++ report.log })
          | .ok output =>
            (do
              makeDirs (c.outputOf script).parent
              writeText (c.outputOf script) output
              return .compiled (c.outputOf script) report : Work Outcome).on
              { x with log := x.log ++ report.log }
        else (.ok (.blocked report), { x with log := x.log ++ report.log }) := by
  refine (on_bind_ok (on_readText_of_text? h)).trans ?_
  rcases hlint : Lint.lint source type c.models script.toText with f | report
  · exact on_bind_error (on_lintFile_error hlint x)
  rw [on_bind_ok (on_lintFile_ok hlint x)]
  by_cases herrors : report.errors = []
  · have heligible : report.isEligible = true := by simpa [Lint.Report.isEligible] using herrors
    simp only [heligible, Bool.not_true, Bool.false_eq_true, if_false, if_pos herrors]
    rcases run (Compiler.command Compiler.program c.options script) source with f | output
    · exact on_bind_error rfl
    · exact on_bind_ok rfl
  · have hnot : report.isEligible = false := by simpa [Lint.Report.isEligible] using herrors
    simp only [hnot, Bool.not_false, if_true, if_neg herrors]
    rfl

theorem passes_iff {flow : Flow} (hflow : c.flowOf? script = some flow) {source output : String} :
    Passes run c script source output ↔
      ∃ report, Lint.lint source flow.type c.models script.toText = .ok report ∧
        report.errors = [] ∧
        run (Compiler.command Compiler.program c.options script) source = .ok output := by
  constructor
  · rintro ⟨⟨flow', report, hf, hlint, herrors⟩, hrun⟩
    rw [hflow, Option.some.injEq] at hf
    subst hf
    exact ⟨report, hlint, herrors, hrun⟩
  · rintro ⟨report, hlint, herrors, hrun⟩
    exact ⟨⟨flow, report, hflow, hlint, herrors⟩, hrun⟩

/-- Nothing is done with the script of a flow, or it passes and its compiled form is written. -/
theorem compileFlow_cases (run : Runner) {flow : Flow} (hflow : c.flowOf? script = some flow)
    (x : World) :
    (∃ r l, (compileFlow run c script flow.type).on x = (r, { x with log := l }) ∧
      ∀ source output, x.disk.text? script = some source → ¬Passes run c script source output) ∨
    ∃ source output report l, x.disk.text? script = some source ∧
      Passes run c script source output ∧
      (compileFlow run c script flow.type).on x =
        (do
          makeDirs (c.outputOf script).parent
          writeText (c.outputOf script) output
          return .compiled (c.outputOf script) report : Work Outcome).on { x with log := l } := by
  simp only [passes_iff hflow]
  rcases hsource : x.disk.text? script with _ | source
  · left
    obtain ⟨r, hr, htext⟩ := on_readText script x
    rcases r with e | source
    · exact ⟨.error e, x.log, on_bind_error hr, by simp⟩
    · rw [(htext source).1 rfl] at hsource
      cases hsource
  have hon := on_compileFlow run c flow.type hsource
  rcases hlint : Lint.lint source flow.type c.models script.toText with f | report
  · left
    rw [hlint] at hon
    refine ⟨_, _, hon, ?_⟩
    rintro _ output ⟨⟩ ⟨report, hl, -⟩
    rw [hlint] at hl
    cases hl
  simp only [hlint] at hon
  by_cases herrors : report.errors = []
  · rcases hrun : run (Compiler.command Compiler.program c.options script) source with f | output
    · left
      simp only [if_pos herrors, hrun] at hon
      refine ⟨_, _, hon, ?_⟩
      rintro _ output ⟨⟩ ⟨_, -, -, hr⟩
      rw [hrun] at hr
      cases hr
    · right
      simp only [if_pos herrors, hrun] at hon
      exact ⟨source, output, report, _, rfl, ⟨report, hlint, herrors, hrun⟩, hon⟩
  · left
    simp only [if_neg herrors] at hon
    refine ⟨_, _, hon, ?_⟩
    rintro _ output ⟨⟩ ⟨report', hl, he, -⟩
    rw [hlint, Except.ok.injEq] at hl
    exact herrors (hl ▸ he)

section Covers

variable {P : Disk → Edit → Prop}

theorem leads_compileFlow (hP : Covers run c P) {flow : Flow} (hflow : c.flowOf? script = some flow)
    (x : World) : x.Leads P ((compileFlow run c script flow.type).on x).2 := by
  rcases compileFlow_cases run hflow x with
    ⟨r, l, h, -⟩ | ⟨source, output, report, l, hsource, hpasses, h⟩
  · rw [h]
    exact .of_eq rfl rfl
  · rw [h]
    refine .trans (y := { x with log := l }) (.of_eq rfl rfl) ?_
    refine leads_bind (leads_change (hP.makeDirs _ _)) fun _ y hdirs => ?_
    refine leads_bind (leads_writeText ?_) fun _ _ _ => .refl _
    have hext : Disk.Extends x.disk y.disk := (Disk.makeDirs_extends (on_change_eq_ok hdirs)).1
    exact hP.write _ _ _ _ (hext.text? hsource) hpasses

theorem leads_compileScript (hP : Covers run c P) (script : Path) (x : World) :
    x.Leads P ((compileScript run c script).on x).2 := by
  unfold compileScript
  rcases hflow : c.flowOf? script with _ | flow
  · exact (Reads.bind (.log _ _) fun _ => .pure _).leads x
  · refine leads_bind (leads_outcome (leads_compileFlow hP hflow x)) fun r y _ => ?_
    rcases r with e | r
    · refine (Reads.ite (.bind (.throw _) fun _ => ?_) ?_).leads y
      all_goals exact .bind (.log _ _) fun _ => .pure _
    · exact (Reads.ite (.bind (.log _ _) fun _ => .pure _) (.pure _)).leads y

theorem leads_compileAll (hP : Covers run c P) (requested : Option String) (ps : List Path)
    (x : World) : x.Leads P ((compileAll run c requested ps).on x).2 := by
  induction ps generalizing x with
  | nil => exact .refl x
  | cons p ps ih =>
    exact leads_bind (leads_compileScript hP p x) fun _ y _ =>
      leads_bind (ih y) fun _ _ _ => .refl _

theorem leads_removeCompiled (hP : Covers run c P) (script : Path) (x : World) :
    x.Leads P ((removeCompiled c script).on x).2 := by
  refine leads_bind ((Reads.has _).leads x) fun there y _ => ?_
  split_ifs
  · refine leads_bind (leads_change (hP.remove _ _)) fun _ z _ => ?_
    exact (Reads.bind (.log _ _) fun _ => .pure _).leads z
  · exact (Reads.bind (.log _ _) fun _ => .pure _).leads y

/-- A build writes the type definitions, makes the output directory and compiles scripts. -/
theorem leads_compile {s : Settings} {x : World} (htypes : ∀ d e, IsTypes s d e → P d e)
    (houtput : ∀ d, P d (.makeDirs s.output))
    (hP : ∀ m c y, (prepare s none false).on x = (.ok (m, c), y) → Covers run c P)
    (name : Option String) (matching : Bool) :
    x.Leads P ((compile run s name matching).on x).2 := by
  refine leads_bind (leads_mapFault ?_) fun ⟨m, c, ps⟩ y hr => ?_
  · exact (leads_plan s name matching x).mono htypes
  · obtain ⟨z, hp, -⟩ := plan_eq_ok (on_mapFault_eq_ok hr)
    refine leads_bind (leads_change (houtput _)) fun _ z' _ => ?_
    exact leads_bind (leads_compileAll (hP m c z hp) name ps z') fun _ _ _ => .refl _

end Covers

theorem leads_generateTypes (s : Settings) (x : World) :
    x.Leads (IsTypes s) ((generateTypes s).on x).2 :=
  leads_mapFault (leads_bind ((reads_readIntegrations s.root).leads x) fun mi y _ =>
    leads_writeTypes s mi.1 mi.2 y)

end Build
end FlowPipeline
