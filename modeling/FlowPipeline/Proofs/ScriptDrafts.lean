import FlowPipeline.Proofs.Artifacts
import FlowPipeline.Proofs.BuildFaults
import FlowPipeline.Proofs.DiskLevels

/-! # What scripts come to

How far a script gets is told by its text before anything is written. If the output directory is
there, the text also tells the status that the script ends in and the file that is written, so that
a batch of scripts of which none reads what another one writes comes to what each comes to on the
file system that the batch starts from.
-/

namespace FlowPipeline.Build
open Work

theorem Outcome.name_eq_compiled_iff (o : Outcome) :
    o.name = "compiled" ↔ ∃ output report, o = .compiled output report := by
  cases o <;> simp [name]

theorem Outcome.name_eq_failed_iff (o : Outcome) :
    o.name = "failed" ↔ ∃ message, o = .failed message := by
  cases o <;> simp [name]

/-- How far a script gets before anything is written. -/
inductive Draft where
  /-- There is no flow for it. -/
  | unlisted
  /-- It has no text. -/
  | unreadable
  /-- It cannot be linted or compiled. -/
  | refused (f : Fault)
  | blocked (report : Lint.Report)
  | ready (report : Lint.Report) (output : String)

def draft (run : Runner) (c : Context) (d : Disk) (script : Path) : Draft :=
  match c.flowOf? script with
  | none => .unlisted
  | some flow =>
    match d.text? script with
    | none => .unreadable
    | some source =>
      match Lint.lint source flow.type c.models script.toText with
      | .error f => .refused (Fault.ofLint script.toText f)
      | .ok report =>
        if report.errors = [] then
          match run (Compiler.command Compiler.program c.options script) source with
          | .error f => .refused f
          | .ok output => .ready report output
        else .blocked report

/-- The script passes, so that its compiled form is to be written. -/
def IsReady (run : Runner) (c : Context) (d : Disk) (script : Path) : Prop :=
  ∃ report output, draft run c d script = .ready report output

/-- The file that compiling a script writes, and its bytes. -/
def written? (run : Runner) (c : Context) (d : Disk) (script : Path) :
    Option (List String × List UInt8) :=
  match draft run c d script with
  | .ready _ output => (d.target? (c.outputOf script)).map fun ns => (ns, bytesOf output)
  | _ => none

/-- The status that a script ends in, or the fault that is not its own. -/
def verdict (run : Runner) (c : Context) (d : Disk) (script : Path) : Except Fault String :=
  match draft run c d script with
  | .unlisted => .ok Outcome.notInManifest.name
  | .unreadable => .ok (Outcome.failed "").name
  | .refused f => (settled (.error f)).map Outcome.name
  | .blocked report => .ok (Outcome.blocked report).name
  | .ready report output =>
    if (d.target? (c.outputOf script)).isSome then
      ((Text.Utf8.encoded output).map fun _ =>
        (Outcome.compiled (c.outputOf script) report).name).mapError .encoding
    else .ok (Outcome.failed "").name

variable {run : Runner} {c : Context} {script : Path} {d d' : Disk} {x y : World}

theorem draft_congr (run : Runner) (c : Context) (h : d'.text? script = d.text? script) :
    draft run c d' script = draft run c d script := by
  unfold draft
  rw [h]

theorem draft_eq_ready {report : Lint.Report} {output : String}
    (h : draft run c d script = .ready report output) :
    ∃ flow source, c.flowOf? script = some flow ∧ d.text? script = some source ∧
      Lint.lint source flow.type c.models script.toText = .ok report ∧ report.errors = [] ∧
      run (Compiler.command Compiler.program c.options script) source = .ok output := by
  unfold draft at h
  rcases hflow : c.flowOf? script with _ | flow
  · simp [hflow] at h
  rcases htext : d.text? script with _ | source
  · simp [hflow, htext] at h
  rcases hlint : Lint.lint source flow.type c.models script.toText with f | report'
  · simp [hflow, htext, hlint] at h
  simp only [hflow, htext, hlint] at h
  split_ifs at h with herrors
  rcases hrun : run (Compiler.command Compiler.program c.options script) source with f | output'
  · simp [hrun] at h
  · rw [hrun] at h
    cases h
    exact ⟨flow, source, rfl, rfl, hlint, herrors, hrun⟩

theorem written?_eq_some_iff {w : List String × List UInt8} :
    written? run c d script = some w ↔ ∃ report output, draft run c d script =
      .ready report output ∧ d.target? (c.outputOf script) = some w.1 ∧ w.2 = bytesOf output := by
  unfold written?
  split
  · rename_i report output hdraft
    rw [hdraft, Option.map_eq_some_iff]
    constructor
    · rintro ⟨ns, hns, rfl⟩
      exact ⟨report, output, rfl, hns, rfl⟩
    · rintro ⟨_, _, heq, hns, hbytes⟩
      cases heq
      exact ⟨w.1, hns, by rw [← hbytes]⟩
  · rename_i hnot
    exact iff_of_false nofun fun ⟨report, output, hdraft, _⟩ => hnot report output hdraft

theorem written?_eq_none (h : ¬IsReady run c d script) : written? run c d script = none := by
  rcases hw : written? run c d script with _ | w
  · rfl
  · obtain ⟨report, output, hdraft, -⟩ := written?_eq_some_iff.1 hw
    exact absurd ⟨report, output, hdraft⟩ h

theorem ne_nil_of_written? {w : List String × List UInt8} (h : written? run c d script = some w) :
    w.1 ≠ [] := by
  obtain ⟨-, -, -, htarget, -⟩ := written?_eq_some_iff.1 h
  exact Disk.ne_nil_of_not_dir (Disk.target?_eq_some_iff.1 htarget).2

/-! ## One script -/

/-- A text that cannot be read is the script's own failure. -/
theorem on_readText_of_text?_eq_none {p : Path} (h : x.disk.text? p = none) :
    ∃ f, (readText p).on x = (.error f, x) ∧ isOfScript f = true := by
  obtain ⟨r, hread, hsome⟩ := on_readText p x
  rcases r with f | source
  · refine ⟨f, hread, ?_⟩
    rcases Faults.readText p f x hread with ⟨-, ⟨e, rfl, -⟩ | ⟨e, rfl, -⟩⟩ <;> rfl
  · rw [(hsome source).1 rfl] at h
    cases h

/-- Where a script has a flow but does not pass, what keeps it from passing is logged at most. -/
theorem compileFlow_idle {flow : Flow} (hflow : c.flowOf? script = some flow)
    (hidle : ¬IsReady run c x.disk script) :
    ∃ r l, (compileFlow run c script flow.type).on x = (r, { x with log := l }) ∧
      (settled r).map Outcome.name = verdict run c x.disk script := by
  unfold verdict
  rcases htext : x.disk.text? script with _ | source
  · have hdraft : draft run c x.disk script = .unreadable := by simp [draft, hflow, htext]
    obtain ⟨f, hread, hown⟩ := on_readText_of_text?_eq_none htext
    refine ⟨.error f, x.log, on_bind_error hread, ?_⟩
    simp [hdraft, settled, hown, Except.map, Outcome.name]
  have hon := on_compileFlow run c flow.type htext
  rcases hlint : Lint.lint source flow.type c.models script.toText with f | report
  · have hdraft : draft run c x.disk script = .refused (Fault.ofLint script.toText f) := by
      simp [draft, hflow, htext, hlint]
    simp only [hlint] at hon
    exact ⟨_, x.log, hon, by rw [hdraft]⟩
  simp only [hlint] at hon
  by_cases herrors : report.errors = []
  · rcases hrun : run (Compiler.command Compiler.program c.options script) source with f | output
    · have hdraft : draft run c x.disk script = .refused f := by
        simp [draft, hflow, htext, hlint, herrors, hrun]
      simp only [if_pos herrors, hrun] at hon
      exact ⟨_, _, hon, by rw [hdraft]⟩
    · exact absurd ⟨report, output, by simp [draft, hflow, htext, hlint, herrors, hrun]⟩ hidle
  · have hdraft : draft run c x.disk script = .blocked report := by
      simp [draft, hflow, htext, hlint, herrors]
    simp only [if_neg herrors] at hon
    exact ⟨_, _, hon, by rw [hdraft]; rfl⟩

/-- If a script does not pass, the file system stays as it is. -/
theorem compileScript_idle (hidle : ¬IsReady run c x.disk script) {r : Except Fault Outcome}
    (h : (compileScript run c script).on x = (r, y)) :
    y.disk = x.disk ∧ r.map Outcome.name = verdict run c x.disk script := by
  rcases hflow : c.flowOf? script with _ | flow
  · have hdraft : draft run c x.disk script = .unlisted := by simp [draft, hflow]
    unfold compileScript at h
    rw [hflow] at h
    obtain ⟨_, hlog, rfl⟩ := on_bind_pure_cases h
    cases hlog
    rw [verdict, hdraft]
    exact ⟨rfl, rfl⟩
  · obtain ⟨r', l, hon, hname⟩ := compileFlow_idle hflow hidle
    obtain ⟨rfl, hdisk, -⟩ := compileScript_settled hflow hon h
    exact ⟨hdisk, hname⟩

/-- What is done with the compiled form of a script that passes. -/
def emit (p : Path) (report : Lint.Report) (output : String) : Work Outcome := do
  makeDirs p.parent
  writeText p output
  return .compiled p report

theorem on_emit_of_makeDirs {p : Path} (report : Lint.Report) (output : String) {b : Disk}
    (hdirs : Edit.apply x.disk (.makeDirs p.parent) = .ok b) :
    (∀ ns, b.target? p = some ns → ∃ y, y.disk = b.set ns (.file (bytesOf output)) ∧
      (emit p report output).on x = (((Text.Utf8.encoded output).map fun _ =>
        Outcome.compiled p report).mapError .encoding, y)) ∧
    (b.target? p = none → ∃ f y, y.disk = b ∧
      (emit p report output).on x = (.error (.file f), y)) := by
  obtain ⟨z, hz, hmade⟩ : ∃ z, z.disk = b ∧ (makeDirs p.parent).on x = (.ok (), z) := by
    refine ⟨{ x with disk := b, history := x.history ++ [(x.disk, .makeDirs p.parent)] }, rfl, ?_⟩
    rw [makeDirs, on_change]
    simp only [hdirs]
  have hwrites := on_writeText p output z
  rw [hz] at hwrites
  refine ⟨fun ns htarget => ?_, fun htarget => ?_⟩
  · simp only [Disk.write_of_target? htarget] at hwrites
    rcases hbytes : Text.Utf8.encoded output with e | bytes <;> rw [hbytes] at hwrites
    · exact ⟨_, rfl, (on_bind_ok hmade).trans (on_bind_error hwrites)⟩
    · exact ⟨_, rfl, (on_bind_ok hmade).trans ((on_bind_ok hwrites).trans rfl)⟩
  · obtain ⟨f, hf⟩ := Disk.write_of_target?_eq_none htarget (bytesOf output)
    simp only [hf] at hwrites
    exact ⟨f, z, hz, (on_bind_ok hmade).trans (on_bind_error hwrites)⟩

theorem on_compileScript_of_draft {report : Lint.Report} {output : String}
    (hdraft : draft run c x.disk script = .ready report output) :
    ∃ l, ∀ r y, (emit (c.outputOf script) report output).on { x with log := l } = (r, y) →
      ∃ l', (compileScript run c script).on x = (settled r, { y with log := l' }) := by
  obtain ⟨flow, source, hflow, htext, hlint, herrors, hrun⟩ := draft_eq_ready hdraft
  have hon := on_compileFlow run c flow.type htext
  simp only [hlint, if_pos herrors, hrun] at hon
  exact ⟨_, fun r y hr => on_compileScript hflow (hon.trans hr)⟩

/-- If a script passes, its directory is made, and all that follows is as if the directory had been
there. -/
theorem compileScript_ready {b : Disk} (hready : IsReady run c x.disk script)
    (hdirs : Edit.apply x.disk (.makeDirs (c.outputOf script).parent) = .ok b)
    (hsame : draft run c b script = draft run c x.disk script) {r : Except Fault Outcome}
    (h : (compileScript run c script).on x = (r, y)) :
    y.disk = b.stored (written? run c b script).toList ∧
      r.map Outcome.name = verdict run c b script := by
  obtain ⟨report, output, hdraft⟩ := hready
  obtain ⟨l, hon⟩ := on_compileScript_of_draft hdraft
  rw [hdraft] at hsame
  have hemit := on_emit_of_makeDirs (x := { x with log := l }) report output hdirs
  simp only [written?, verdict, hsame]
  rcases htarget : b.target? (c.outputOf script) with _ | ns
  · obtain ⟨f, z, hz, he⟩ := hemit.2 htarget
    obtain ⟨l', hl⟩ := hon _ _ he
    rw [h] at hl
    cases hl
    exact ⟨hz, rfl⟩
  · obtain ⟨z, hz, he⟩ := hemit.1 ns htarget
    obtain ⟨l', hl⟩ := hon _ _ he
    rw [h] at hl
    cases hl
    refine ⟨hz, ?_⟩
    rcases Text.Utf8.encoded output with e | bytes <;> rfl

/-- If the directory cannot be made, a script that passes fails. -/
theorem compileScript_stuck {f : FileError} (hready : IsReady run c x.disk script)
    (hdirs : Edit.apply x.disk (.makeDirs (c.outputOf script).parent) = .error f)
    {r : Except Fault Outcome} (h : (compileScript run c script).on x = (r, y)) :
    y.disk = x.disk ∧ r.map Outcome.name = .ok (Outcome.failed "").name := by
  obtain ⟨report, output, hdraft⟩ := hready
  obtain ⟨l, hon⟩ := on_compileScript_of_draft hdraft
  have hmade : (makeDirs (c.outputOf script).parent).on { x with log := l } =
      (.error (.file f), { x with log := l }) := by
    rw [makeDirs, on_change]
    simp only [hdirs]
  obtain ⟨l', hl⟩ := hon _ _ (on_bind_error hmade)
  rw [h] at hl
  cases hl
  exact ⟨rfl, rfl⟩

/-- A script comes to what its text tells, if its directory is there. -/
theorem compileScript_spec (hout : x.disk.entryAt? (c.outputOf script).parent = some .dir)
    {r : Except Fault Outcome} (h : (compileScript run c script).on x = (r, y)) :
    y.disk = x.disk.stored (written? run c x.disk script).toList ∧
      r.map Outcome.name = verdict run c x.disk script := by
  by_cases hready : IsReady run c x.disk script
  · have hdirs : Edit.apply x.disk (.makeDirs (c.outputOf script).parent) = .ok x.disk := by
      simp only [Edit.apply, Disk.makeDirs_of_entryAt? hout]
    exact compileScript_ready hready hdirs rfl h
  · obtain ⟨hdisk, hname⟩ := compileScript_idle hready h
    rw [written?_eq_none hready]
    exact ⟨hdisk, hname⟩

/-! ## Scripts one after another -/

/-- Whether a script that ends in the status lets a build succeed. -/
def isFineStatus (requested : Bool) (status : String) : Bool :=
  status != "failed" && !(status == "blocked" && requested)

theorem Outcome.isFine_eq (o : Outcome) (requested : Bool) :
    o.isFine requested = isFineStatus requested o.name := by
  cases o <;> simp [isFine, isFineStatus, name]

/-- What a batch comes to by the verdicts on its scripts. -/
def batch (run : Runner) (c : Context) (d : Disk) (requested : Option String) :
    List Path → Except Fault Bool
  | [] => .ok true
  | p :: ps => do
    let status ← verdict run c d p
    let rest ← batch run c d requested ps
    return isFineStatus (requested == some p.stem) status && rest

/-- The files that a batch writes, up to a fault that is not a script's own. -/
def writes (run : Runner) (c : Context) (d : Disk) : List Path → List (List String × List UInt8)
  | [] => []
  | p :: ps => (written? run c d p).toList ++
    if (verdict run c d p).isOk then writes run c d ps else []

theorem mem_writes {w : List String × List UInt8} {ps : List Path}
    (h : w ∈ writes run c d ps) : ∃ p ∈ ps, written? run c d p = some w := by
  induction ps with
  | nil => cases h
  | cons p ps ih =>
    rw [writes, List.mem_append, Option.mem_toList] at h
    rcases h with hw | h
    · exact ⟨p, List.mem_cons_self, hw⟩
    · split_ifs at h
      · obtain ⟨q, hq, hw⟩ := ih h
        exact ⟨q, List.mem_cons_of_mem p hq, hw⟩
      · cases h

section Level

variable {aims : List String → Prop} {b : Disk}

theorem verdict_of_level (run : Runner) (c : Context) (h : b.Level aims d)
    (hfree : ∀ ns, b.locate script = .ok ns → ¬aims ns) :
    verdict run c d script = verdict run c b script ∧
      written? run c d script = written? run c b script := by
  have hdraft := draft_congr run c (h.text? hfree)
  unfold verdict written?
  rw [hdraft, h.target? (c.outputOf script)]
  exact ⟨rfl, rfl⟩

/-- What a script writes is among the names of the file that it writes. -/
theorem level_stored (h : b.Level aims d) (script : Path) :
    b.Level (fun ns => aims ns ∨ ∃ w, written? run c b script = some w ∧ ns = w.1)
      (d.stored (written? run c b script).toList) := by
  rcases hw : written? run c b script with _ | w
  · exact h.mono fun ns hns => .inl hns
  · obtain ⟨-, -, -, htarget, -⟩ := written?_eq_some_iff.1 hw
    exact (h.mono fun ns hns => .inl hns).set (Disk.target?_eq_some_iff.1 htarget).2
      (.inr ⟨w, rfl, rfl⟩) w.2

end Level

/-- A script that does not pass ends in the same status whatever the output directory is like. -/
theorem verdict_of_idle (hidle : ¬IsReady run c d script)
    (hsame : draft run c d' script = draft run c d script) :
    verdict run c d' script = verdict run c d script := by
  unfold verdict
  rw [hsame]
  rcases hdraft : draft run c d script with _ | _ | f | report | ⟨report, output⟩
  case ready => exact absurd ⟨report, output, hdraft⟩ hidle
  all_goals rfl

/-- What the first script comes to, and then the others. -/
theorem compileAll_cons {b e : Disk} {z : World} {requested : Option String} {ps : List Path}
    {r' : Except Fault Outcome} (hs : (compileScript run c script).on x = (r', z))
    (hname : r'.map Outcome.name = verdict run c b script)
    (hstop : ∀ f, r' = .error f → z.disk = e.stored (written? run c b script).toList)
    (hrest : ∀ r z', (compileAll run c requested ps).on z = (r, z') →
      r = batch run c b requested ps ∧
        z'.disk = (e.stored (written? run c b script).toList).stored (writes run c b ps))
    {r : Except Fault Bool} (h : (compileAll run c requested (script :: ps)).on x = (r, y)) :
    r = batch run c b requested (script :: ps) ∧
      y.disk = e.stored (writes run c b (script :: ps)) := by
  rw [batch, writes, ← hname]
  rcases on_bind_cases h with ⟨f, hfirst, rfl⟩ | ⟨o, w, hfirst, hothers⟩ <;>
    rw [hs] at hfirst <;> cases hfirst
  · refine ⟨rfl, ?_⟩
    rw [hstop f rfl]
    simp [Except.map, Except.isOk, Except.toBool]
  · obtain ⟨r', htail, rfl⟩ := on_bind_pure_cases hothers
    obtain ⟨hr, hdisk⟩ := hrest r' y htail
    rw [← hr, Disk.stored_append, Outcome.isFine_eq]
    refine ⟨?_, hdisk⟩
    cases r' <;> rfl

/-- A batch comes to what its scripts come to on the file system that it starts from, if none of
them is a file that another one before it writes. -/
theorem compileAll_spec {aims : List String → Prop} {b : Disk}
    (hout : b.entryAt? c.output = some .dir) {requested : Option String} {ps : List Path}
    (hnames : ∀ p ∈ ps, '/' ∉ p.name.toList)
    (hapart : ps.Pairwise fun p q => ∀ w, written? run c b p = some w → b.locate q ≠ .ok w.1)
    (hlevel : b.Level aims x.disk) (hfree : ∀ p ∈ ps, ∀ ns, b.locate p = .ok ns → ¬aims ns)
    {r : Except Fault Bool} (h : (compileAll run c requested ps).on x = (r, y)) :
    r = batch run c b requested ps ∧ y.disk = x.disk.stored (writes run c b ps) := by
  induction ps generalizing x y r aims with
  | nil =>
    cases h
    exact ⟨rfl, rfl⟩
  | cons p ps ih =>
    obtain ⟨hname, hnames⟩ := List.forall_mem_cons.1 hnames
    obtain ⟨hhead, hapart⟩ := List.pairwise_cons.1 hapart
    obtain ⟨hp, hfree⟩ := List.forall_mem_cons.1 hfree
    have hparent := c.parent_outputOf hname
    rcases hs : (compileScript run c p).on x with ⟨r', z⟩
    obtain ⟨hdisk, hverdict⟩ := compileScript_spec
      (hparent ▸ (hlevel.entryAt?_dir_iff c.output).2 hout) hs
    obtain ⟨hv, hw⟩ := verdict_of_level run c hlevel hp
    rw [hw] at hdisk
    rw [hv] at hverdict
    refine compileAll_cons hs hverdict (fun _ _ => hdisk) (fun r'' z' hrest => ?_) h
    rw [← hdisk]
    refine ih hnames hapart (hdisk ▸ level_stored hlevel p) (fun q hq ns hns => ?_) hrest
    rintro (haims | ⟨w, hwrite, rfl⟩)
    · exact hfree q hq ns hns haims
    · exact hhead q hq w hwrite hns

end FlowPipeline.Build
