import FlowPipeline.Proofs.LintFindings
import FlowPipeline.Proofs.RepeatedBuilds
import FlowPipeline.Proofs.SecretKeys

/-! # Linting a script by itself

A script may be linted from the command line before it is compiled. The command and the build each
read the manifest, look for the flow of the script and lint its text. They come to one judgement,
which depends on the integrations, on the stem of the script and on its tree; so a script is
accepted by the command exactly if the build goes on to compile it.
-/

namespace FlowPipeline

/-- What is to be said of a script as that of the flow of its stem. -/
inductive Judgement where
  | unlisted
  | blocked
  | accepted
deriving DecidableEq, Repr

/-- Nothing is an error in the tree of a script of a flow of the type. -/
def Lint.accepts (type : String) (models : List String) (t : Script.Tree) : Bool :=
  (Report.mk "" models (diagnosticsOf (type = FlowKind.action.name) models t)).isEligible

/-- The judgement of a script, from its stem and its tree. -/
def Judgement.of (is : List Integration) (stem : String) (t : Script.Tree) : Judgement :=
  match Integration.findFlow? is stem with
  | none => .unlisted
  | some (_, flow) =>
    if Lint.accepts flow.type (Integration.modelNames is) t then .accepted else .blocked

namespace Build
open Work

theorem on_lintFile {source : String} {bytes : List UInt8} {t : Script.Tree} (p : Path)
    (type : String) (models : List String) (x : World)
    (hbytes : Text.Utf8.encoded source = .ok bytes) (ht : Script.parse source = .ok t) :
    (lintFile p source type models).on x =
      let report : Lint.Report :=
        ⟨p.toText, models, Lint.diagnosticsOf (type = FlowKind.action.name) models t⟩
      (.ok report, { x with log := x.log ++ report.log }) :=
  on_lintFile_ok (Lint.lint_eq hbytes ht type models p.toText) x

end Build

/-! ## What the command says -/

namespace CommandLine
open Work

variable {s : Settings} {p : Path} {x y : World} {m : Manifest} {is : List Integration}
  {source : String} {bytes : List UInt8} {t : Script.Tree}

/-- The manifest has no flow for the script. -/
def noFlow (p : Path) : String := "No flow named " ++ p.stem ++ " in the manifest."

/-- The script has errors. -/
def refusal (p : Path) : String := p.toText ++ " cannot be compiled until its errors are fixed."

theorem noFlow_ne_refusal (p : Path) : noFlow p ≠ refusal p := by
  intro h
  have hlist := congrArg String.toList h
  -- The first one ends in "t.", the other one in "d.".
  have hflow : ['t', '.'] <:+ (noFlow p).toList := by
    rw [noFlow, String.toList_append]
    exact List.IsSuffix.trans (by decide) (List.suffix_append _ _)
  have hrefusal : ['d', '.'] <:+ (refusal p).toList := by
    rw [refusal, String.toList_append]
    exact List.IsSuffix.trans (by decide) (List.suffix_append _ _)
  rw [hlist] at hflow
  exact absurd ((List.suffix_of_suffix_length_le hflow hrefusal (by simp)).eq_of_length rfl)
    (by decide)

/-- Why the command fails, if it does. -/
def failure (p : Path) : Judgement → Option String
  | .unlisted => some (noFlow p)
  | .blocked => some (refusal p)
  | .accepted => none

/-- The command gives its judgement if the manifest can be read and the script can be parsed. -/
theorem lint_failure {z : World} (hread : (Build.readIntegrations s.root).on x = (.ok (m, is), z))
    (htext : x.disk.text? p = some source) (hbytes : Text.Utf8.encoded source = .ok bytes)
    (ht : Script.parse source = .ok t) :
    ∃ e y, (lint s p).on x = (.ok e, y) ∧ y.disk = x.disk ∧
      e.failure = failure p (.of is p.stem t) := by
  obtain ⟨m', w, hmanifest, hread⟩ := on_bind_eq_ok hread
  obtain ⟨is', y, hnormal, hread⟩ := on_bind_eq_ok hread
  obtain ⟨_, _, -, hread⟩ := on_bind_eq_ok hread
  cases hread
  have hdisk : y.disk = x.disk :=
    ((Reads.normalize m).disk_eq hnormal).trans ((Build.reads_readManifest s.root).disk_eq hmanifest)
  unfold lint Judgement.of
  rw [on_bind_ok hmanifest, on_bind_ok hnormal]
  rcases Integration.findFlow? is p.stem with _ | ⟨i, flow⟩
  · exact ⟨_, y, rfl, hdisk, rfl⟩
  · have hreport := Build.on_lintFile p flow.type (Integration.modelNames is) y hbytes ht
    rw [← hdisk] at htext
    simp only
    rw [on_bind_ok (on_readText_of_text? htext), on_bind_ok hreport]
    refine ⟨_, _, rfl, hdisk, ?_⟩
    change (if Lint.accepts flow.type (Integration.modelNames is) t then none
      else some (refusal p)) = _
    split_ifs <;> rfl

end CommandLine

/-! ## What the build does -/

namespace Build
open Work

variable {run : Runner} {c : Context} {script : Path} {x y : World} {source : String}
  {bytes : List UInt8} {t : Script.Tree}

/-- The outcomes of a script that is judged. One that is accepted may still fail to compile. -/
def Fits : Judgement → Outcome → Prop
  | .unlisted, o => o = .notInManifest
  | .blocked, o => ∃ report, o = .blocked report
  | .accepted, o => (∃ output report, o = .compiled output report) ∨ ∃ message, o = .failed message

theorem faults_emit {output : String} (hencodes : ∃ bytes, Text.Utf8.encoded output = .ok bytes)
    (p : Path) (report : Lint.Report) (x : World) :
    Faults (emit p report output) x fun _ f => ∃ e, f = .file e := by
  obtain ⟨bytes, hbytes⟩ := hencodes
  refine .bind ((Faults.change _).mono fun _ f hf => ?_) fun _ y _ => ?_
  · obtain ⟨-, e, rfl, -⟩ := hf
    exact ⟨e, rfl⟩
  refine .bind ((Faults.writeText p output).mono fun _ f hf => ?_) fun _ z _ => .pure _
  rcases hf with ⟨-, hf⟩ | ⟨e, -, he, -⟩
  · exact hf
  · rw [hbytes] at he
    cases he

/-- A script that the linter accepts is compiled, or fails on its own. -/
theorem fits_of_emit {output : String} (hencodes : ∃ bytes, Text.Utf8.encoded output = .ok bytes)
    {p : Path} {report : Lint.Report} {r : Except Fault Outcome}
    (h : (emit p report output).on x = (r, y)) : ∃ o, settled r = .ok o ∧ Fits .accepted o := by
  rcases r with f | o
  · obtain ⟨e, rfl⟩ := faults_emit hencodes p report x f y h
    exact ⟨_, rfl, .inr ⟨_, rfl⟩⟩
  · obtain ⟨_, _, -, h⟩ := on_bind_eq_ok h
    obtain ⟨_, _, -, h⟩ := on_bind_eq_ok h
    cases h
    exact ⟨_, rfl, .inl ⟨_, _, rfl⟩⟩

/-- The build acts on its judgement if the script can be parsed. -/
theorem compileScript_fits (hrun : run.IsSound)
    (hmodels : c.models = Integration.modelNames c.integrations)
    (htext : x.disk.text? script = some source) (hbytes : Text.Utf8.encoded source = .ok bytes)
    (ht : Script.parse source = .ok t) {r : Except Fault Outcome}
    (h : (compileScript run c script).on x = (r, y)) :
    ∃ o, r = .ok o ∧ Fits (.of c.integrations script.stem t) o := by
  unfold Judgement.of
  rw [← hmodels]
  rcases hfind : Integration.findFlow? c.integrations script.stem with _ | ⟨i, flow⟩
  · have hflow : c.flowOf? script = none := by rw [Context.flowOf?, hfind]; rfl
    unfold compileScript at h
    rw [hflow] at h
    simp only at h
    rw [on_bind_ok (on_log _ _ x)] at h
    cases h
    exact ⟨_, rfl, rfl⟩
  have hflow : c.flowOf? script = some flow := by rw [Context.flowOf?, hfind]; rfl
  -- What becomes of the script is what becomes of its flow.
  have hsettled {r' : Except Fault Outcome} {z : World}
      (h' : (compileFlow run c script flow.type).on x = (r', z)) : r = settled r' :=
    (compileScript_settled hflow h' h).1
  have hon := on_compileFlow run c flow.type htext
  set report : Lint.Report := ⟨script.toText, c.models,
    Lint.diagnosticsOf (flow.type = FlowKind.action.name) c.models t⟩ with hreport
  simp only [Lint.lint_eq hbytes ht, ← hreport] at hon
  have haccepts : Lint.accepts flow.type c.models t = true ↔ report.errors = [] :=
    List.isEmpty_iff
  simp only
  split_ifs with h'
  · rw [if_pos (haccepts.1 h')] at hon
    rcases hcompiled : run (Compiler.command Compiler.program c.options script) source with
      f | output
    · rw [hcompiled] at hon
      obtain rfl := hsettled hon
      rcases hrun.fails _ _ f hcompiled with ⟨e, rfl⟩ | ⟨e, rfl⟩
      · exact ⟨_, rfl, .inr ⟨_, rfl⟩⟩
      · exact ⟨_, rfl, .inr ⟨_, rfl⟩⟩
    · rw [hcompiled] at hon
      rcases hemit : (emit (c.outputOf script) report output).on
        { x with log := x.log ++ report.log } with ⟨r', z⟩
      obtain rfl := hsettled (hon.trans hemit)
      exact fits_of_emit (hrun.encodes _ _ output hcompiled) hemit
  · rw [if_neg fun herrors => h' (haccepts.2 herrors)] at hon
    obtain rfl := hsettled hon
    exact ⟨_, rfl, _, rfl⟩

theorem eligible_of_accepted (hmodels : c.models = Integration.modelNames c.integrations)
    (hbytes : Text.Utf8.encoded source = .ok bytes) (ht : Script.parse source = .ok t)
    (h : Judgement.of c.integrations script.stem t = .accepted) : Eligible c script source := by
  unfold Judgement.of at h
  rcases hfind : Integration.findFlow? c.integrations script.stem with _ | ⟨i, flow⟩
  · rw [hfind] at h
    cases h
  · simp only [hfind] at h
    split_ifs at h with haccepts
    rw [← hmodels] at haccepts
    refine ⟨flow, _, by rw [Context.flowOf?, hfind]; rfl, Lint.lint_eq hbytes ht _ _ _, ?_⟩
    exact List.isEmpty_iff.1 haccepts

end Build

/-! ## The command and the build -/

namespace CommandLine
open Work

/-- Why the command fails tells the status that the build gives the script, but for the failures of
the compiler. -/
theorem statuses_of_fits {j : Judgement} {o : Build.Outcome} (p : Path) (h : Build.Fits j o) :
    (failure p j = none ↔ o.name = "compiled" ∨ o.name = "failed") ∧
      (failure p j = some (noFlow p) ↔ o.name = "not_in_manifest") ∧
      (failure p j = some (refusal p) ↔ o.name = "blocked") ∧
      (o.name = "failed" → j = .accepted) := by
  cases j with
  | unlisted =>
    obtain rfl : o = .notInManifest := h
    simp [failure, Build.Outcome.name, noFlow_ne_refusal]
  | blocked =>
    obtain ⟨report, rfl⟩ := h
    simp [failure, Build.Outcome.name, (noFlow_ne_refusal _).symm]
  | accepted =>
    rcases h with ⟨output, report, rfl⟩ | ⟨message, rfl⟩
    · simp [failure, Build.Outcome.name]
    · simp [failure, Build.Outcome.name]

/-- The command to lint a script succeeds if the build compiles the script, or tries to; it fails
for want of a flow, or because of errors, if the build passes over the script, or blocks it. -/
theorem execute_lint {run : Runner} (hrun : run.IsSound) {env : Environment} (now : Moment)
    {args : List String} {i : Invocation} (hargs : Invocation.read args = .ok i) {file : String}
    (htask : i.task = .lint file) {x y : World} (tree : x.disk.IsTree) {s : Settings}
    (resolved : Settings.resolve x.disk (wishesOf i env) = .ok s)
    {options : Option CompilerOptions} {m : Manifest} {c : Context}
    (prepared : (Build.prepare s options false).on x = (.ok (m, c), y)) {script : Path}
    (hstem : script.stem = (Path.ofString file).stem) {source : String} {bytes : List UInt8}
    {t : Script.Tree} (htext : x.disk.text? (Path.ofString file) = some source)
    (hscript : x.disk.text? script = some source)
    (hbytes : Text.Utf8.encoded source = .ok bytes) (ht : Script.parse source = .ok t) :
    ∃ (e : Ending) (log : Log) (o : Build.Outcome),
      execute run env now args x.disk = (.ok (e.result i.debug log), x.disk) ∧
      ((Build.compileScript run c script).on y).1 = .ok o ∧
      ((e.result i.debug log).exit = 0 ↔ o.name = "compiled" ∨ o.name = "failed") ∧
      ((e.result i.debug log).exit = 1 ∧ e.failure = some (noFlow (Path.ofString file)) ↔
        o.name = "not_in_manifest") ∧
      ((e.result i.debug log).exit = 1 ∧ e.failure = some (refusal (Path.ofString file)) ↔
        o.name = "blocked") ∧
      (o.name = "failed" → Build.Eligible c script source) := by
  have hextends := (Build.prepare_onlyTypes (Build.isPlain_root tree.isConnected resolved)
    prepared).extends
  obtain ⟨-, -, hmodels, z, hread⟩ := Build.prepare_eq_ok prepared
  -- The command starts with an empty log, which makes no difference to the manifest.
  have hstart : ((Build.readIntegrations s.root).on { disk := x.disk, log := [] }).1 =
      .ok (m, c.integrations) := by
    rw [(Build.blind_readIntegrations s.root x { disk := x.disk, log := [] } rfl).1, hread]
  obtain ⟨e, w, hlint, hw, hfailure⟩ := lint_failure (on_of_fst hstart) htext hbytes ht
  have hperform : (i.perform run env now).on { disk := x.disk, log := [] } = (.ok e, w) := by
    have hsettings := on_settings i env { disk := x.disk, log := [] }
    rw [resolved] at hsettings
    unfold Invocation.perform
    rw [htask]
    exact (on_bind_ok hsettings).trans hlint
  have hexecute : execute run env now args x.disk = (.ok (e.result i.debug w.log), x.disk) := by
    rw [execute_eq hargs hperform, hw]
    rfl
  rcases hcompile : (Build.compileScript run c script).on y with ⟨r, y'⟩
  obtain ⟨o, rfl, hfits⟩ := Build.compileScript_fits hrun hmodels (hextends.text? hscript)
    hbytes ht hcompile
  have heligible : Judgement.of c.integrations script.stem t = .accepted →
      Build.Eligible c script source := Build.eligible_of_accepted hmodels hbytes ht
  have hexit : (e.result i.debug w.log).exit = if e.failure.isSome then 1 else 0 := rfl
  rw [hstem] at hfits heligible
  -- Both have come to the same judgement.
  obtain ⟨hnone, hflow, hrefused, hfailed⟩ := statuses_of_fits (Path.ofString file) hfits
  rw [← hfailure] at hnone hflow hrefused
  refine ⟨e, w.log, o, hexecute, rfl, ?_, ?_, ?_, fun ho => heligible (hfailed ho)⟩
  · rw [← hnone, hexit]
    cases e.failure <;> simp
  · rw [← hflow, hexit, and_iff_right_of_imp]
    intro hf
    rw [hf]
    rfl
  · rw [← hrefused, hexit, and_iff_right_of_imp]
    intro hf
    rw [hf]
    rfl

/-! ## An empty script -/

theorem parse_of_lint {source type label : String} {models : List String} {r : Lint.Report}
    (h : Lint.lint source type models label = .ok r) : ∃ t, Script.parse source = .ok t := by
  unfold Lint.lint at h
  obtain ⟨_, -, h⟩ := Except.eq_ok_of_bind h
  obtain ⟨t, ht, -⟩ := Except.eq_ok_of_bind h
  rcases hparse : Script.parse source with line | t
  · rw [hparse] at ht
    cases ht
  · exact ⟨t, rfl⟩

/-- In the directory of its project, the script is linted by its name. -/
theorem execute_lint_empty : ∃ i m c y e log o,
    Invocation.read ["lint", "a.ts"] = .ok i ∧ i.task = .lint "a.ts" ∧
    (Build.prepare Sample.settings none false).on (Sample.fresh "" none) = (.ok (m, c), y) ∧
    execute Build.blank [] Sample.now ["lint", "a.ts"] (Sample.project "" none) =
      (.ok (Ending.result e i.debug log), Sample.project "" none) ∧
    ((Build.compileScript Build.blank c Sample.script).on y).1 = .ok o ∧
    ((Ending.result e i.debug log).exit = 0 ↔
      Build.Outcome.name o = "compiled" ∨ o.name = "failed") := by
  have hargs : Invocation.read ["lint", "a.ts"] = .ok ⟨".", "dev", none, false, .lint "a.ts"⟩ := rfl
  have resolved : Settings.resolve (Sample.fresh "" none).disk
      (wishesOf ⟨".", "dev", none, false, .lint "a.ts"⟩ []) = .ok Sample.settings :=
    Sample.resolve_eq "" none
  have htext : (Sample.fresh "" none).disk.text? (Path.ofString "a.ts") = some "" := rfl
  have hscript : (Sample.fresh "" none).disk.text? Sample.script = some "" := rfl
  have hstem : Sample.script.stem = (Path.ofString "a.ts").stem := rfl
  obtain ⟨m, c, y, -, prepared, -⟩ := Sample.prepare_fresh "" none none
  obtain ⟨report, hlint, -⟩ := Sample.lint_empty [] ""
  obtain ⟨t, ht⟩ := parse_of_lint hlint
  obtain ⟨e, log, o, hexecute, hcompile, hexit, -⟩ := execute_lint Build.isSound_blank Sample.now
    hargs rfl (Sample.isTree "" none) resolved prepared hstem htext hscript rfl ht
  exact ⟨_, m, c, y, e, log, o, hargs, rfl, prepared, hexecute, hcompile, hexit⟩

end CommandLine
end FlowPipeline
