import FlowPipeline.Proofs.BuildFrames
import FlowPipeline.Proofs.LintFindings

/-! # Scripts that are asked for

The script that a build is asked for is looked up by its path, and told from others by its stem. A
request that is a path of several parts leads to the script all the same, but is the stem of none.
-/

namespace FlowPipeline.Build
open Work

variable {run : Runner} {s : Settings} {name : String} {matching fine : Bool} {x y : World}
  {m : Manifest} {c : Context}

/-! ## Requests and stems -/

/-- A request is a name by itself. -/
def IsPlainRequest (name : String) : Prop := name ≠ "" ∧ '/' ∉ name.toList

instance (name : String) : Decidable (IsPlainRequest name) := inferInstanceAs (Decidable (_ ∧ _))

theorem scriptOf_of_noSlash (root : Path) (h : '/' ∉ name.toList) :
    scriptOf root name = root.child (name ++ ".ts") := by
  have hname : Path.IsName (name ++ ".ts") := by
    refine ⟨Path.append_ne name (by decide), Path.append_ne name (by decide),
      Path.append_ne name (by decide), ?_⟩
    simp [String.toList_append, h]
  exact Path.join_of_isName root hname

/-- Only a plain request is the stem of the script that it leads to. -/
theorem stem_scriptOf_eq_iff (root : Path) (name : String) :
    (scriptOf root name).stem = name ↔ IsPlainRequest name := by
  constructor
  · intro hstem
    have hslash : '/' ∉ name.toList := by
      rw [← hstem]
      exact Path.noSlash_stem_of_name (isSource_scriptOf root name).noSlash
    refine ⟨?_, hslash⟩
    rintro rfl
    rw [scriptOf_of_noSlash root hslash] at hstem
    exact absurd ((Path.stem_child_only_ts root).symm.trans hstem) (by decide)
  · rintro ⟨hne, hslash⟩
    rw [scriptOf_of_noSlash root hslash, Path.stem_child_ts root hne]

/-! ## What a build says of its script -/

/-- What becomes of the script that is asked for. -/
def attempt (run : Runner) (s : Settings) (name : String) (matching : Bool) :
    Work (Manifest × Context × Outcome) := do
  let (m, c, _) ← mapFault asBuild (plan s (some name) matching)
  makeDirs s.output
  let o ← compileScript run c (scriptOf s.root name)
  return (m, c, o)

/-- A build says whether the outcome of its script is fine, and the script counts as asked for only
if the request is plain. -/
theorem compile_eq_attempt (run : Runner) (s : Settings) (name : String) (matching : Bool)
    (x : World) : (compile run s (some name) matching).on x =
      ((fun r => (r.1, r.2.1, r.2.2.isFine (decide (IsPlainRequest name)))) <$>
        attempt run s name matching).on x := by
  rw [on_map, compile, attempt, on_bind, on_bind]
  rcases hplan : (mapFault asBuild (plan s (some name) matching)).on x with ⟨f | ⟨m, c, ps⟩, z⟩
  · rfl
  obtain ⟨z', -, hwanted⟩ := plan_eq_ok (on_mapFault_eq_ok hplan)
  obtain ⟨-, rfl, -⟩ := wanted_eq_ok hwanted
  have hrequested : (some name == some (scriptOf s.root name).stem) =
      decide (IsPlainRequest name) := by
    rw [Bool.eq_iff_iff, beq_iff_eq, decide_eq_true_iff, ← stem_scriptOf_eq_iff s.root name,
      Option.some.injEq, eq_comm]
  dsimp only
  rw [on_bind, on_bind]
  rcases (makeDirs s.output).on z with ⟨f | _, w⟩
  · rfl
  dsimp only
  rw [selected, compileAll, on_bind, on_bind, on_bind]
  rcases (compileScript run c (scriptOf s.root name)).on w with ⟨f | o, y⟩
  · rfl
  · have hall : (compileAll run c (some name) []).on y = (.ok true, y) := rfl
    dsimp only
    rw [on_bind_ok hall, hrequested, Bool.and_true]
    rfl

/-- If the script fails, so does the build; if it is blocked, only for a plain request. -/
theorem compile_requested_iff :
    (compile run s (some name) matching).on x = (.ok (m, c, fine), y) ↔
      ∃ o, (attempt run s name matching).on x = (.ok (m, c, o), y) ∧
        (fine = false ↔ (∃ message, o = .failed message) ∨
          (∃ report, o = .blocked report) ∧ name ≠ "" ∧ '/' ∉ name.toList) := by
  have hfine (o : Outcome) : fine = o.isFine (decide (IsPlainRequest name)) ↔
      (fine = false ↔ (∃ message, o = .failed message) ∨
        (∃ report, o = .blocked report) ∧ name ≠ "" ∧ '/' ∉ name.toList) := by
    have hfalse := o.isFine_eq_false_iff (decide (IsPlainRequest name))
    rw [decide_eq_true_iff] at hfalse
    change _ ↔ (_ ↔ _ ∨ _ ∧ IsPlainRequest name)
    rw [← hfalse]
    cases fine <;> cases o.isFine _ <;> simp
  rw [compile_eq_attempt, on_map]
  rcases (attempt run s name matching).on x with ⟨f | ⟨m', c', o⟩, y'⟩
  · simp [Except.map]
  · simp only [Except.map, Prod.mk.injEq, Except.ok.injEq, ← hfine]
    constructor
    · rintro ⟨⟨rfl, rfl, rfl⟩, rfl⟩
      exact ⟨o, ⟨⟨rfl, rfl, rfl⟩, rfl⟩, rfl⟩
    · rintro ⟨o, ⟨⟨rfl, rfl, rfl⟩, rfl⟩, rfl⟩
      exact ⟨⟨rfl, rfl, rfl⟩, rfl⟩

/-- An action may not make the call of the script. -/
theorem Sample.blocked_callback {c : Context} (hc : Sample.IsContext c)
    (hx : x.disk = Sample.project Lint.callback none) :
    ∃ report y, (compileScript Sample.echo c Sample.script).on x = (.ok (.blocked report), y) := by
  obtain ⟨flow, hflow, htype⟩ := hc.flow
  have htext : x.disk.text? Sample.script = some Lint.callback := by rw [hx]; rfl
  have hmisuse : Lint.IsMisuse flow.type c.models
      (.call 1 (.member (.identifier "nango") (some "batchSave")) .empty [.literal ""]) :=
    .disallowed htype (by decide)
  have hon := on_compileFlow Sample.echo c flow.type htext
  rw [Lint.lint_callback] at hon
  generalize hreport : (⟨Sample.script.toText, c.models, _⟩ : Lint.Report) = report at hon
  have hblocked : report.isEligible = false := by
    rw [Lint.Report.isEligible_eq_false_iff, ← hreport, Lint.error_mem_diagnosticsOf_iff]
    exact ⟨[0, 0, 0, 0, 0, 0, 1], _, rfl, hmisuse⟩
  have herrors : report.errors ≠ [] := by simpa [Lint.Report.isEligible] using hblocked
  simp only [if_neg herrors] at hon
  obtain ⟨l, hscript⟩ := on_compileScript hflow hon
  exact ⟨report, _, hscript⟩

/-- A path to the only script, which has a call that is an error. -/
theorem compile_requested_blocked : ∃ m c report y,
    (attempt Sample.echo Sample.settings "./a" false).on (Sample.fresh Lint.callback none) =
      (.ok (m, c, .blocked report), y) ∧
    (compile Sample.echo Sample.settings (some "./a") false).on (Sample.fresh Lint.callback none) =
      (.ok (m, c, true), y) := by
  obtain ⟨m, c, y, hc, hprepare, hy⟩ := Sample.prepare_fresh Lint.callback none none
  have hplan : (plan Sample.settings (some "./a") false).on (Sample.fresh Lint.callback none) =
      (.ok (m, c, [Sample.script]), y) := by
    have hthere : (has Sample.script).on y = (.ok true, y) := by
      rw [on_has, hy]
      rfl
    exact (on_bind_ok hprepare).trans ((on_bind_ok ((on_bind_ok hthere).trans rfl)).trans rfl)
  have hmapped : (mapFault asBuild (plan Sample.settings (some "./a") false)).on
      (Sample.fresh Lint.callback none) = (.ok (m, c, [Sample.script]), y) := by
    rw [on_mapFault, hplan]
    rfl
  obtain ⟨z, hdirs, hz⟩ := Sample.on_makeDirs_output hy
  obtain ⟨report, w, hcompile⟩ := Sample.blocked_callback hc hz
  have hattempt : (attempt Sample.echo Sample.settings "./a" false).on
      (Sample.fresh Lint.callback none) = (.ok (m, c, .blocked report), w) :=
    (on_bind_ok hmapped).trans ((on_bind_ok hdirs).trans ((on_bind_ok hcompile).trans rfl))
  refine ⟨m, c, report, w, hattempt, ?_⟩
  rw [compile_eq_attempt, on_map, hattempt]
  rfl

end FlowPipeline.Build
