import FlowPipeline.Deployment
import FlowPipeline.Proofs.WorkRuns

/-! # Packaging flows

Packaging reads files and changes none. A package has the text of its compiled script, and the
text of the script if there is one, as they are at that moment.
-/

namespace FlowPipeline.Package
open Work

theorem reads_ofScript (root output : Path) (version key : String) (f : Flow) :
    Reads (ofScript root output version key f) := by
  have hread : Reads (do
      log .debug ("Integration file found for " ++ f.name ++ " at " ++
        (output.join (Path.ofString (f.name ++ ".js"))).toText)
      let compiled ← readText (output.join (Path.ofString (f.name ++ ".js")))
      let q := root.join (Path.ofString (f.name ++ ".ts"))
      let source ← if ← has q then some <$> readText q else pure none
      return .ok ⟨key, f, version, compiled, source⟩ : Work (Except Obstacle Package)) := by
    refine .bind (.log _ _) fun _ => .bind (.readText _) fun _ => .bind (.has _) fun there => ?_
    split_ifs
    · exact .bind (.map (.readText _)) fun _ => .pure _
    · exact .bind (.pure _) fun _ => .pure _
  refine .bind (.has _) fun there => ?_
  cases there with
  | true => exact hread
  | false => exact .pure _

theorem reads_ofFlow (root output : Path) (version : String) (now : Moment) (key : String)
    (f : Flow) : Reads (ofFlow root output version now key f) := by
  unfold ofFlow
  split_ifs
  · refine .bind (.log _ _) fun _ => ?_
    split
    · exact .pure _
    · exact reads_ofScript root output version key f
  · split
    · exact .pure _
    · exact reads_ofScript root output version key f

theorem reads_ofFlows (root output : Path) (version : String) (now : Moment)
    (fs : List (String × Flow)) : Reads (ofFlows root output version now fs) := by
  induction fs with
  | nil => exact .pure _
  | cons kf fs ih =>
    refine .bind (reads_ofFlow root output version now kf.1 kf.2) fun r => ?_
    rcases r with o | p
    · refine .bind (.log _ _) fun _ => ?_
      split_ifs
      · exact .pure _
      · exact ih
    · exact .bind ih fun _ => .pure _

theorem reads_all (root output : Path) (version : String) (wanted : Selection) (now : Moment)
    (is : List Integration) : Reads (all root output version wanted now is) :=
  reads_ofFlows root output version now _

/-! ## What is in a package -/

/-- The texts of a package are those of files. -/
structure IsOf (root output : Path) (d : Disk) (p : Package) : Prop where
  compiled : d.text? (output.join (Path.ofString (p.flow.name ++ ".js"))) = some p.compiled
  source : ∀ s, p.source = some s →
    d.text? (root.join (Path.ofString (p.flow.name ++ ".ts"))) = some s

variable {root output : Path} {version : String} {now : Moment} {x y : World}

/-- Either there is no compiled script, or a package is made of the flow with its texts. -/
theorem ofScript_cases {key : String} {f : Flow} {r : Except Obstacle Package}
    (h : (ofScript root output version key f).on x = (.ok r, y)) :
    (∃ o, r = .error o ∧
      x.disk.has (output.join (Path.ofString (f.name ++ ".js"))) = .ok false) ∨
    ∃ p, r = .ok p ∧ p.key = key ∧ p.flow = f ∧ p.IsOf root output x.disk := by
  obtain ⟨there, z, hthere, h⟩ := on_bind_eq_ok h
  obtain ⟨hhas, rfl⟩ := on_has_eq_ok hthere
  cases there with
  | false =>
    cases h
    exact .inl ⟨_, rfl, hhas⟩
  | true =>
    right
    obtain ⟨_, w, hlog, h⟩ := on_bind_eq_ok h
    obtain ⟨compiled, z', hcompiled, h⟩ := on_bind_eq_ok h
    obtain ⟨there, z'', hthere, h⟩ := on_bind_eq_ok h
    have hdisk : w.disk = z.disk := by
      rw [on_log] at hlog
      rw [← (Prod.mk.inj hlog).2]
    obtain ⟨hc, rfl⟩ := on_readText_eq_ok hcompiled
    obtain ⟨-, rfl⟩ := on_has_eq_ok hthere
    rw [← hdisk]
    cases there with
    | false =>
      obtain ⟨source, v, hs, h⟩ := on_bind_eq_ok h
      cases hs
      cases h
      exact ⟨_, rfl, rfl, rfl, hc, nofun⟩
    | true =>
      obtain ⟨source, v, hs, h⟩ := on_bind_eq_ok h
      obtain ⟨text, hread, rfl⟩ := on_map_eq_ok hs
      cases h
      refine ⟨_, rfl, rfl, rfl, hc, ?_⟩
      rintro _ ⟨⟩
      exact (on_readText_eq_ok hread).1

theorem ofScript_eq_ok {key : String} {f : Flow} {p : Package}
    (h : (ofScript root output version key f).on x = (.ok (.ok p), y)) :
    p.key = key ∧ p.flow = f ∧ p.IsOf root output x.disk := by
  rcases ofScript_cases h with ⟨o, hr, -⟩ | ⟨p', hr, hp⟩
  · cases hr
  · cases hr
    exact hp

theorem on_ofScript (version key : String) {f : Flow} {js ts : String}
    (hjs : x.disk.text? (output.join (Path.ofString (f.name ++ ".js"))) = some js)
    (hts : x.disk.text? (root.join (Path.ofString (f.name ++ ".ts"))) = some ts) :
    ∃ l, (ofScript root output version key f).on x =
      (.ok (.ok ⟨key, f, version, js, some ts⟩), { x with log := l }) := by
  have hthere {p : Path} {s : String} (h : x.disk.text? p = some s) (l : Log) :
      (has p).on { x with log := l } = (.ok true, { x with log := l }) := by
    rw [on_has, Disk.has_of_text? h]
    rfl
  have hread {p : Path} {s : String} (h : x.disk.text? p = some s) (l : Log) :
      (readText p).on { x with log := l } = (.ok s, { x with log := l }) :=
    on_readText_of_text? (x := { x with log := l }) h
  have hmap (l : Log) : (some <$> readText (root.join (Path.ofString (f.name ++ ".ts")))).on
      { x with log := l } = (.ok (some ts), { x with log := l }) := by
    rw [on_map, hread hts]
    rfl
  unfold ofScript
  rw [on_bind_ok (hthere hjs x.log)]
  simp only [Bool.not_true, Bool.false_eq_true, if_false]
  rw [on_bind_ok (on_log _ _ _), on_bind_ok (hread hjs _),
    on_bind_ok (hthere hts _)]
  simp only [if_true]
  rw [on_bind_ok (hmap _)]
  exact ⟨_, rfl⟩

theorem ofFlow_eq_ok {key : String} {f : Flow} {p : Package}
    (h : (ofFlow root output version now key f).on x = (.ok (.ok p), y)) :
    p.IsOf root output x.disk := by
  unfold ofFlow at h
  split_ifs at h
  · obtain ⟨_, z, hlog, h⟩ := on_bind_eq_ok h
    cases hlog
    split at h
    · cases h
    · have hp := (ofScript_eq_ok h).2.2
      exact hp
  · split at h
    · cases h
    · exact (ofScript_eq_ok h).2.2

theorem ofFlows_eq_ok {fs : List (String × Flow)} {ps : List Package}
    (h : (ofFlows root output version now fs).on x = (.ok (some ps), y)) :
    ∀ p ∈ ps, p.IsOf root output x.disk := by
  induction fs generalizing x y ps with
  | nil =>
    cases h
    simp
  | cons kf fs ih =>
    obtain ⟨r, z, hr, h⟩ := on_bind_eq_ok h
    have hd := (reads_ofFlow root output version now kf.1 kf.2).disk_eq hr
    rw [← hd]
    rcases r with o | p
    · obtain ⟨_, z', hlog, h⟩ := on_bind_eq_ok h
      cases hlog
      split_ifs at h
      · cases h
      · have hps := ih h
        exact hps
    · obtain ⟨rest, z', hrest, h⟩ := on_bind_eq_ok h
      cases rest with
      | none => cases h
      | some ps' =>
        cases h
        exact List.forall_mem_cons.2 ⟨hd ▸ ofFlow_eq_ok hr, ih hrest⟩

end FlowPipeline.Package

namespace FlowPipeline.Deployment
open Work

variable {s : Settings} {version : String} {wanted : Selection} {now : Moment} {m : Manifest}
  {is : List Integration} {x y : World} {dep : Deployment}

theorem reads_ofCompiled (s : Settings) (version : String) (wanted : Selection) (now : Moment)
    (m : Manifest) (is : List Integration) : Reads (ofCompiled s version wanted now m is) := by
  refine .bind (Package.reads_all _ _ _ _ _ _) fun ps => ?_
  split
  · exact .throw _
  · exact .ofExcept _ _

/-- Packaging a project changes what compiling it does. -/
theorem leads_ofProject {P : Disk → Edit → Prop} {run : Runner}
    (hcompile : x.Leads P ((Build.compile run s none false).on x).2) (version : String)
    (wanted : Selection) (now : Moment) :
    x.Leads P ((ofProject run s version wanted now).on x).2 := by
  have hend (m : Manifest) (c : Context) (fine : Bool) : Reads (do
      return (← ofCompiled s version wanted now m c.integrations, fine)) :=
    .bind (reads_ofCompiled ..) fun _ => .pure _
  refine leads_bind hcompile fun ⟨m, c, fine⟩ y _ => ?_
  cases fine with
  | true => exact (hend m c true).leads y
  | false => exact (Reads.bind (.log _ _) fun _ => hend m c false).leads y

/-- What is made of packages is sent as it is, or not at all. -/
theorem sendable_eq_ok {d : Deployment} (h : d.sendable = .ok dep) : dep = d := by
  unfold sendable at h
  split_ifs at h
  · obtain ⟨_, -, h⟩ := Except.eq_ok_of_bind h
    exact (Except.ok.inj h).symm
  · exact (Except.ok.inj h).symm

/-- Why a deployment is not sent. -/
theorem sendable_eq_error {d : Deployment} {e : Text.Utf8.EncodeError}
    (h : d.sendable = .error e) : Host.isCloud d.address = false ∧
      Text.Utf8.encoded (d.secretKey.getD "" ++ ":") = .error e := by
  unfold sendable at h
  split_ifs at h with hcloud
  · refine ⟨by simpa using hcloud, ?_⟩
    rcases hk : Text.Utf8.encoded (d.secretKey.getD "" ++ ":") with e' | bytes
    · rw [hk] at h
      exact congrArg _ (Except.error.inj h)
    · rw [hk] at h
      cases h
  · cases h

theorem ofCompiled_eq_ok (h : (ofCompiled s version wanted now m is).on x = (.ok dep, y)) :
    y.disk = x.disk ∧ ∀ p ∈ dep.packages, p.IsOf s.root s.output x.disk := by
  refine ⟨(reads_ofCompiled s version wanted now m is).disk_eq h, ?_⟩
  obtain ⟨ps, z, hps, h⟩ := on_bind_eq_ok h
  cases ps with
  | none => cases h
  | some ps =>
    rw [sendable_eq_ok (on_ofExcept_eq_ok h).1]
    exact Package.ofFlows_eq_ok hps

end FlowPipeline.Deployment
