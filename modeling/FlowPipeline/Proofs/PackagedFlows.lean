import FlowPipeline.Proofs.Packaging
import FlowPipeline.Proofs.ScriptPaths

/-! # Which flows are packaged

A cadence that gives no schedule keeps all selected flows back, whatever else is wrong with them and
whenever they are packaged. Otherwise there is one package, in order, for each selected flow that is
complete and compiled. Only a name that is too long to look up is in the way of this.
-/

namespace FlowPipeline

/-- The selected flows of integrations in order, each with the key of its integration. -/
def Selection.keyed (s : Selection) (is : List Integration) : List (String × Flow) :=
  is.flatMap fun i => (s.flows i).map fun f => (i.key, f)

/-! ## Flows without their files -/

theorem Cadence.resolve_eq_error {cadence : String} {now : Moment} {e : Fault}
    (h : resolve cadence now = .error e) (now' : Moment) : resolve cadence now' = .error e := by
  unfold resolve at h ⊢
  dsimp only at h ⊢
  split at h
  · exact h
  · split at h
    · next hshort => rw [if_pos hshort, h]
    · cases h

namespace Flow

/-- A sync whose cadence gives no schedule. -/
structure IsRejected (f : Flow) : Prop where
  sync : f.kind? = some .sync
  cadence : f.cadence.getD "" ≠ ""
  fault : ∃ now e, Cadence.resolve (f.cadence.getD "") now = .error e

/-- A flow that is not a sync without a cadence and returns no undefined model. -/
structure IsComplete (f : Flow) : Prop where
  cadence : f.kind? = some .sync → f.cadence.getD "" ≠ ""
  models : f.unresolved = []

instance (f : Flow) : Decidable f.IsComplete :=
  decidable_of_iff ((f.kind? = some .sync → f.cadence.getD "" ≠ "") ∧ f.unresolved = [])
    ⟨fun h => ⟨h.1, h.2⟩, fun h => ⟨h.cadence, h.models⟩⟩

end Flow

namespace Obstacle

theorem ofCadence?_of_moment (cadence : String) (now now' : Moment) :
    ofCadence? cadence now = ofCadence? cadence now' := by
  unfold ofCadence?
  split_ifs
  · rfl
  · rcases h : Cadence.resolve cadence now with e | i
    · rw [Cadence.resolve_eq_error h now']
    · rcases h' : Cadence.resolve cadence now' with e | i'
      · rw [Cadence.resolve_eq_error h' now] at h
        cases h
      · rfl

theorem ofFlow?_of_moment (f : Flow) (now now' : Moment) : ofFlow? f now = ofFlow? f now' := by
  simp only [ofFlow?, ofCadence?_of_moment _ now now']

/-- What is wrong with a flow: its cadence, which keeps all flows back, something else, or
nothing. -/
theorem ofFlow?_cases (f : Flow) (now : Moment) :
    (f.IsRejected ∧ ∃ o, ofFlow? f now = some o ∧ o.isFinal = true) ∨
      (¬f.IsRejected ∧ ¬f.IsComplete ∧ ∃ o, ofFlow? f now = some o ∧ o.isFinal = false) ∨
      ¬f.IsRejected ∧ f.IsComplete ∧ ofFlow? f now = none := by
  -- Nothing is wrong with the cadence.
  have hmodels (hrejected : ¬f.IsRejected) (hcadence : f.kind? = some .sync →
      f.cadence.getD "" ≠ "") (hnone : (if f.kind? = some .sync then
        ofCadence? (f.cadence.getD "") now else none) = none) :
      (¬f.IsRejected ∧ ¬f.IsComplete ∧ ∃ o, ofFlow? f now = some o ∧ o.isFinal = false) ∨
        ¬f.IsRejected ∧ f.IsComplete ∧ ofFlow? f now = none := by
    by_cases hunresolved : f.unresolved = []
    · exact .inr ⟨hrejected, ⟨hcadence, hunresolved⟩, by simp [ofFlow?, hnone, hunresolved]⟩
    · exact .inl ⟨hrejected, fun h => hunresolved h.models, .undefinedModels f.unresolved,
        by simp [ofFlow?, hnone, hunresolved], rfl⟩
  by_cases hsync : f.kind? = some .sync
  · by_cases hcadence : f.cadence.getD "" = ""
    · refine .inr (.inl ⟨fun h => h.cadence hcadence, fun h => h.cadence hsync hcadence,
        .noCadence, ?_, rfl⟩)
      simp [ofFlow?, ofCadence?, hsync, hcadence]
    · rcases h : Cadence.resolve (f.cadence.getD "") now with e | i
      · refine .inl ⟨⟨hsync, hcadence, now, e, h⟩, .cadence (f.cadence.getD "") e, ?_, rfl⟩
        simp [ofFlow?, ofCadence?, hsync, hcadence, h]
      · refine .inr (hmodels ?_ (fun _ => hcadence) (by simp [hsync, ofCadence?, hcadence, h]))
        rintro ⟨-, -, now', e, h'⟩
        rw [Cadence.resolve_eq_error h' now] at h
        cases h
  · exact .inr (hmodels (fun h => hsync h.sync) (fun h => absurd h hsync) (if_neg hsync))

end Obstacle

/-! ## Files of flows -/

/-- The names of files of flows. -/
theorem Path.isName_append {name suffix : String} (hname : '/' ∉ name.toList)
    (hsuffix : suffix ∈ [".js", ".ts"]) : IsName (name ++ suffix) := by
  have hlength : ∀ s ∈ [".js", ".ts"], s.toList.length = 3 := by decide
  have hslash : ∀ s ∈ [".js", ".ts"], '/' ∉ s.toList := by decide
  have hne {n : String} (hn : n.toList.length < 3) : name ++ suffix ≠ n := by
    rintro rfl
    rw [String.toList_append, List.length_append, hlength suffix hsuffix] at hn
    omega
  refine ⟨hne (by decide), hne (by decide), hne (by decide), ?_⟩
  rw [String.toList_append, List.mem_append, not_or]
  exact ⟨hname, hslash suffix hsuffix⟩

namespace Disk

/-- What stands at a path, if anything, is a file of text. -/
def IsReadable (d : Disk) (p : Path) : Prop :=
  (d.entryAt? p).isSome = true → (d.text? p).isSome = true

instance (d : Disk) (p : Path) : Decidable (d.IsReadable p) :=
  inferInstanceAs (Decidable ((d.entryAt? p).isSome = true → (d.text? p).isSome = true))

/-- A path cannot be looked up since it, or a name on the way, is too long. -/
def IsTooLong (d : Disk) (p : Path) : Prop := d.entry p = .error .nameTooLong

theorem has_of_isTooLong {d : Disk} {p : Path} (h : d.IsTooLong p) :
    d.has p = .error ⟨.nameTooLong, p.toText⟩ := by
  rw [IsTooLong] at h
  rw [has, leadsTo, h]

theorem has_of_not_isTooLong {d : Disk} {p : Path} (h : ¬d.IsTooLong p) :
    d.has p = .ok (d.entryAt? p).isSome := by
  unfold IsTooLong at h
  unfold has leadsTo entryAt?
  rcases he : d.entry p with e | entry
  · rw [he] at h
    cases e <;> first | rfl | exact absurd rfl h
  · rfl

theorem isReadable_of_isTooLong {d : Disk} {p : Path} (h : d.IsTooLong p) : d.IsReadable p := by
  intro hthere
  rw [IsTooLong] at h
  rw [entryAt?, h] at hthere
  cases hthere

theorem walk_append_of_long {d : Disk} {dir l ns : List String} {n : String}
    (h : d.walk dir l = .ok ns) (hdir : d.find? ns = some .dir)
    (hn : longestName < n.utf8ByteSize) : d.walk dir (l ++ [n]) = .error .nameTooLong := by
  induction l generalizing dir with
  | nil => simp only [List.nil_append, walk, if_pos hn]
  | cons k l ih =>
    have hne : (l ++ [n]).isEmpty = false := by simp
    simp only [List.cons_append, walk, hne, Bool.false_eq_true, if_false] at h ⊢
    split_ifs at h with hk hl
    · -- The last name on the way is that of the directory.
      obtain rfl := List.isEmpty_iff.1 hl
      obtain rfl := Except.ok.inj h
      rw [if_neg hk, hdir]
      exact ih rfl
    · rw [if_neg hk]
      cases hfind : d.find? (step dir k) with
      | none =>
        rw [hfind] at h
        cases h
      | some e =>
        rw [hfind] at h
        cases e with
        | file bytes => cases h
        | dir => exact ih h

/-- In a directory nothing can be looked up by a name that is too long. -/
theorem isTooLong_child {d : Disk} {p : Path} {n : String} (hdir : d.entryAt? p = some .dir)
    (hn : longestName < n.utf8ByteSize) : d.IsTooLong (p.child n) := by
  obtain ⟨ns, hlocate, hfind⟩ := entryAt?_eq_some_iff.1 hdir
  have hlong : d.locate (p.child n) = .error .nameTooLong := by
    unfold locate at hlocate ⊢
    split at hlocate
    · cases hlocate
    split
    · rfl
    · exact walk_append_of_long hlocate hfind hn
  rw [IsTooLong, entry, hlong]
  rfl

end Disk

namespace Package
open Work

variable (root output : Path) (version : String) (d : Disk)

/-- Where the compiled script of a flow stands. -/
def artifactOf (f : Flow) : Path := output.join (Path.ofString (f.name ++ ".js"))

/-- Where the script of a flow stands. -/
def sourceOf (f : Flow) : Path := root.join (Path.ofString (f.name ++ ".ts"))

/-- A flow that is complete and compiled. -/
structure IsReady (f : Flow) : Prop where
  complete : f.IsComplete
  compiled : (d.entryAt? (artifactOf output f)).isSome = true

instance (f : Flow) : Decidable (IsReady output d f) :=
  decidable_of_iff (f.IsComplete ∧ (d.entryAt? (artifactOf output f)).isSome = true)
    ⟨fun h => ⟨h.1, h.2⟩, fun h => ⟨h.complete, h.compiled⟩⟩

/-- A flow that is complete cannot be packaged since a path is too long. -/
inductive IsOverlong (f : Flow) : Path → Prop where
  | artifact (hf : f.IsComplete) (hlong : d.IsTooLong (artifactOf output f)) :
    IsOverlong f (artifactOf output f)
  | source (hf : IsReady output d f) (hlong : d.IsTooLong (sourceOf root f)) :
    IsOverlong f (sourceOf root f)

/-- The package of a flow, given with the key of its integration. -/
structure IsFor (kf : String × Flow) (p : Package) : Prop where
  key : p.key = kf.1
  flow : p.flow = kf.2
  version : p.version = version
  compiled : d.text? (artifactOf output kf.2) = some p.compiled
  source : p.source = d.text? (sourceOf root kf.2)

/-- What packaging one flow comes to. -/
inductive FlowEnds (kf : String × Flow) : Except Fault (Except Obstacle Package) → Prop where
  | rejected {o : Obstacle} (h : kf.2.IsRejected) (ho : o.isFinal = true) :
    FlowEnds kf (.ok (.error o))
  | skipped {o : Obstacle} (h : ¬kf.2.IsRejected) (hready : ¬IsReady output d kf.2)
    (hlong : ∀ p, ¬IsOverlong root output d kf.2 p) (ho : o.isFinal = false) :
    FlowEnds kf (.ok (.error o))
  | packaged {p : Package} (h : ¬kf.2.IsRejected) (hready : IsReady output d kf.2)
    (hlong : ∀ p, ¬IsOverlong root output d kf.2 p) (hp : IsFor root output version d kf p) :
    FlowEnds kf (.ok (.ok p))
  | refused {p : Path} (h : ¬kf.2.IsRejected) (hlong : IsOverlong root output d kf.2 p) :
    FlowEnds kf (.error (.file ⟨.nameTooLong, p.toText⟩))

/-- What packaging flows in order comes to. A sync whose cadence gives no schedule keeps all flows
back, unless a path before it is too long; otherwise all flows that are ready are packaged. -/
inductive Ends : List (String × Flow) → Except Fault (Option (List Package)) → Prop where
  | keptBack (before : List (String × Flow)) {after : List (String × Flow)} {kf : String × Flow}
    (hbefore : ∀ kf ∈ before, ∀ p, ¬IsOverlong root output d kf.2 p) (h : kf.2.IsRejected) :
    Ends (before ++ kf :: after) (.ok none)
  | packaged {fs : List (String × Flow)} {ps : List Package} (h : ∀ kf ∈ fs, ¬kf.2.IsRejected)
    (hlong : ∀ kf ∈ fs, ∀ p, ¬IsOverlong root output d kf.2 p)
    (hps : List.Forall₂ (IsFor root output version d)
      (fs.filter fun kf => IsReady output d kf.2) ps) :
    Ends fs (.ok (some ps))
  | refused (before : List (String × Flow)) {after : List (String × Flow)} {kf : String × Flow}
    {p : Path}
    (hbefore : ∀ kf ∈ before, ¬kf.2.IsRejected) (h : ¬kf.2.IsRejected)
    (hlong : IsOverlong root output d kf.2 p) :
    Ends (before ++ kf :: after) (.error (.file ⟨.nameTooLong, p.toText⟩))

variable {root output version d} {x : World} {now : Moment} {key : String} {f : Flow}

theorem not_isOverlong (hjs : f.IsComplete → ¬d.IsTooLong (artifactOf output f))
    (hts : IsReady output d f → ¬d.IsTooLong (sourceOf root f)) (p : Path) :
    ¬IsOverlong root output d f p := by
  rintro (⟨hcomplete, hlong⟩ | ⟨hready, hlong⟩)
  · exact hjs hcomplete hlong
  · exact hts hready hlong

/-! ## One flow -/

theorem on_has_of_isTooLong {p : Path} (h : x.disk.IsTooLong p) :
    (has p).on x = (.error (.file ⟨.nameTooLong, p.toText⟩), x) := by
  rw [on_has, Disk.has_of_isTooLong h]
  rfl

theorem on_has_of_not_isTooLong {p : Path} (h : ¬x.disk.IsTooLong p) :
    (has p).on x = (.ok (x.disk.entryAt? p).isSome, x) := by
  rw [on_has, Disk.has_of_not_isTooLong h]
  rfl

/-- What is done with the script of a flow, or without it. -/
theorem on_source {α : Type} (k : Option String → Work α)
    (hts : x.disk.IsReadable (sourceOf root f)) (hlong : ¬x.disk.IsTooLong (sourceOf root f)) :
    (do if ← has (sourceOf root f) then some <$> readText (sourceOf root f) >>= k
        else pure none >>= k : Work α).on x = (k (x.disk.text? (sourceOf root f))).on x := by
  rw [on_bind_ok (on_has_of_not_isTooLong hlong)]
  cases hthere : x.disk.entryAt? (sourceOf root f) with
  | none =>
    have hnone : x.disk.text? (sourceOf root f) = none := by
      rcases h : x.disk.text? (sourceOf root f) with _ | s
      · rfl
      · obtain ⟨bytes, t, he, -⟩ := Disk.text?_eq_some_iff.1 h
        rw [hthere] at he
        cases he
    rw [hnone]
    rfl
  | some e =>
    obtain ⟨s, hs⟩ := Option.isSome_iff_exists.1 (hts (by rw [hthere]; rfl))
    have hread : (some <$> readText (sourceOf root f)).on x = (.ok (some s), x) := by
      rw [on_map, on_readText_of_text? hs]
      rfl
    simp only [Option.isSome_some, if_true]
    rw [on_bind_ok hread, hs]

/-- A complete flow is packaged unless it is not compiled or a path is too long. -/
theorem ofScript_ends (hrejected : ¬f.IsRejected) (hcomplete : f.IsComplete)
    (hjs : x.disk.IsReadable (artifactOf output f)) (hts : x.disk.IsReadable (sourceOf root f)) :
    FlowEnds root output version x.disk (key, f)
      ((ofScript root output version key f).on x).1 := by
  unfold ofScript
  rw [← artifactOf, ← sourceOf]
  by_cases hlong : x.disk.IsTooLong (artifactOf output f)
  · rw [on_bind_error (on_has_of_isTooLong hlong)]
    exact .refused hrejected (.artifact hcomplete hlong)
  rw [on_bind_ok (on_has_of_not_isTooLong hlong)]
  cases hthere : x.disk.entryAt? (artifactOf output f) with
  | none =>
    have hunready : ¬IsReady output x.disk f := fun h => by
      have := h.compiled
      rw [hthere] at this
      cases this
    exact .skipped hrejected hunready
      (not_isOverlong (fun _ => hlong) fun h => absurd h hunready) rfl
  | some e =>
    have hready : IsReady output x.disk f := ⟨hcomplete, by rw [hthere]; rfl⟩
    obtain ⟨compiled, hcompiled⟩ := Option.isSome_iff_exists.1 (hjs hready.compiled)
    obtain ⟨y, hlog, hdisk⟩ : ∃ y, (log .debug ("Integration file found for " ++ f.name ++
        " at " ++ (artifactOf output f).toText)).on x = (.ok (), y) ∧ y.disk = x.disk :=
      ⟨_, on_log _ _ _, rfl⟩
    simp only [Option.isSome_some, Bool.not_true, Bool.false_eq_true, if_false]
    rw [on_bind_ok hlog]
    rw [← hdisk] at hcompiled hts hready hlong ⊢
    rw [on_bind_ok (on_readText_of_text? hcompiled)]
    by_cases hlong' : y.disk.IsTooLong (sourceOf root f)
    · rw [on_bind_error (on_has_of_isTooLong hlong')]
      exact .refused hrejected (.source hready hlong')
    · rw [on_source _ hts hlong']
      exact .packaged hrejected hready (not_isOverlong (fun _ => hlong) fun _ => hlong')
        ⟨rfl, rfl, rfl, hcompiled, rfl⟩

theorem on_ofFlow_of_some (version key : String) {o : Obstacle}
    (ho : Obstacle.ofFlow? f now = some o) :
    ((ofFlow root output version now key f).on x).1 = .ok (.error o) := by
  unfold ofFlow
  simp only [ho]
  split_ifs
  · rw [on_bind_ok (on_log _ _ _)]
    rfl
  · rfl

/-- Only the log may have more in it when the script of a flow is looked for. -/
theorem on_ofFlow_of_none (root output : Path) (version key : String) (x : World)
    (ho : Obstacle.ofFlow? f now = none) :
    ∃ y : World, y.disk = x.disk ∧ (ofFlow root output version now key f).on x =
      (ofScript root output version key f).on y := by
  unfold ofFlow
  simp only [ho]
  split_ifs
  · refine ⟨_, ?_, on_bind_ok (on_log _ _ _)⟩
    rfl
  · exact ⟨x, rfl, rfl⟩

theorem ofFlow_ends (version key : String) (now : Moment)
    (hjs : x.disk.IsReadable (artifactOf output f)) (hts : x.disk.IsReadable (sourceOf root f)) :
    FlowEnds root output version x.disk (key, f)
      ((ofFlow root output version now key f).on x).1 := by
  rcases Obstacle.ofFlow?_cases f now with ⟨hrejected, o, ho, hfinal⟩ |
    ⟨hrejected, hcomplete, o, ho, hfinal⟩ | ⟨hrejected, hcomplete, ho⟩
  · rw [on_ofFlow_of_some version key ho]
    exact .rejected hrejected hfinal
  · rw [on_ofFlow_of_some version key ho]
    exact .skipped hrejected (fun h => hcomplete h.complete)
      (not_isOverlong (fun h => absurd h hcomplete) fun h => absurd h.complete hcomplete) hfinal
  · obtain ⟨y, hdisk, hscript⟩ := on_ofFlow_of_none root output version key x ho
    rw [hscript]
    rw [← hdisk] at hjs hts ⊢
    exact ofScript_ends hrejected hcomplete hjs hts

/-! ## All flows -/

variable {kf : String × Flow} {fs : List (String × Flow)}

/-- A flow that is skipped makes no difference. -/
theorem Ends.skip {r : Except Fault (Option (List Package))}
    (h : Ends root output version d fs r) (hrejected : ¬kf.2.IsRejected)
    (hready : ¬IsReady output d kf.2) (hlong : ∀ p, ¬IsOverlong root output d kf.2 p) :
    Ends root output version d (kf :: fs) r := by
  cases h with
  | @keptBack before after kf' hbefore h =>
    exact .keptBack (kf :: before) (List.forall_mem_cons.2 ⟨hlong, hbefore⟩) h
  | packaged h hlong' hps =>
    refine .packaged (List.forall_mem_cons.2 ⟨hrejected, h⟩)
      (List.forall_mem_cons.2 ⟨hlong, hlong'⟩) ?_
    rw [List.filter_cons_of_neg (by simpa using hready)]
    exact hps
  | @refused before after kf' p hbefore h hlong' =>
    exact .refused (kf :: before) (List.forall_mem_cons.2 ⟨hrejected, hbefore⟩) h hlong'

/-- A package is put in front of the others. -/
theorem Ends.package {r : Except Fault (Option (List Package))} {p : Package}
    (h : Ends root output version d fs r) (hrejected : ¬kf.2.IsRejected)
    (hready : IsReady output d kf.2) (hlong : ∀ p, ¬IsOverlong root output d kf.2 p)
    (hp : IsFor root output version d kf p) :
    Ends root output version d (kf :: fs) (r.map (Option.map (p :: ·))) := by
  cases h with
  | @keptBack before after kf' hbefore h =>
    exact .keptBack (kf :: before) (List.forall_mem_cons.2 ⟨hlong, hbefore⟩) h
  | packaged h hlong' hps =>
    refine .packaged (List.forall_mem_cons.2 ⟨hrejected, h⟩)
      (List.forall_mem_cons.2 ⟨hlong, hlong'⟩) ?_
    rw [List.filter_cons_of_pos (by simpa using hready)]
    exact .cons hp hps
  | @refused before after kf' p' hbefore h hlong' =>
    exact .refused (kf :: before) (List.forall_mem_cons.2 ⟨hrejected, hbefore⟩) h hlong'

theorem ofFlows_ends (now : Moment) (hreadable : ∀ kf ∈ fs,
      x.disk.IsReadable (artifactOf output kf.2) ∧ x.disk.IsReadable (sourceOf root kf.2)) :
    Ends root output version x.disk fs ((ofFlows root output version now fs).on x).1 := by
  induction fs generalizing x with
  | nil => exact .packaged (by simp) (by simp) .nil
  | cons kf fs ih =>
    obtain ⟨⟨hjs, hts⟩, hreadable⟩ := List.forall_mem_cons.1 hreadable
    have hflow := ofFlow_ends version kf.1 now hjs hts
    rcases hr : (ofFlow root output version now kf.1 kf.2).on x with ⟨r, y⟩
    have hdisk := (reads_ofFlow root output version now kf.1 kf.2).disk_eq hr
    rw [hr] at hflow
    -- The other flows are packaged in the same file system, with more in the log.
    have hrest (z : World) (hz : z.disk = x.disk) :
        Ends root output version x.disk fs ((ofFlows root output version now fs).on z).1 := by
      rw [← hz] at hreadable ⊢
      exact ih hreadable
    unfold ofFlows
    cases hflow with
    | @rejected o h ho =>
      rw [on_bind_ok hr]
      dsimp only
      rw [on_bind_ok (on_log _ _ _), if_pos ho]
      exact .keptBack [] (by simp) h
    | @skipped o h hready hlong ho =>
      rw [on_bind_ok hr]
      dsimp only
      rw [on_bind_ok (on_log _ _ _), if_neg (by simp [ho])]
      refine Ends.skip (hrest _ ?_) h hready hlong
      exact hdisk
    | @packaged p h hready hlong hp =>
      rw [on_bind_ok hr]
      have hmap := (hrest y hdisk).package h hready hlong hp
      dsimp only
      rw [on_bind_pure]
      exact hmap
    | @refused p h hlong =>
      rw [on_bind_error hr]
      exact .refused [] (by simp) h hlong

theorem ofFlows_of_moment (now now' : Moment) (fs : List (String × Flow)) :
    ofFlows root output version now fs = ofFlows root output version now' fs := by
  induction fs with
  | nil => rfl
  | cons kf fs ih => simp only [ofFlows, ofFlow, Obstacle.ofFlow?_of_moment _ now now', ih]

/-- Packaging selected flows whose files are readable does not depend on the moment. It comes to
nothing exactly if it meets a sync whose cadence gives no schedule, and otherwise to one package for
each flow that is complete and compiled, unless a path is too long. -/
theorem all_ends (version : String) {wanted : Selection} {is : List Integration} (now : Moment)
    (hreadable : ∀ kf ∈ wanted.keyed is,
      x.disk.IsReadable (artifactOf output kf.2) ∧ x.disk.IsReadable (sourceOf root kf.2)) :
    (∀ now', all root output version wanted now' is = all root output version wanted now is) ∧
      Ends root output version x.disk (wanted.keyed is)
        ((all root output version wanted now is).on x).1 := by
  exact ⟨fun now' => ofFlows_of_moment now' now _, ofFlows_ends now hreadable⟩

end Package

/-! ## Packaging actions -/

namespace Package.Sample
open Work

def action (name : String) : Flow where
  name
  type := "action"
  cadence := none
  trackDeletes := false
  autoStart := true
  returns := []
  models := []
  description := ""
  scopes := []
  attributes := []

def integrations (names : List String) : List Integration :=
  [⟨"i", [], names.map action, none⟩]

def everything : Selection := ⟨none, none⟩

def output : Path := Path.root.child "dist"

/-- A world in which the action `a` is compiled. -/
def world : World where
  disk := { entries := [(["dist"], .dir), (["dist", "a.js"], .file [120])], here := [] }
  log := []

def midnight : Moment := ⟨⟨2024, 1, 1⟩, 0, 0, 0, 0, none⟩

theorem all_ends_two :
    (∀ kf ∈ everything.keyed (integrations ["a", "b"]),
      world.disk.IsReadable (artifactOf output kf.2) ∧
        world.disk.IsReadable (sourceOf Path.root kf.2)) ∧
      (∀ now', all Path.root output "1" everything now' (integrations ["a", "b"]) =
        all Path.root output "1" everything midnight (integrations ["a", "b"])) ∧
      Ends Path.root output "1" world.disk (everything.keyed (integrations ["a", "b"]))
        (.ok (some [⟨"i", action "a", "1", "x", none⟩])) := by
  have hreadable : ∀ kf ∈ everything.keyed (integrations ["a", "b"]),
      world.disk.IsReadable (artifactOf output kf.2) ∧
        world.disk.IsReadable (sourceOf Path.root kf.2) := by
    decide
  obtain ⟨hmoment, hends⟩ := all_ends "1" midnight hreadable
  exact ⟨hreadable, hmoment, hends⟩

theorem noSlash_letters (k : Nat) : '/' ∉ (String.ofList (List.replicate k 'a')).toList := by
  have hletter : '/' ≠ 'a' := by decide
  rw [String.toList_ofList, List.mem_replicate, not_and]
  exact fun _ => hletter

/-- The name of a flow for whose files it is too long. -/
def overlong : String := String.ofList (List.replicate 253 'a')

theorem isTooLong_overlong {p : Path} {suffix : String} (hsuffix : suffix ∈ [".js", ".ts"])
    (hdir : world.disk.entryAt? p = some .dir) :
    world.disk.IsTooLong (p.join (Path.ofString (overlong ++ suffix))) := by
  have hlong : ∀ s ∈ [".js", ".ts"], Disk.longestName < (overlong ++ s).utf8ByteSize := by
    decide +kernel
  have hname : Path.IsName (overlong ++ suffix) := Path.isName_append (noSlash_letters 253) hsuffix
  rw [Path.join_of_isName p hname]
  exact Disk.isTooLong_child hdir (hlong suffix hsuffix)

/-- The flow is not skipped, though it is not compiled. -/
theorem not_returned_overlong :
    (∀ kf ∈ everything.keyed (integrations [overlong]),
      world.disk.IsReadable (artifactOf output kf.2) ∧
        world.disk.IsReadable (sourceOf Path.root kf.2)) ∧
      ∀ r, ((all Path.root output "1" everything midnight
        (integrations [overlong])).on world).1 ≠ .ok r := by
  have hjs : world.disk.IsTooLong (artifactOf output (action overlong)) :=
    isTooLong_overlong (by decide) rfl
  have hts : world.disk.IsTooLong (sourceOf Path.root (action overlong)) :=
    isTooLong_overlong (by decide) rfl
  constructor
  · intro kf hkf
    obtain rfl := List.mem_singleton.1 hkf
    exact ⟨Disk.isReadable_of_isTooLong hjs, Disk.isReadable_of_isTooLong hts⟩
  · intro r h
    have hflow : (ofFlow Path.root output "1" midnight "i" (action overlong)).on world = _ :=
      on_bind_error (on_has_of_isTooLong hjs)
    have hall : (all Path.root output "1" everything midnight (integrations [overlong])).on world =
        _ := on_bind_error hflow
    rw [hall] at h
    cases h

end Package.Sample
end FlowPipeline
