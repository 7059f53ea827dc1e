import FlowPipeline.Proofs.BuildFrames

/-! # Building twice

A build that is run again comes to the same, and leaves the same file system behind. Up to where it
writes anything it depends on the file system alone, not on the log. What it writes is not read
again: the type definitions and the compiled scripts stand elsewhere than the manifest, the options
and the scripts. There is one exception: of type definitions that cannot be encoded an empty file is
left behind, which is taken for the type definitions later on.
-/

namespace FlowPipeline

/-! ## Work that does not look at the log -/

namespace Normalizing

variable {α β : Type}

/-- What normalizing comes to does not depend on the log. -/
def Blind (n : Normalizing α) : Prop := ∀ l l', (n.run l').1 = (n.run l).1

theorem Blind.ofExcept (r : Except ManifestError α) : Blind (ofExcept r) := fun _ _ => rfl

theorem Blind.bind {n : Normalizing α} {f : α → Normalizing β} (h : Blind n)
    (hf : ∀ a, Blind (f a)) : Blind (n >>= f) := by
  intro l l'
  have hsame := h l l'
  rw [run_bind, run_bind]
  rcases hn : n.run l with ⟨e | a, k⟩ <;> rcases hn' : n.run l' with ⟨e' | a', k'⟩ <;>
    rw [hn, hn'] at hsame <;> cases hsame
  · rfl
  · exact hf a k k'

theorem blind_flow (name : String) (v : Value) (models : Mapping) : Blind (flow name v models) := by
  rw [flow_eq]
  refine .bind ?_ fun _ => .ofExcept _
  unfold definedBy
  split
  all_goals exact fun _ _ => rfl

theorem blind_flows (models : Mapping) (seen : List String) (es : Mapping) :
    Blind (flows models seen es) := by
  induction es generalizing seen with
  | nil => exact fun _ _ => rfl
  | cons e es ih =>
    obtain ⟨k, v⟩ := e
    cases h : isProvider (k, v) with
    | true =>
      rw [flows_cons_provider h]
      exact ih seen
    | false =>
      rw [flows_cons h]
      refine .bind (.ofExcept _) fun name => ?_
      split_ifs
      · exact fun _ _ => rfl
      · exact .bind (blind_flow name v models) fun f => .bind (ih (name :: seen)) fun _ _ _ => rfl

theorem blind_integrations (models : Mapping) (seen : List String) (es : Mapping) :
    Blind (integrations models seen es) := by
  induction es generalizing seen with
  | nil => exact fun _ _ => rfl
  | cons e es ih =>
    obtain ⟨k, v⟩ := e
    rw [integrations_cons]
    refine .bind ?_ fun entries => .bind (blind_flows models seen entries) fun r =>
      .bind (.ofExcept _) fun key => .bind (ih r.2) fun _ _ _ => rfl
    unfold sectionOf
    split
    · exact fun _ _ => rfl
    · exact fun _ _ => rfl
    · exact .bind (.ofExcept _) fun _ _ _ => rfl

end Normalizing

namespace Disk

/-- Directories have been made, and then files have been written, at some names and where no
directory stood. -/
def Later (aims : List String → Prop) (d d' : Disk) : Prop :=
  ∃ b, d.Extends b ∧ b.Level aims d'

variable {aims : List String → Prop} {d d' : Disk} {p : Path} {e : Entry}

theorem resolve_congr (h : d'.here = d.here) (p : Path) : d'.resolve p = d.resolve p := by
  simp only [resolve, h]

/-- What stands at a path stays there, if the path leads to none of the names. -/
theorem Later.entryAt? (h : Later aims d d') (hp : ¬aims (d.resolve p).names)
    (he : d.entryAt? p = some e) : d'.entryAt? p = some e := by
  obtain ⟨b, hext, hlevel⟩ := h
  rw [hlevel.entryAt? fun ns hl => ?_]
  · exact hext.entryAt? he
  · rw [locate_eq hl, resolve_congr hext.here]
    exact hp

end Disk

namespace Work

variable {α β : Type}

/-- What work comes to, and the file system that it leaves, depend on the file system alone. -/
def Blind (w : Work α) : Prop :=
  ∀ x x', x'.disk = x.disk → (w.on x').1 = (w.on x).1 ∧ (w.on x').2.disk = (w.on x).2.disk

namespace Blind

theorem pure (a : α) : Blind (pure a : Work α) := fun _ _ h => ⟨rfl, h⟩

theorem throw (f : Fault) : Blind (throw f : Work α) := fun _ _ h => ⟨rfl, h⟩

theorem bind {w : Work α} {f : α → Work β} (h : Blind w) (hf : ∀ a, Blind (f a)) :
    Blind (w >>= f) := by
  intro x x' hx
  obtain ⟨hresult, hdisk⟩ := h x x' hx
  rcases hw : w.on x with ⟨e | a, y⟩ <;> rcases hw' : w.on x' with ⟨e' | a', y'⟩ <;>
    rw [hw, hw'] at hresult hdisk <;> cases hresult
  · rw [on_bind_error hw, on_bind_error hw']
    exact ⟨rfl, hdisk⟩
  · rw [on_bind_ok hw, on_bind_ok hw']
    exact hf a y y' hdisk

theorem ite {c : Prop} [Decidable c] {v w : Work α} (hv : Blind v) (hw : Blind w) :
    Blind (if c then v else w) := by
  split_ifs
  · exact hv
  · exact hw

theorem map {f : α → β} {w : Work α} (h : Blind w) : Blind (f <$> w) := by
  intro x x' hx
  obtain ⟨hresult, hdisk⟩ := h x x' hx
  rw [on_map, on_map, hresult]
  exact ⟨rfl, hdisk⟩

theorem readDisk : Blind Work.disk := fun _ _ h => ⟨congrArg Except.ok h, h⟩

theorem log (level : Level) (message : String) : Blind (log level message) := fun _ _ h => ⟨rfl, h⟩

theorem logAll (l : Log) : Blind (logAll l) := fun _ _ h => ⟨rfl, h⟩

theorem ofExcept {ε : Type} (fault : ε → Fault) (r : Except ε α) : Blind (ofExcept fault r) := by
  cases r with
  | ok a => exact .pure a
  | error e => exact .throw _

theorem has (p : Path) : Blind (has p) := .bind .readDisk fun _ => .ofExcept _ _

theorem readText (p : Path) : Blind (readText p) :=
  .bind .readDisk fun _ => .bind (.ofExcept _ _) fun _ => .map (.ofExcept _ _)

theorem normalize (m : Manifest) : Blind (normalize m) := fun x x' h => by
  rw [on_normalize, on_normalize, Manifest.normalize,
    Normalizing.blind_integrations m.models [] m.integrations x.log x'.log]
  exact ⟨rfl, h⟩

theorem writeText (p : Path) (s : String) : Blind (writeText p s) := fun x x' h => by
  rw [on_writeText, on_writeText, h]
  rcases x.disk.write p (bytesOf s) with f | d
  · exact ⟨rfl, h⟩
  · exact ⟨rfl, rfl⟩

/-- Unless a condition holds, work ends with a fault. -/
theorem guard {b : Bool} {f : Fault} {w : Work α} (hw : Blind w) : Blind (do
    if !b then MonadExcept.throw f
    w) := by
  cases b with
  | true => exact hw
  | false => exact .bind (.throw f) fun _ => hw

end Blind

/-- What work comes to on the first file system, unless it is a fault, it comes to on the second one
too. Neither is changed. -/
def Persists (d d' : Disk) (w : Work α) : Prop :=
  ∀ x x' a y, x.disk = d → x'.disk = d' → w.on x = (.ok a, y) →
    y.disk = d ∧ ∃ y', w.on x' = (.ok a, y') ∧ y'.disk = d'

namespace Persists

variable {d d' : Disk} {p : Path}

theorem pure (a : α) : Persists d d' (pure a : Work α) := fun _ x' _ _ hx hx' h => by
  cases h
  exact ⟨hx, x', rfl, hx'⟩

theorem throw (f : Fault) : Persists d d' (throw f : Work α) := fun _ _ _ _ _ _ h => by
  cases h

theorem bind {w : Work α} {f : α → Work β} (h : Persists d d' w)
    (hf : ∀ a, Persists d d' (f a)) : Persists d d' (w >>= f) := by
  intro x x' b y hx hx' hon
  obtain ⟨a, z, hw, hrest⟩ := on_bind_eq_ok hon
  obtain ⟨hz, z', hw', hz'⟩ := h x x' a z hx hx' hw
  obtain ⟨hy, y', hrest', hy'⟩ := hf a z z' b y hz hz' hrest
  exact ⟨hy, y', (on_bind_ok hw').trans hrest', hy'⟩

theorem ite {c : Prop} [Decidable c] {v w : Work α} (hv : Persists d d' v)
    (hw : Persists d d' w) : Persists d d' (if c then v else w) := by
  split_ifs
  · exact hv
  · exact hw

theorem log (level : Level) (message : String) : Persists d d' (log level message) :=
  fun _ x' _ _ hx hx' h => by
    cases h
    exact ⟨hx, _, on_log level message x', hx'⟩

theorem logAll (l : Log) : Persists d d' (logAll l) := fun _ x' _ _ hx hx' h => by
  cases h
  exact ⟨hx, _, on_logAll l x', hx'⟩

theorem ofExcept {ε : Type} (fault : ε → Fault) (r : Except ε α) :
    Persists d d' (ofExcept fault r) := by
  cases r with
  | ok a => exact .pure a
  | error e => exact .throw _

theorem normalize (m : Manifest) : Persists d d' (normalize m) := by
  intro x x' is y hx hx' h
  have hsame : (m.normalize.run x'.log).1 = (m.normalize.run x.log).1 :=
    Normalizing.blind_integrations m.models [] m.integrations x.log x'.log
  rw [on_normalize] at h
  obtain ⟨hr, rfl⟩ := Prod.mk.inj h
  refine ⟨hx, { x' with log := (m.normalize.run x'.log).2 }, ?_, hx'⟩
  rw [on_normalize, hsame, hr]

theorem readText (hp : ∀ e, d.entryAt? p = some e → d'.entryAt? p = some e) :
    Persists d d' (readText p) := by
  intro x x' text y hx hx' h
  obtain ⟨htext, rfl⟩ := on_readText_eq_ok h
  refine ⟨hx, x', on_readText_of_text? ?_, hx'⟩
  subst hx hx'
  obtain ⟨bytes, he⟩ := Disk.entryAt?_of_text? htext
  rw [Disk.text?_congr ((hp _ he).trans he.symm), htext]

/-- Work that starts with a look at what is there on both. -/
theorem there {f : Bool → Work α} (hp : d.has p = .ok true) (hp' : d'.has p = .ok true)
    (hf : Persists d d' (f true)) : Persists d d' (has p >>= f) := by
  intro x x' a y hx hx' h
  have hon {x : World} (hx : x.disk.has p = .ok true) : (has p).on x = (.ok true, x) := by
    rw [on_has, hx]
    rfl
  rw [on_bind_ok (hon (hx ▸ hp))] at h
  rw [on_bind_ok (hon (hx' ▸ hp'))]
  exact hf x x' a y hx hx' h

/-- Work that fails unless there is something at a path. -/
theorem guarded {f : Fault} {w : Work α}
    (hp : ∀ e, d.entryAt? p = some e → d'.entryAt? p = some e) (hw : Persists d d' w) :
    Persists d d' (do
      if !(← has p) then MonadExcept.throw f
      w) := by
  intro x x' a y hx hx' h
  obtain ⟨b, z, hhas, h'⟩ := on_bind_eq_ok h
  obtain ⟨hb, rfl⟩ := on_has_eq_ok hhas
  cases b with
  | false =>
    obtain ⟨_, _, hthrow, -⟩ := on_bind_eq_ok h'
    cases hthrow
  | true =>
    obtain ⟨e, he⟩ := Disk.has_eq_true_iff.1 hb
    subst hx
    exact there hb (Disk.has_of_entryAt? (hp e he)) hw _ x' a y rfl hx' h

end Persists

end Work

namespace Build
open Work

variable {run : Runner} {c : Context} {s : Settings} {script : Option String} {matching : Bool}
  {d d' : Disk} {x x' y z : World} {p : Path} {ps : List Path}

theorem blind_readIntegrations (root : Path) : Blind (readIntegrations root) := by
  have hmanifest : Blind (readManifest root) :=
    .bind (.has _) fun _ => .guard (.bind (.readText _) fun _ => .ofExcept _ _)
  exact .bind hmanifest fun m => .bind (.normalize m) fun _ => .bind (.logAll _) fun _ => .pure _

theorem blind_finish (s : Settings) (options : Option CompilerOptions) (m : Manifest)
    (is : List Integration) : Blind (finish s options m is) := by
  refine .bind ?_ fun _ => .pure _
  cases options with
  | some o => exact .pure o
  | none =>
    have hread : Blind (readOptions s.compilerOptions) := by
      unfold readOptions
      split
      · exact .pure _
      · exact .bind (.has _) fun _ => .guard (.bind (.readText _) fun _ => .ofExcept _ _)
    exact .bind hread fun _ => .ite (.bind (.log _ _) fun _ => .pure _) (.pure _)

theorem blind_chosen (s : Settings) (script : Option String) (matching : Bool) (m : Manifest)
    (c : Context) : Blind (chosen s script matching m c) := by
  have hscripts (root : Path) : Blind (scripts root) := .bind .readDisk fun _ => .pure _
  have hwanted : Blind (wanted s.root script) := by
    cases script with
    | none => exact hscripts _
    | some n => exact .bind (.has _) fun _ => .guard (.pure _)
  refine .bind hwanted fun ps => .ite (.bind (hscripts _) fun all => ?_) (.pure _)
  split
  · exact .bind (.throw _) fun _ => .pure _
  · exact .pure _

theorem blind_prepare (s : Settings) : Blind (prepare s none false) := by
  have hhost : Blind (hostTypes s) := by
    unfold hostTypes
    split
    · exact .pure _
    · exact .map (.readText _)
  have hwrite (m : Manifest) (is : List Integration) : Blind (writeTypes s m is) :=
    .bind hhost fun _ => .bind (.ofExcept _ _) fun _ => .bind (.writeText _ _) fun _ => .pure _
  refine .bind (blind_readIntegrations s.root) fun mi => .bind (.has _) fun there => ?_
  split_ifs
  · exact .bind (hwrite mi.1 mi.2) fun _ => .bind (.log _ _) fun _ =>
      blind_finish s none mi.1 mi.2
  · exact blind_finish s none mi.1 mi.2

/-! ## The file of the type definitions -/

/-- The project has no type definitions, and those that its manifest asks for cannot be encoded. -/
def HasBrokenTypes (s : Settings) (d : Disk) (e : Text.Utf8.EncodeError) : Prop :=
  d.has (s.root.child TypeDefinitions.fileName) = .ok false ∧
    ∃ m is text, HasIntegrations s d m is ∧
      TypeDefinitions.render m.models is (hostText s d) = .ok text ∧
      Text.Utf8.encoded text = .error e

theorem persists_readIntegrations {root : Path}
    (hmanifest : ∀ e, d.entryAt? (root.child manifestName) = some e →
      d'.entryAt? (root.child manifestName) = some e) :
    Persists d d' (readIntegrations root) := by
  have hread : Persists d d' (readManifest root) :=
    .guarded hmanifest (.bind (.readText hmanifest) fun _ => .ofExcept _ _)
  exact .bind hread fun m => .bind (.normalize m) fun _ => .bind (.logAll _) fun _ => .pure _

theorem OnlyTypes.level (h : OnlyTypes s d d') : d.Level (IsNewTypes s d) d' := by
  rcases h with rfl | ⟨bytes, rfl, hnew⟩
  · exact .refl _ _
  · exact (Disk.Level.refl _ d).set (by simp [hnew.2]) hnew bytes

/-- Preparing a build comes to the same when the build has been prepared. -/
theorem prepare_again (hroot : s.root.IsPlain) {r : Except Fault (Manifest × Context)}
    (h : (prepare s none false).on x = (r, y)) :
    (∃ e, HasBrokenTypes s x.disk e ∧ r = .error (.encoding e) ∧
      y.disk.find? (s.root.child TypeDefinitions.fileName).names = some (.file [])) ∨
    ∀ x', x'.disk = y.disk → ((prepare s none false).on x').1 = r ∧
      ((prepare s none false).on x').2.disk = y.disk := by
  rcases prepare_cases h with ⟨hdisk, -⟩ | ⟨hhas, m, is, z, text, hread, hrender, hw, hrest⟩
  · right
    intro x' hx'
    have hsame := blind_prepare s x x' (hx'.trans hdisk)
    rwa [h] at hsame
  have hplain := hroot.child isName_types.ne_parent
  rcases hrest with ⟨e, hbytes, hr⟩ | ⟨z', hz', hfinish⟩
  · refine .inl ⟨e, ⟨hhas, m, is, text, (readIntegrations_eq_ok hread).2, hrender, hbytes⟩, hr, ?_⟩
    rw [Disk.find?_write hplain hw, if_pos rfl]
    simp [bytesOf, hbytes]
  · right
    intro x' hx'
    have hext := (prepare_onlyTypes hroot h).extends
    have hhas' : y.disk.has (s.root.child TypeDefinitions.fileName) = .ok true :=
      Disk.has_of_entryAt? (Disk.read_eq_ok_iff.1 (Disk.read_write hplain hw))
    obtain ⟨-, z₁, hread', hz₁⟩ :=
      persists_readIntegrations (fun e => hext.entryAt?) x x' _ z rfl hx' hread
    have hthere : (has (s.root.child TypeDefinitions.fileName)).on z₁ = (.ok true, z₁) := by
      rw [on_has, hz₁, hhas']
      rfl
    have hon : (prepare s none false).on x' = (finish s none m is).on z₁ :=
      (on_bind_ok hread').trans (on_bind_ok hthere)
    have hsame := blind_finish s none m is z' z₁ (hz₁.trans hz'.symm)
    rwa [hfinish, ← hon] at hsame

theorem has_types_of_plan (hroot : s.root.IsPlain) {m : Manifest}
    (h : (plan s script matching).on x = (.ok (m, c, ps), y)) :
    y.disk.has (s.root.child TypeDefinitions.fileName) = .ok true := by
  obtain ⟨z, hprepare, hwanted⟩ := plan_eq_ok h
  obtain ⟨rfl, -, -⟩ := wanted_eq_ok hwanted
  rcases prepare_cases hprepare with ⟨hdisk, hhas⟩ | ⟨-, -, -, -, text, -, -, hw, -⟩
  · rcases hhas with ⟨f, hf⟩ | hhas
    · cases hf
    · rw [hdisk, hhas]
  · have hplain := hroot.child isName_types.ne_parent
    exact Disk.has_of_entryAt? (Disk.read_eq_ok_iff.1 (Disk.read_write hplain hw))

/-- On this file system, to plan a build comes to a result and changes nothing. -/
def PlansTo (s : Settings) (script : Option String) (matching : Bool) (d : Disk)
    (r : Except Fault (Manifest × Context × List Path)) : Prop :=
  ∀ x, x.disk = d → ((plan s script matching).on x).1 = r ∧
    ((plan s script matching).on x).2.disk = d

/-- Planning a build comes to the same when the build has been planned. -/
theorem plan_again (hroot : s.root.IsPlain) {r : Except Fault (Manifest × Context × List Path)}
    (h : (plan s script matching).on x = (r, y)) :
    (∃ e, HasBrokenTypes s x.disk e ∧ r = .error (.encoding e) ∧
      y.disk.find? (s.root.child TypeDefinitions.fileName).names = some (.file [])) ∨
    PlansTo s script matching y.disk r := by
  rcases plan_cases h with ⟨f, hprepare, rfl⟩ | ⟨m, c, z, hprepare, hchosen, hdisk⟩
  · rcases prepare_again hroot hprepare with ⟨e, hbroken, hf, hfile⟩ | hagain
    · cases hf
      exact .inl ⟨e, hbroken, rfl, hfile⟩
    · right
      intro x' hx'
      obtain ⟨hr, hd⟩ := hagain x' hx'
      rw [plan, on_bind_error (on_of_fst hr)]
      exact ⟨rfl, hd⟩
  · rcases prepare_again hroot hprepare with ⟨e, -, hf, -⟩ | hagain
    · cases hf
    · right
      intro x' hx'
      obtain ⟨hr, hd⟩ := hagain x' (hx'.trans hdisk)
      have hplan : (plan s script matching).on x' =
          (chosen s script matching m c).on ((prepare s none false).on x').2 :=
        (on_bind_ok (on_of_fst hr)).trans rfl
      have hsame := blind_chosen s script matching m c z _ hd
      rwa [hchosen, ← hplan] at hsame

namespace PlansTo

variable {m : Manifest} {f : Fault} {r : Except Fault (Manifest × Context × Bool)}

theorem compile_error (hplans : PlansTo s script matching x.disk (.error f))
    (h : (compile run s script matching).on x = (r, y)) :
    r = .error (asBuild f) ∧ y.disk = x.disk := by
  obtain ⟨hr, hd⟩ := hplans x rfl
  rcases compile_cases h with ⟨f', hplan, rfl⟩ | ⟨m, c, ps, z, hplan, -⟩ <;> rw [hplan] at hr hd <;>
    cases hr
  exact ⟨rfl, hd⟩

/-- Once all is planned, the output directory is made and the scripts are compiled. -/
theorem compile_planned (hplans : PlansTo s script matching x.disk (.ok (m, c, ps)))
    (h : (compile run s script matching).on x = (r, y)) :
    (∃ f, Edit.apply x.disk (.makeDirs s.output) = .error f ∧ y.disk = x.disk ∧
      r = .error (.file f)) ∨
    ∃ w fine, Edit.apply x.disk (.makeDirs s.output) = .ok w.disk ∧
      (compileAll run c script ps).on w = (fine, y) ∧ r = fine.map fun fine => (m, c, fine) := by
  obtain ⟨hr, hd⟩ := hplans x rfl
  rcases compile_cases h with ⟨f', hplan, -⟩ | ⟨m, c, ps, z, hplan, hrest⟩ <;>
    rw [hplan] at hr hd <;> cases hr
  rwa [hd] at hrest

/-- The output directory cannot be made. -/
theorem compile_unmade (hplans : PlansTo s script matching x.disk (.ok (m, c, ps)))
    {e : FileError} (hmade : Edit.apply x.disk (.makeDirs s.output) = .error e)
    (h : (compile run s script matching).on x = (r, y)) :
    r = .error (.file e) ∧ y.disk = x.disk := by
  rcases hplans.compile_planned h with ⟨e', he, hy, rfl⟩ | ⟨w, -, hw, -⟩
  · rw [hmade] at he
    cases he
    exact ⟨rfl, hy⟩
  · rw [hmade] at hw
    cases hw

theorem compile_made (hplans : PlansTo s script matching x.disk (.ok (m, c, ps)))
    (hmade : Edit.apply x.disk (.makeDirs s.output) = .ok d)
    (h : (compile run s script matching).on x = (r, y)) :
    ∃ w fine, w.disk = d ∧ (compileAll run c script ps).on w = (fine, y) ∧
      r = fine.map fun fine => (m, c, fine) := by
  rcases hplans.compile_planned h with ⟨e, he, -⟩ | ⟨w, fine, hw, hall, rfl⟩
  · rw [hmade] at he
    cases he
  · exact ⟨w, fine, Except.ok.inj (hw.symm.trans hmade), hall, rfl⟩

end PlansTo

/-! ## Scripts that have been compiled -/

/-- The files that the scripts are compiled to. -/
def IsArtifact (s : Settings) (ps : List Path) (ns : List String) : Prop :=
  ∃ p ∈ ps, ns = artifactNames s p

theorem IsArtifact.isCompiled {ns : List String} (h : IsArtifact s ps ns) : IsCompiled ns := by
  obtain ⟨p, -, rfl⟩ := h
  exact ⟨_, _, rfl⟩

/-- Files in the output directory change no listing. -/
theorem listed_stored (hroot : s.root.IsPlain) (hs : s.output = s.root.child "dist")
    (hdir : d.entryAt? s.root = some .dir) {ws : List (List String × List UInt8)}
    (hws : ∀ w ∈ ws, d.find? w.1 ≠ some .dir ∧ IsArtifact s ps w.1) :
    listed (d.stored ws) s.root = listed d s.root := by
  induction ws using List.reverseRecOn with
  | nil => rfl
  | append_singleton ws w ih =>
    have hws' : ∀ v ∈ ws, d.find? v.1 ≠ some .dir ∧ IsArtifact s ps v.1 :=
      fun v hv => hws v (by simp [hv])
    have hlevel := (Disk.Level.refl (IsArtifact s ps) d).stored hws'
    obtain ⟨hw, hwp⟩ := hws w (by simp)
    have hset : d.stored (ws ++ [w]) = (d.stored ws).set w.1 (.file w.2) :=
      Disk.stored_append d ws [w]
    rw [hset, listed_set hroot ((hlevel.entryAt?_dir_iff _).2 hdir)
      (((hlevel.set hw hwp w.2).entryAt?_dir_iff _).2 hdir), ih hws']
    intro n hn
    obtain ⟨p, -, hnames⟩ := hwp
    have hlen := congrArg List.length (hn.symm.trans hnames)
    simp [artifactNames, hs, Path.child] at hlen

/-- Making the output directory changes no listing. -/
theorem listed_makeDirs (hroot : s.root.IsPlain) (hs : s.output = s.root.child "dist")
    (hdir : d.entryAt? s.root = some .dir)
    (hmade : Edit.apply d (.makeDirs s.output) = .ok d') :
    listed d' s.root = listed d s.root := by
  have hmade' : d.makeDirs s.output (s.output.names.length + 1) = .ok d' := hmade
  have hext := (Disk.makeDirs_extends hmade').1
  rw [hs] at hmade'
  rcases Disk.makeDirs_child hdir hmade' with rfl | ⟨ns, hl, -, rfl⟩
  · rfl
  · refine listed_set hroot hdir (hext.entryAt? hdir) fun n hn => ?_
    obtain ⟨rfl, -⟩ := (Disk.locate_eq_ok_iff (hroot.child (by decide)) ns).1 hl
    have hname : "dist" = n := by simpa [Path.child] using hn
    rw [← hname]
    decide

/-- What the options are read from is as it was, so that the compiler is given the same options. -/
def SameOptions (s : Settings) (d d' : Disk) : Prop :=
  ∀ p, s.compilerOptions = some p → ∀ e, d.entryAt? p = some e → d'.entryAt? p = some e

/-- The options may even be read from the type definitions that the build has written. -/
theorem OnlyTypes.sameOptions {b : Disk} (h : OnlyTypes s d d')
    (hlater : d'.Later (IsArtifact s ps) b) (hoptions : SameOptions s d b) :
    SameOptions s d' b := by
  intro p hp e he
  rcases hd : d.entryAt? p with _ | e'
  · obtain ⟨ns, hl, hf⟩ := Disk.entryAt?_eq_some_iff.1 he
    have hl' := (h.level.locate_eq_ok_iff p ns).1 hl
    have hne : d'.find? ns ≠ d.find? ns := by
      intro heq
      rw [Disk.entryAt?_eq_some_iff.2 ⟨ns, hl', heq.symm.trans hf⟩] at hd
      cases hd
    refine hlater.entryAt? (fun hart => ?_) he
    rw [← Disk.locate_eq hl, (h.frame hne).1] at hart
    exact not_isCompiled_types s.root hart.isCompiled
  · have he' := h.extends.entryAt? hd
    rw [he] at he'
    cases he'
    exact hoptions p hp e hd

theorem entryAt?_of_later (hlater : d.Later (IsArtifact s ps) d')
    (hp : ¬IsCompiled (d.resolve p).names) {e : Entry} (he : d.entryAt? p = some e) :
    d'.entryAt? p = some e :=
  hlater.entryAt? (mt IsArtifact.isCompiled hp) he

theorem entryAt?_child_of_later (hroot : s.root.IsPlain) (hlater : d.Later (IsArtifact s ps) d')
    {n : String} (hn : n ≠ "..") (hjs : ∀ k, n ≠ k ++ ".js") {e : Entry}
    (he : d.entryAt? (s.root.child n) = some e) : d'.entryAt? (s.root.child n) = some e := by
  refine entryAt?_of_later hlater ?_ he
  rw [d.resolve_of_isPlain (hroot.child hn)]
  exact not_isCompiled_append hjs s.root.names

theorem persists_finish (hoptions : SameOptions s d d') (m : Manifest) (is : List Integration) :
    Persists d d' (finish s none m is) := by
  have hread : Persists d d' (readOptions s.compilerOptions) := by
    unfold readOptions
    split
    · exact .pure _
    · next p hp =>
      exact .guarded (hoptions p hp) (.bind (.readText (hoptions p hp)) fun _ => .ofExcept _ _)
  exact .bind (.bind hread fun _ => .ite (.bind (.log _ _) fun _ => .pure _) (.pure _))
    fun _ => .pure _

theorem persists_prepare (hroot : s.root.IsPlain) (hlater : d.Later (IsArtifact s ps) d')
    (hoptions : SameOptions s d d')
    (htypes : d.has (s.root.child TypeDefinitions.fileName) = .ok true) :
    Persists d d' (prepare s none false) := by
  have hread : Persists d d' (readIntegrations s.root) := by
    refine persists_readIntegrations fun e =>
      entryAt?_child_of_later hroot hlater (by decide) fun k => ?_
    show "nango.y" ++ "aml" ≠ k ++ ".js"
    exact Path.append_ne_append "nango.y" k (by decide) (by decide)
  have htypes' : d'.has (s.root.child TypeDefinitions.fileName) = .ok true := by
    obtain ⟨e, he⟩ := Disk.has_eq_true_iff.1 htypes
    refine Disk.has_of_entryAt? (entryAt?_child_of_later hroot hlater (by decide) (fun k => ?_) he)
    show "models" ++ ".ts" ≠ k ++ ".js"
    exact Path.append_ne_append "models" k (by decide) (by decide)
  exact .bind hread fun mi => .there htypes htypes' (persists_finish hoptions mi.1 mi.2)

theorem persists_scripts {root : Path} (hlisted : listed d' root = listed d root) :
    Persists d d' (scripts root) := by
  intro x x' all y hx hx' h
  cases h
  refine ⟨hx, x', ?_, hx'⟩
  rw [← hx', ← hx] at hlisted
  rw [← hlisted]
  rfl

theorem persists_wanted (hlater : d.Later (IsArtifact s ps) d')
    (hlisted : listed d' s.root = listed d s.root) (script : Option String) :
    Persists d d' (wanted s.root script) := by
  cases script with
  | none => exact persists_scripts hlisted
  | some flow =>
    refine .guarded (fun e => entryAt?_of_later hlater ?_) (.pure _)
    obtain ⟨l, n, hnames, -⟩ := isSource_scriptOf s.root flow
    obtain ⟨m, hm⟩ := d.resolve_append hnames (Path.append_ne n (by decide))
    show ¬IsCompiled (d.resolve (scriptOf s.root flow)).names
    rw [hm]
    exact not_isCompiled_append (fun k => Path.append_ne_append n k (by decide) (by decide)) m

theorem persists_plan (hroot : s.root.IsPlain) (hlater : d.Later (IsArtifact s ps) d')
    (hoptions : SameOptions s d d')
    (htypes : d.has (s.root.child TypeDefinitions.fileName) = .ok true)
    (hlisted : listed d' s.root = listed d s.root) (script : Option String) (matching : Bool) :
    Persists d d' (plan s script matching) := by
  refine .bind (persists_prepare hroot hlater hoptions htypes) fun mc =>
    .bind (persists_wanted hlater hlisted script) fun _ =>
      .ite (.bind (persists_scripts hlisted) fun all => ?_) (.pure _)
  split
  · exact .bind (.throw _) fun _ => .pure _
  · exact .pure _

/-- Once the scripts have been compiled, planning comes to what it came to before. -/
theorem PlansTo.later (hroot : s.root.IsPlain) {v : Manifest × Context × List Path}
    (h : PlansTo s script matching d (.ok v)) (hlater : d.Later (IsArtifact s ps) d')
    (hoptions : SameOptions s d d')
    (htypes : d.has (s.root.child TypeDefinitions.fileName) = .ok true)
    (hlisted : listed d' s.root = listed d s.root) : PlansTo s script matching d' (.ok v) := by
  intro x' hx'
  rcases hon : (plan s script matching).on { disk := d, log := [] } with ⟨r, y⟩
  obtain ⟨hr, -⟩ := h { disk := d, log := [] } rfl
  rw [hon] at hr
  subst hr
  obtain ⟨-, y', hon', hy'⟩ :=
    persists_plan hroot hlater hoptions htypes hlisted script matching _ x' v y rfl hx' hon
  rw [hon']
  exact ⟨rfl, hy'⟩

/-- The scripts come to the same, and write the same files, once they have been compiled. -/
theorem compileAll_again {aims : List String → Prop} (hout : d.entryAt? c.output = some .dir)
    (hps : ∀ p ∈ ps, IsSource p) (haims : ∀ ns, aims ns → IsCompiled ns)
    (hlevel : d.Level aims x.disk) {r : Except Fault Bool}
    (h : (compileAll run c script ps).on x = (r, y)) :
    r = batch run c d script ps ∧ y.disk = x.disk.stored (writes run c d ps) := by
  refine compileAll_spec hout (fun p hp => (hps p hp).noSlash) ?_ hlevel
    (fun p hp ns hl hns => (hps p hp).not_isCompiled hl (haims ns hns)) h
  refine (List.pairwise_iff_forall_sublist.2 fun {p q} hpq => ?_)
  have hq : q ∈ ps := hpq.subset (by simp)
  exact fun w hw hl => (hps q hq).not_isCompiled hl (isCompiled_of_written? hw)

theorem isArtifact_of_mem_writes (hroot : s.root.IsPlain) (hs : s.output = s.root.child "dist")
    (hoc : c.output = s.output) (hps : ∀ p ∈ ps, IsSource p) {v : List String × List UInt8}
    (hv : v ∈ writes run c d ps) : d.find? v.1 ≠ some .dir ∧ IsArtifact s ps v.1 := by
  obtain ⟨p, hp, hw⟩ := mem_writes hv
  obtain ⟨-, -, -, htarget, -⟩ := written?_eq_some_iff.1 hw
  exact ⟨(Disk.target?_eq_some_iff.1 htarget).2, p, hp,
    artifactNames_of_written? hroot hs hoc (hps p hp) hw⟩

/-- A build that is run again with the same options comes to the same and leaves the same file system
behind, unless the first one has left an empty file of type definitions behind. -/
theorem compile_again {wishes : Wishes} (tree : x.disk.IsTree)
    (resolved : Settings.resolve x.disk wishes = .ok s)
    {r r' : Except Fault (Manifest × Context × Bool)}
    (h : (compile run s script matching).on x = (r, y))
    (hoptions : SameOptions s x.disk y.disk)
    (h' : (compile run s script matching).on y = (r', z)) :
    (r' = r ∧ y.disk.Alike z.disk) ∨
    ∃ e, HasBrokenTypes s x.disk e ∧ r = .error (.encoding e) ∧
      y.disk.find? (s.root.child TypeDefinitions.fileName).names = some (.file []) := by
  have hroot := isPlain_root tree.isConnected resolved
  obtain ⟨-, hdir, hs⟩ := Settings.resolve_eq_ok resolved
  rcases compile_cases h with ⟨f, hplan, rfl⟩ | ⟨m, c, ps, a, hplan, hrest⟩
  · rcases plan_again hroot hplan with ⟨e, hbroken, hf, hfile⟩ | hplans
    · cases hf
      exact .inr ⟨e, hbroken, rfl, hfile⟩
    · left
      obtain ⟨hr, hz⟩ := hplans.compile_error h'
      rw [hr, hz]
      exact ⟨rfl, .refl _⟩
  rcases plan_again hroot hplan with ⟨e, -, hf, -⟩ | hplans
  · cases hf
  left
  rcases hrest with ⟨e, hmade, hy, rfl⟩ | ⟨w, fine, hmade, hall, rfl⟩
  · rw [← hy] at hplans hmade
    obtain ⟨hr, hz⟩ := hplans.compile_unmade hmade h'
    rw [hr, hz]
    exact ⟨rfl, .refl _⟩
  -- What the first build reads is as it was, though directories and scripts have been written.
  have htypes := plan_onlyTypes hroot hplan
  have hdira := htypes.extends.entryAt? hdir
  obtain ⟨hoc, -, hsource⟩ := plan_selected tree resolved hplan
  obtain ⟨hext, hout⟩ := Disk.makeDirs_extends (show a.disk.makeDirs s.output _ = .ok w.disk from
    hmade)
  obtain ⟨hfine, hy⟩ := compileAll_again (hoc ▸ hout) hsource (fun _ => IsArtifact.isCompiled)
    (.refl (IsArtifact s ps) w.disk) hall
  have hws : ∀ v ∈ writes run c w.disk ps, w.disk.find? v.1 ≠ some .dir ∧ IsArtifact s ps v.1 :=
    fun v hv => isArtifact_of_mem_writes hroot hs hoc hsource hv
  have hlevel : w.disk.Level (IsArtifact s ps) y.disk := by
    rw [hy]
    exact (Disk.Level.refl _ _).stored hws
  have hlisted : listed y.disk s.root = listed a.disk s.root := by
    rw [hy, listed_stored hroot hs (hext.entryAt? hdira) hws, listed_makeDirs hroot hs hdira hmade]
  have hlater : a.disk.Later (IsArtifact s ps) y.disk := ⟨w.disk, hext, hlevel⟩
  have hplans' := hplans.later hroot hlater (htypes.sameOptions hlater hoptions)
    (has_types_of_plan hroot hplan) hlisted
  have hmade' : Edit.apply y.disk (.makeDirs s.output) = .ok y.disk :=
    Disk.makeDirs_of_entryAt? ((hlevel.entryAt?_dir_iff _).2 hout) _
  obtain ⟨w', fine', hw', hall', rfl⟩ := hplans'.compile_made hmade' h'
  obtain ⟨hfine', hz⟩ := compileAll_again (hoc ▸ hout) hsource (fun _ => IsArtifact.isCompiled)
    (hw' ▸ hlevel) hall'
  refine ⟨by rw [hfine', hfine], ?_⟩
  rw [hz, hw', hy]
  exact Disk.stored_stored (fun v hv => Disk.ne_nil_of_not_dir (hws v hv).1) w.disk

theorem compile_again_passing : ∃ r y m c z,
    (compile Sample.echo Sample.settings (some "a") false).on (Sample.fresh "" none) = (r, y) ∧
    r = .ok (m, c, true) ∧
    (compile Sample.echo Sample.settings (some "a") false).on y = (.ok (m, c, true), z) ∧
    y.disk.Alike z.disk := by
  have hfine : ((compile Sample.echo Sample.settings (some "a") false).on
      (Sample.fresh "" none)).1.toOption.map (fun r => r.2.2) = some true := by decide +kernel
  obtain ⟨⟨m, c, _⟩, y, hon, rfl⟩ := on_eq_ok_of_map hfine
  rcases hon' : (compile Sample.echo Sample.settings (some "a") false).on y with ⟨r', z⟩
  have hoptions : SameOptions Sample.settings (Sample.fresh "" none).disk y.disk := by
    intro p hp
    cases hp
  rcases compile_again (Sample.isTree "" none) (Sample.resolve_eq "" none) hon hoptions hon' with
    ⟨rfl, halike⟩ | ⟨e, -, hr, -⟩
  · exact ⟨_, y, m, c, z, hon, rfl, hon', halike⟩
  · cases hr

/-- A project without type definitions, whose model has a field of half of a pair. -/
def halved : World where
  disk := {
    entries := [
      (["p"], .dir), (["p", "a.ts"], .file []),
      (["p", "nango.yaml"],
        .file (bytesOf "integrations: {}\nmodels:\n  M:\n    a: \"\\ud800\"\n"))]
    here := ["p"] }
  log := []

/-- The build fails, and succeeds when it is run again. -/
theorem not_again : halved.disk.IsTree ∧
    Settings.resolve halved.disk Sample.wishes = .ok Sample.settings ∧
    ∃ e y m c z, (compile Sample.echo Sample.settings (some "a") false).on halved =
        (.error (.encoding e), y) ∧
      (compile Sample.echo Sample.settings (some "a") false).on y = (.ok (m, c, true), z) := by
  refine ⟨Disk.isTree_of_entries (by decide) (by decide), rfl, ?_⟩
  have hfirst : (match ((compile Sample.echo Sample.settings (some "a") false).on halved).1 with
      | .error (.encoding _) => true
      | _ => false) = true := by decide +kernel
  have hsecond : ((compile Sample.echo Sample.settings (some "a") false).on
      ((compile Sample.echo Sample.settings (some "a") false).on halved).2).1.toOption.map
        (fun r => r.2.2) = some true := by decide +kernel
  rcases hon : (compile Sample.echo Sample.settings (some "a") false).on halved with ⟨r, y⟩
  rw [hon] at hfirst hsecond
  simp only at hfirst hsecond
  split at hfirst
  · next e =>
    obtain ⟨⟨m, c, _⟩, z, hon', rfl⟩ := on_eq_ok_of_map hsecond
    exact ⟨e, y, m, c, z, rfl, hon'⟩
  · cases hfirst

end Build
end FlowPipeline
