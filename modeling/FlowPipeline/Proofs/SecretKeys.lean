import FlowPipeline.CommandLine
import FlowPipeline.Proofs.PackagedBodies

/-! # Secret keys

A secret key is carried along with the settings of a project, and stands in the headers of the
request that is made in the end. No file and nothing that is printed or logged tells which key it
is. Only a key that cannot be the name of a user is noticed, as the request cannot be made with it.
-/

namespace FlowPipeline

/-! ## What settings tell of the environment -/

/-- The variables that hold secret keys. -/
def Host.keyNames : List String :=
  ["NANGO_SECRET_KEY", "NANGO_SECRET_KEY_PROD", "NANGO_SECRET_KEY_DEV"]

/-- The key cannot be the name of a user, as which the host takes it. -/
def Host.Refuses (address : String) (key : Option String) (e : Text.Utf8.EncodeError) : Prop :=
  isCloud address = false ∧ Text.Utf8.encoded (key.getD "" ++ ":") = .error e

/-- Two environments that differ in nothing but secret keys. -/
def Environment.SamePublic (env env' : Environment) : Prop :=
  ∀ name, name ∉ Host.keyNames → env'.lookup name = env.lookup name

variable {env env' : Environment} {d : Disk}

theorem Environment.SamePublic.address (h : env.SamePublic env') (tag : String) :
    Host.address tag env' = Host.address tag env := by
  unfold Host.address Host.setting?
  rw [h "NANGO_HOSTPORT" (by decide)]

/-- The same wishes in another environment. -/
def Wishes.inside (w : Wishes) (env : Environment) : Wishes := { w with environment := env }

section

variable (w : Wishes) (env : Environment)

@[simp] theorem Wishes.inside_tag : (w.inside env).tag = w.tag := rfl

@[simp] theorem Wishes.inside_environment : (w.inside env).environment = env := rfl

@[simp] theorem Wishes.inside_root : (w.inside env).root = w.root := rfl

@[simp] theorem Wishes.inside_compilerOptions :
    (w.inside env).compilerOptions = w.compilerOptions := rfl

@[simp] theorem Wishes.inside_hostTypes : (w.inside env).hostTypes = w.hostTypes := rfl

@[simp] theorem Wishes.inside_debug : (w.inside env).debug = w.debug := rfl

end

namespace Settings

/-- The host and the key are those of the environment. -/
theorem host_of_resolve {w : Wishes} {s : Settings} (h : resolve d w = .ok s) :
    s.address = Host.address (Text.trim w.tag) w.environment ∧
      s.secretKey = Host.secretKey? (Text.trim w.tag) w.environment := by
  obtain ⟨-, -, _, _, -, -, rfl⟩ := resolve_parts h
  exact ⟨rfl, rfl⟩

/-- The settings for another host, with another key. -/
def withHost (s : Settings) (address : String) (key : Option String) : Settings :=
  { s with address, secretKey := key }

/-- Of the environment, the settings depend on the host, on the key and on where the declarations of
the host are. -/
theorem resolve_withHost (w : Wishes) (env : Environment)
    (h : env.lookup "NANGO_HOST_TYPES_PATH" = w.environment.lookup "NANGO_HOST_TYPES_PATH") :
    resolve d (w.inside env) = (resolve d w).map
      (·.withHost (Host.address (Text.trim w.tag) env) (Host.secretKey? (Text.trim w.tag) env)) := by
  have hhost : hostTypesOf d (d.resolve w.root) (w.inside env) =
      hostTypesOf d (d.resolve w.root) w := by
    unfold hostTypesOf
    simp only [Wishes.inside_hostTypes, Wishes.inside_environment, h]
  unfold resolve
  simp only [Wishes.inside_root, Wishes.inside_tag, Wishes.inside_environment,
    Wishes.inside_compilerOptions, Wishes.inside_debug, hhost]
  rcases (d.isDir (d.resolve w.root)).mapError SettingsError.file with e | there
  · rfl
  cases there with
  | false => rfl
  | true =>
    simp only [bind, Except.bind, Bool.not_true, Bool.false_eq_true, if_false]
    split_ifs
    · rfl
    · rcases compilerOptionsOf d (d.resolve w.root) w.compilerOptions with e | options
      · rfl
      rcases hostTypesOf d (d.resolve w.root) w with e | types
      · rfl
      · rfl

end Settings

/-! ## What is done without the host -/

section

variable (run : Runner) (s : Settings) (address : String) (key : Option String)

theorem Build.compile_withHost (script : Option String) (matching : Bool) :
    Build.compile run (s.withHost address key) script matching =
      Build.compile run s script matching := rfl

theorem Build.generateTypes_withHost :
    Build.generateTypes (s.withHost address key) = Build.generateTypes s := rfl

theorem CommandLine.lint_withHost (p : Path) :
    CommandLine.lint (s.withHost address key) p = CommandLine.lint s p := rfl

end

namespace Work

/-- Work is what it comes to in all worlds. -/
theorem ext_on {α : Type} {v w : Work α} (h : ∀ x, v.on x = w.on x) : v = w :=
  ExceptT.ext (StateT.ext h)

theorem outcome_map {α β : Type} (f : α → β) (w : Work α) :
    outcome (f <$> w) = Except.map f <$> outcome w := by
  refine ext_on fun x => ?_
  rw [on_outcome, on_map, on_map, on_outcome]
  rfl

theorem mapFault_map {α β : Type} (g : Fault → Fault) (f : α → β) (w : Work α) :
    mapFault g (f <$> w) = f <$> mapFault g w := by
  refine ext_on fun x => ?_
  rw [on_mapFault, on_map, on_map, on_mapFault]
  rcases w.on x with ⟨e | a, y⟩ <;> rfl

end Work

namespace Watch
open Work

/-- The handler with the settings for another host. -/
def Handler.withHost (h : Handler) (address : String) (key : Option String) : Handler :=
  { h with settings := h.settings.withHost address key }

section

variable (s : Settings) (address : String) (key : Option String)

theorem opened_withHost :
    opened (s.withHost address key) = (·.withHost address key) <$> opened s := by
  have hhandler (options : CompilerOptions) : handler (s.withHost address key) (some options) =
      (·.withHost address key) <$> handler s (some options) := by
    unfold handler
    rw [map_bind]
    rfl
  unfold opened
  rw [map_bind]
  exact congrArg (Build.projectOptions s >>= ·) (funext hhandler)

/-- The host and the key are kept with the settings while a project is watched, and nothing is done
with them. -/
theorem start_withHost (run : Runner) :
    start run (s.withHost address key) = (·.withHost address key) <$> start run s := by
  unfold start
  rw [opened_withHost, mapFault_map, bind_map_left, map_bind]
  refine congrArg (mapFault Build.asBuild (opened s) >>= ·) (funext fun h => ?_)
  simp only [map_bind, map_pure]
  rfl

end

variable (run : Runner) (h : Handler) (address : String) (key : Option String)

namespace Handler

theorem reload_withHost :
    (h.withHost address key).reload = (·.withHost address key) <$> h.reload := by
  unfold reload
  rw [map_bind]
  refine congrArg (outcome (Build.prepare h.settings h.options true) >>= ·) (funext fun r => ?_)
  rcases r with f | mc
  · simp only
    split_ifs <;> simp only [map_bind, map_pure]
  · simp only [map_bind, map_pure]
    rfl

theorem renewed_withHost (e : Event) :
    (h.withHost address key).renewed e = (·.withHost address key) <$> h.renewed e := by
  unfold renewed
  split_ifs
  · exact h.reload_withHost address key
  · rfl

theorem handle_withHost (e : Event) : (h.withHost address key).handle run e =
    Prod.map (·.withHost address key) id <$> h.handle run e := by
  unfold handle
  rw [renewed_withHost, outcome_map, bind_map_left, map_bind]
  refine congrArg (outcome (h.renewed e) >>= ·) (funext fun r => ?_)
  rcases r with f | h'
  · rfl
  · simp only [Except.map, map_bind]
    refine congrArg (outcome (h'.respond run e) >>= ·) (funext fun r => ?_)
    cases r <;> rfl

theorem handleAll_withHost (es : List Event) : (h.withHost address key).handleAll run es =
    Prod.map (·.withHost address key) id <$> h.handleAll run es := by
  induction es generalizing h with
  | nil => rfl
  | cons e es ih =>
    unfold handleAll
    rw [handle_withHost, bind_map_left, map_bind]
    refine congrArg (h.handle run e >>= ·) (funext fun r => ?_)
    rcases r with ⟨h', _ | f⟩
    · exact ih h'
    · rfl

theorem handleChanges_withHost (changes : List (Change × Path)) :
    (h.withHost address key).handleChanges run changes =
      Prod.map (·.withHost address key) id <$> h.handleChanges run changes := by
  unfold handleChanges
  simp only [map_bind, handleAll_withHost]

end Handler

/-- What is reported together while a project is watched, once others have changed its files. -/
structure Batch where
  edit : Disk → Disk
  changes : List (Change × Path)

/-- The changes that concern a project. -/
def Batch.accepted (b : Batch) (root : Path) (d : Disk) : List (Change × Path) :=
  b.changes.filter fun c => accepts d root c.2

/-- Handles batches one after another, up to the first that fails. -/
def attend (run : Runner) (h : Handler) : List Batch → Work Unit
  | [] => return
  | b :: bs => do
    modify fun w => { w with disk := b.edit w.disk }
    match ← h.handleChanges run (b.accepted h.settings.root (← disk)) with
    | (h, none) => attend run h bs
    | (_, some f) => throw f

theorem attend_withHost (bs : List Batch) :
    attend run (h.withHost address key) bs = attend run h bs := by
  induction bs generalizing h with
  | nil => rfl
  | cons b bs ih =>
    unfold attend
    refine congrArg (_ >>= ·) (funext fun _ => congrArg (disk >>= ·) (funext fun d => ?_))
    rw [Handler.handleChanges_withHost, bind_map_left]
    refine congrArg (_ >>= ·) (funext fun r => ?_)
    rcases r with ⟨h', _ | f⟩
    · exact ih h'
    · rfl

end Watch

/-! ## What is done with the host -/

namespace Deployment
open Work

variable {run : Runner} {version : String} {wanted : Selection} {now : Moment}

/-- The deployment to another host, with another key in its headers. -/
def withHost (dep : Deployment) (address : String) (key : Option String) : Deployment :=
  { dep with address, secretKey := key }

theorem sendable_eq_error_iff {dep : Deployment} {e : Text.Utf8.EncodeError} :
    dep.sendable = .error e ↔ Host.Refuses dep.address dep.secretKey e := by
  refine ⟨sendable_eq_error, fun ⟨hcloud, hbytes⟩ => ?_⟩
  unfold sendable
  rw [hcloud, hbytes]
  rfl

/-- For another host, a deployment fails in the same way, or is the same but for the host and the
key. Which they are only matters to whether the deployment can be sent. -/
theorem ofProject_withHost (s : Settings) (address : String) (key : Option String) (x : World) :
    (∃ f y, (ofProject run s version wanted now).on x = (.error f, y) ∧
      (ofProject run (s.withHost address key) version wanted now).on x = (.error f, y)) ∨
    ∃ (dep : Deployment) (fine : Bool) (y : World),
      dep.address = s.address ∧ dep.secretKey = s.secretKey ∧
      (ofProject run s version wanted now).on x =
        ((dep.sendable.mapError .encoding).map (·, fine), y) ∧
      (ofProject run (s.withHost address key) version wanted now).on x =
        (((dep.withHost address key).sendable.mapError .encoding).map (·, fine), y) := by
  rcases hcompile : (Build.compile run s none false).on x with ⟨r, y⟩
  have hcompile' : (Build.compile run (s.withHost address key) none false).on x = (r, y) := by
    rw [Build.compile_withHost, hcompile]
  rcases r with f | ⟨m, c, fine⟩
  · exact .inl ⟨f, y, on_bind_error hcompile, on_bind_error hcompile'⟩
  -- The packages are made in a world that is the same for all hosts.
  have hend (s' : Settings) (z : World) (r : Except Fault Deployment) (w : World)
      (h : (ofCompiled s' version wanted now m c.integrations).on z = (r, w)) :
      (do return (← ofCompiled s' version wanted now m c.integrations, fine) :
        Work (Deployment × Bool)).on z = (r.map (·, fine), w) := by
    rw [on_bind_pure, h]
  obtain ⟨z, hgo⟩ : ∃ z, ∀ s' : Settings,
      (Build.compile run s' none false).on x = (.ok (m, c, fine), y) →
      ∀ r w, (ofCompiled s' version wanted now m c.integrations).on z = (r, w) →
        (ofProject run s' version wanted now).on x = (r.map (·, fine), w) := by
    cases fine with
    | true => exact ⟨y, fun s' hs r w h => (on_bind_ok hs).trans (hend s' y r w h)⟩
    | false =>
      exact ⟨_, fun s' hs r w h =>
        (on_bind_ok hs).trans ((on_bind_ok (on_log _ _ y)).trans (hend s' _ r w h))⟩
  have hown := hgo s hcompile
  have hother := hgo (s.withHost address key) hcompile'
  rcases hall : (Package.all s.root s.output version wanted now c.integrations).on z with
    ⟨f | _ | ps, w⟩
  · exact .inl ⟨f, w, hown _ _ (on_bind_error hall), hother _ _ (on_bind_error hall)⟩
  · exact .inl ⟨_, w, hown _ _ ((on_bind_ok hall).trans rfl),
      hother _ _ ((on_bind_ok hall).trans rfl)⟩
  · exact .inr ⟨ofPackages s (some m.text) wanted.isPartial ps, fine, w, rfl, rfl,
      hown _ _ ((on_bind_ok hall).trans (on_ofExcept _ _ _)),
      hother _ _ ((on_bind_ok hall).trans (on_ofExcept _ _ _))⟩

end Deployment

namespace CommandLine
open Work

variable {run : Runner} {now : Moment} {args : List String} {i : Invocation} {x : World}

/-- The deployment of a project, delivered. -/
def deploy (run : Runner) (now : Moment) (version : String) (wanted : Selection)
    (output : Option String) (s : Settings) : Work Ending := do
  let (dep, _) ← Deployment.ofProject run s version wanted now
  deliver dep output

theorem perform_eq_deploy {version : String} {wanted : Selection} {output : Option String}
    (h : i.task = .package version wanted output) :
    i.perform run env now = i.settings env >>= deploy run now version wanted output := by
  unfold Invocation.perform
  rw [h]
  rfl

theorem on_deploy {version : String} {wanted : Selection} {s : Settings} {dep : Deployment}
    {fine : Bool} {w : World}
    (h : (Deployment.ofProject run s version wanted now).on x = (.ok (dep, fine), w))
    (output : Option String) :
    (deploy run now version wanted output s).on x = (deliver dep output).on w := by
  unfold deploy
  rw [on_bind_ok h]

theorem on_deploy_error {version : String} {wanted : Selection} {s : Settings} {f : Fault}
    {w : World} (h : (Deployment.ofProject run s version wanted now).on x = (.error f, w))
    (output : Option String) :
    (deploy run now version wanted output s).on x = (.error f, w) := on_bind_error h

/-- The key is not in what is delivered. -/
theorem deliver_withHost (dep : Deployment) (key output : Option String) :
    deliver (dep.withHost dep.address key) output = deliver dep output := rfl

theorem deploy_withHost (run : Runner) (now : Moment) (version : String) (wanted : Selection)
    (output : Option String) (s : Settings) (key : Option String) (x : World) :
    (deploy run now version wanted output (s.withHost s.address key)).on x =
      (deploy run now version wanted output s).on x ∨
    ∃ e, (Host.Refuses s.address s.secretKey e ∧
        ((deploy run now version wanted output s).on x).1 = .error (.encoding e)) ∨
      (Host.Refuses s.address key e ∧
        ((deploy run now version wanted output (s.withHost s.address key)).on x).1 =
          .error (.encoding e)) := by
  rcases Deployment.ofProject_withHost s s.address key x with
    ⟨f, w, hon, hon'⟩ | ⟨dep, fine, w, haddress, hkey, hon, hon'⟩
  · exact .inl ((on_deploy_error hon' output).trans (on_deploy_error hon output).symm)
  rw [← haddress] at hon'
  rcases hsend : dep.sendable with e | sent
  · right
    have hrefuses := Deployment.sendable_eq_error_iff.1 hsend
    rw [haddress, hkey] at hrefuses
    rw [hsend] at hon
    exact ⟨e, .inl ⟨hrefuses, congrArg Prod.fst (on_deploy_error hon output)⟩⟩
  rcases hsend' : (dep.withHost dep.address key).sendable with e | sent'
  · right
    have hrefuses : Host.Refuses dep.address key e := Deployment.sendable_eq_error_iff.1 hsend'
    rw [haddress] at hrefuses
    rw [hsend', haddress] at hon'
    exact ⟨e, .inr ⟨hrefuses, congrArg Prod.fst (on_deploy_error hon' output)⟩⟩
  · left
    obtain rfl := Deployment.sendable_eq_ok hsend
    obtain rfl := Deployment.sendable_eq_ok hsend'
    rw [hsend] at hon
    rw [hsend', haddress] at hon'
    rw [on_deploy hon output, on_deploy hon' output, ← haddress, deliver_withHost]

/-- What an invocation asks of the settings. -/
def wishesOf (i : Invocation) (env : Environment) : Wishes :=
  ⟨i.tag, env, Path.ofString i.project, i.compilerOptions.map Path.ofString, none, i.debug⟩

theorem on_settings (i : Invocation) (env : Environment) (x : World) : (i.settings env).on x =
    ((Settings.resolve x.disk (wishesOf i env)).mapError .settings, x) :=
  (on_bind_ok (on_disk x)).trans (on_ofExcept _ _ _)

/-- What is done with the settings of an invocation is done with those of either environment. -/
theorem on_settings_samePublic (h : env.SamePublic env') (i : Invocation)
    (f : Settings → Work Ending) (x : World) :
    (i.settings env' >>= f).on x = (i.settings env >>= f).on x ∨
    ∃ s : Settings,
      s.address = Host.address (Text.trim i.tag) env ∧
      s.secretKey = Host.secretKey? (Text.trim i.tag) env ∧
      (i.settings env >>= f).on x = (f s).on x ∧
      (i.settings env' >>= f).on x =
        (f (s.withHost s.address (Host.secretKey? (Text.trim i.tag) env'))).on x := by
  have hown := on_settings i env x
  have hother := on_settings i env' x
  have hresolve := Settings.resolve_withHost (d := x.disk) (wishesOf i env) env'
    (h "NANGO_HOST_TYPES_PATH" (by decide))
  rw [show wishesOf i env' = (wishesOf i env).inside env' from rfl, hresolve] at hother
  rcases hs : Settings.resolve x.disk (wishesOf i env) with e | s <;> rw [hs] at hown hother
  · exact .inl ((on_bind_error hother).trans (on_bind_error hown).symm)
  · obtain ⟨haddress, hkey⟩ := Settings.host_of_resolve hs
    refine .inr ⟨s, haddress, hkey, on_bind_ok hown, ?_⟩
    have haddress' : s.address = Host.address (Text.trim i.tag) env' :=
      haddress.trans (h.address _).symm
    rw [haddress']
    exact on_bind_ok hother

/-- The program is to package, and the key that it finds cannot be the name of a user of the
host. -/
def KeyFails (env : Environment) (i : Invocation) (e : Text.Utf8.EncodeError) : Prop :=
  (∃ version wanted output, i.task = .package version wanted output) ∧
    Host.Refuses (Host.address (Text.trim i.tag) env) (Host.secretKey? (Text.trim i.tag) env) e

/-- Does the task of an invocation. If that is to watch the project, the batches are reported. -/
def session (run : Runner) (env : Environment) (now : Moment) (i : Invocation)
    (bs : List Watch.Batch) : Work Ending :=
  match i.task with
  | .watch => do
    Watch.attend run (← Watch.start run (← i.settings env)) bs
    return ⟨[], none⟩
  | _ => i.perform run env now

theorem session_nil (run : Runner) (env : Environment) (now : Moment) (i : Invocation) :
    session run env now i [] = i.perform run env now := by
  unfold session Invocation.perform
  cases i.task <;> rfl

/-- A session is the same with either key, unless one of them makes it fail. -/
theorem session_samePublic (h : env.SamePublic env') (run : Runner) (now : Moment)
    (i : Invocation) (x : World) :
    (∀ bs, (session run env' now i bs).on x = (session run env now i bs).on x) ∨
    ∃ e, (KeyFails env i e ∧ ((i.perform run env now).on x).1 = .error (.encoding e)) ∨
      (KeyFails env' i e ∧ ((i.perform run env' now).on x).1 = .error (.encoding e)) := by
  have hsame (f : Settings → Work Ending)
      (hf : ∀ s address key, (f (s.withHost address key)).on x = (f s).on x) :
      (i.settings env' >>= f).on x = (i.settings env >>= f).on x := by
    rcases on_settings_samePublic h i f x with heq | ⟨s, -, -, hon, hon'⟩
    · exact heq
    · rw [hon, hon', hf]
  unfold session Invocation.perform
  cases htask : i.task with
  | compile script matching =>
    refine .inl fun _ => hsame _ fun s address key => ?_
    rw [Build.compile_withHost]
    rfl
  | watch =>
    refine .inl fun bs => hsame _ fun s address key => ?_
    rw [Watch.start_withHost, bind_map_left]
    simp only [Watch.attend_withHost]
  | lint script =>
    refine .inl fun _ => hsame _ fun s address key => ?_
    rw [lint_withHost]
  | generateTypes =>
    refine .inl fun _ => hsame _ fun s address key => ?_
    rw [Build.generateTypes_withHost]
  | resolveInterval cadence => exact .inl fun _ => rfl
  | package version wanted output =>
    have hpackage : ∃ version wanted output, i.task = .package version wanted output :=
      ⟨version, wanted, output, htask⟩
    rcases on_settings_samePublic h i (deploy run now version wanted output) x with
      heq | ⟨s, haddress, hkey, hon, hon'⟩
    · exact .inl fun _ => heq
    · rcases deploy_withHost run now version wanted output s
        (Host.secretKey? (Text.trim i.tag) env') x with
        heq | ⟨e, ⟨hrefuses, he⟩ | ⟨hrefuses, he⟩⟩
      · exact .inl fun _ => hon'.trans (heq.trans hon.symm)
      · rw [haddress, hkey] at hrefuses
        exact .inr ⟨e, .inl ⟨⟨hpackage, hrefuses⟩, (congrArg Prod.fst hon).trans he⟩⟩
      · rw [haddress, ← h.address] at hrefuses
        exact .inr ⟨e, .inr ⟨⟨hpackage, hrefuses⟩, (congrArg Prod.fst hon').trans he⟩⟩

/-- What the program prints of what a task comes to, unless the failure is left to the caller. -/
def shown (i : Invocation) (l : Log) : Except Fault Ending → Except Fault Result
  | .ok e => .ok (e.result i.debug l)
  | .error f =>
    if i.task.reports f then .ok ((Ending.mk [] (some f.message)).result i.debug l) else .error f

theorem shown_eq_error {l : Log} {r : Except Fault Ending} {f : Fault}
    (h : shown i l r = .error f) : r = .error f := by
  rcases r with f' | e
  · simp only [shown] at h
    split_ifs at h
    rw [Except.error.inj h]
  · cases h

theorem execute_eq (hi : Invocation.read args = .ok i) {r : Except Fault Ending} {w : World}
    (h : (i.perform run env now).on { disk := d, log := [] } = (r, w)) :
    execute run env now args d = (shown i w.log r, w.disk) := by
  have hon : ((i.perform run env now).run).run { disk := d, log := [] } = (r, w) := h
  unfold execute
  rw [hi]
  simp only [hon]
  cases r with
  | ok e => rfl
  | error f =>
    simp only [shown]
    split_ifs <;> rfl

/-- What the program ends with, what it has logged by then, even if it ends with a fault that is left
to the caller, and what it leaves behind, where the batches are reported if it watches a project. -/
def observed (run : Runner) (env : Environment) (now : Moment) (i : Invocation)
    (bs : List Watch.Batch) (d : Disk) : Except Fault Result × List String × Disk :=
  let (r, w) := (session run env now i bs).on { disk := d, log := [] }
  (shown i w.log r, shownLog i.debug w.log, w.disk)

theorem execute_eq_observed (hi : Invocation.read args = .ok i) :
    execute run env now args d =
      ((observed run env now i [] d).1, (observed run env now i [] d).2.2) := by
  unfold observed
  rw [session_nil]
  exact execute_eq hi rfl

theorem execute_eq_encoding (hi : Invocation.read args = .ok i) {e : Text.Utf8.EncodeError}
    (hkey : KeyFails env i e)
    (he : ((i.perform run env now).on { disk := d, log := [] }).1 = .error (.encoding e)) :
    (execute run env now args d).1 = .error (.encoding e) := by
  obtain ⟨⟨version, wanted, output, htask⟩, -⟩ := hkey
  rcases hp : (i.perform run env now).on { disk := d, log := [] } with ⟨r, w⟩
  rw [hp] at he
  subst he
  rw [execute_eq hi hp, shown, htask]
  rfl

/-- Environments that differ in nothing but secret keys make no difference to what the program
prints, logs, fails with and writes, also while it watches a project whose files others change,
unless it is to package and a key cannot be the name of a user of the host. -/
theorem execute_samePublic (h : env.SamePublic env') (run : Runner) (now : Moment)
    (args : List String) (d : Disk) :
    (execute run env' now args d = execute run env now args d ∧
      ∀ i, Invocation.read args = .ok i → ∀ bs,
        observed run env' now i bs d = observed run env now i bs d) ∨
    ∃ i e, Invocation.read args = .ok i ∧
      ((KeyFails env i e ∧ (execute run env now args d).1 = .error (.encoding e)) ∨
        (KeyFails env' i e ∧ (execute run env' now args d).1 = .error (.encoding e))) := by
  rcases hi : Invocation.read args with stop | i
  · left
    refine ⟨?_, nofun⟩
    unfold execute
    rw [hi]
    cases stop <;> rfl
  rcases session_samePublic h run now i { disk := d, log := [] } with
    heq | ⟨e, ⟨hkey, he⟩ | ⟨hkey, he⟩⟩
  · left
    have hobserved (bs : List Watch.Batch) :
        observed run env' now i bs d = observed run env now i bs d := by
      unfold observed
      rw [heq bs]
    refine ⟨?_, fun j hj bs => ?_⟩
    · rw [execute_eq_observed hi, execute_eq_observed hi, hobserved]
    · obtain rfl := Except.ok.inj hj
      exact hobserved bs
  · exact .inr ⟨i, e, rfl, .inl ⟨hkey, execute_eq_encoding hi hkey he⟩⟩
  · exact .inr ⟨i, e, rfl, .inr ⟨hkey, execute_eq_encoding hi hkey he⟩⟩

/-! ## Two keys for a host of one's own -/

/-- An environment with a key for the host on this machine. -/
def localKey (key : String) : Environment :=
  [("NANGO_HOSTPORT", Host.localhost), ("NANGO_SECRET_KEY", key)]

theorem samePublic_localKey (key key' : String) : (localKey key).SamePublic (localKey key') := by
  intro name hname
  have hne : (name == "NANGO_SECRET_KEY") = false := by
    rw [beq_eq_false_iff_ne]
    rintro rfl
    exact hname (by decide)
  unfold localKey
  rw [List.lookup_cons, List.lookup_cons, List.lookup_cons, List.lookup_cons, hne]

theorem read_package : Invocation.read ["package"] =
    .ok ⟨".", "dev", none, false, .package "" ⟨none, none⟩ none⟩ := by decide

theorem execute_samePublic_twoKeys :
    execute Sample.echo (localKey "two") Sample.now ["package"]
        (Sample.project "" none) =
      execute Sample.echo (localKey "one") Sample.now ["package"]
        (Sample.project "" none) := by
  have hbytes : ∀ key ∈ ["one", "two"], (Text.Utf8.encoded
      ((Host.secretKey? (Text.trim "dev") (localKey key)).getD "" ++ ":")).isOk = true := by
    decide
  have hno {key : String} (hkey : key ∈ ["one", "two"]) {i : Invocation}
      (hi : Invocation.read ["package"] = .ok i) (e : Text.Utf8.EncodeError) :
      ¬KeyFails (localKey key) i e := by
    rintro ⟨-, -, hfail⟩
    rw [read_package] at hi
    obtain rfl := Except.ok.inj hi
    have hok := hbytes key hkey
    rw [hfail] at hok
    cases hok
  rcases execute_samePublic (samePublic_localKey "one" "two") Sample.echo Sample.now
    ["package"] (Sample.project "" none) with ⟨heq, -⟩ | ⟨i, e, hi, ⟨hkey, -⟩ | ⟨hkey, -⟩⟩
  · exact heq
  · exact absurd hkey (hno (by decide) hi e)
  · exact absurd hkey (hno (by decide) hi e)

/-- The settings that the small project has with the key. -/
def localSettings (key : String) : Settings :=
  Sample.settings.withHost (Host.address (Text.trim "dev") (localKey key))
    (Host.secretKey? (Text.trim "dev") (localKey key))

theorem perform_package (key : String) :
    (Invocation.perform Sample.echo (localKey key) Sample.now
      ⟨".", "dev", none, false, .package "" ⟨none, none⟩ none⟩).on (Sample.fresh "" none) =
    (deploy Sample.echo Sample.now "" ⟨none, none⟩ none (localSettings key)).on
      (Sample.fresh "" none) := by
  let i : Invocation := ⟨".", "dev", none, false, .package "" ⟨none, none⟩ none⟩
  have hpath : Path.ofString "." = ⟨0, []⟩ := by decide
  have hwishes : wishesOf i (localKey key) = Sample.wishes.inside (localKey key) := by
    rw [wishesOf, hpath]
    rfl
  have hown : Settings.resolve (Sample.fresh "" none).disk Sample.wishes = .ok Sample.settings :=
    Sample.resolve_eq "" none
  have hsettings := on_settings i (localKey key) (Sample.fresh "" none)
  rw [hwishes, Settings.resolve_withHost Sample.wishes (localKey key) rfl, hown]
    at hsettings
  rw [perform_eq_deploy rfl]
  exact on_bind_ok hsettings

theorem on_ofProject_local (key : String) : ∃ (dep : Deployment) (fine : Bool) (w : World),
    dep.address = (localSettings key).address ∧ dep.secretKey = (localSettings key).secretKey ∧
    (Deployment.ofProject Sample.echo (localSettings key) "" ⟨none, none⟩ Sample.now).on
      (Sample.fresh "" none) = ((dep.sendable.mapError .encoding).map (·, fine), w) := by
  obtain ⟨c, y, hc, hy, -, hdeploy⟩ := Sample.deploy_of_script "" none "" Sample.now
  obtain ⟨o, x, ho, hx, -⟩ := Sample.compile_empty hc hy
  obtain ⟨dep, fine, p, w, hon, -⟩ := hdeploy o x "" "" ho (by rw [hx]; rfl) (by rw [hx]; rfl)
  rcases Deployment.ofProject_withHost Sample.settings _ _ (Sample.fresh "" none) with
    ⟨f, w', hfail, -⟩ | ⟨dep', fine', w', -, -, -, hon'⟩
  · rw [hon] at hfail
    cases hfail
  · exact ⟨_, fine', w', rfl, rfl, hon'⟩

/-- A request that can be made is printed, or fails for want of a JSON form. -/
theorem deliver_ne_encoding (dep : Deployment) (e : Text.Utf8.EncodeError) (x : World) :
    ((deliver dep none).on x).1 ≠ .error (.encoding e) := by
  have hon := on_ofExcept (Fault.json · false) dep.document x
  rcases hdocument : dep.document with e' | j <;> rw [hdocument] at hon
  · have hfail : (deliver dep none).on x = (.error (.json e' false), x) :=
      on_bind_error (by rw [hdocument, hon]; rfl)
    rw [hfail]
    nofun
  · have hprint : (deliver dep none).on x = (.ok ⟨[j.render (.indented 2)], none⟩, x) :=
      (on_bind_ok (by rw [hdocument, hon]; rfl)).trans rfl
    rw [hprint]
    nofun

/-- A key of half of a pair is noticed: the request cannot be made with it. -/
theorem not_samePublic : ¬∀ (run : Runner) (env env' : Environment) (now : Moment)
    (args : List String) (d : Disk), env.SamePublic env' →
    execute run env' now args d = execute run env now args d := by
  intro hall
  have hsame := hall Sample.echo (localKey "key") (localKey (Text.Utf16.decode [0xDCFF])) Sample.now
    ["package"] (Sample.project "" none) (samePublic_localKey _ _)
  have hbad : (Text.Utf8.encoded ((localSettings (Text.Utf16.decode [0xDCFF])).secretKey.getD "" ++
      ":")).isOk = false := by decide
  have hgood : (Text.Utf8.encoded ((localSettings "key").secretKey.getD "" ++ ":")).isOk = true := by
    decide
  obtain ⟨dep, fine, w, haddress, hkey, hon⟩ := on_ofProject_local (Text.Utf16.decode [0xDCFF])
  obtain ⟨dep', fine', w', -, hkey', hon'⟩ := on_ofProject_local "key"
  rw [← hkey] at hbad
  rw [← hkey'] at hgood
  rcases hbytes : Text.Utf8.encoded (dep.secretKey.getD "" ++ ":") with e | bytes
  · have hcloud : Host.isCloud dep.address = false := by rw [haddress]; decide
    rw [Deployment.sendable_eq_error_iff.2 ⟨hcloud, hbytes⟩] at hon
    have hfirst := execute_eq read_package ((perform_package _).trans (on_deploy_error hon none))
    rcases hsend : dep'.sendable with e' | sent
    · rw [(Deployment.sendable_eq_error hsend).2] at hgood
      cases hgood
    · rw [hsend] at hon'
      have hsecond := execute_eq read_package ((perform_package _).trans (on_deploy hon' none))
      rw [hfirst, hsecond] at hsame
      exact deliver_ne_encoding sent e w' (shown_eq_error (congrArg Prod.fst hsame).symm)
  · rw [hbytes] at hbad
    cases hbad

end CommandLine

end FlowPipeline
