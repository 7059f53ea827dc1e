import FlowPipeline.Proofs.Artifacts
import FlowPipeline.Proofs.BuildFaults
import FlowPipeline.Proofs.Packaging

/-! # Faults of the use cases

A project is compiled, packaged, or gets its type definitions. Each of these comes to an end, or
fails with a fault of the build that its user is told of. What else it may fail with is a fault that
the build does not foresee, and for packages one of the files that are packaged or of the key that
they are sent with.
-/

namespace FlowPipeline
open Work Build

/-- A file cannot be read as a text. -/
inductive Disk.IsUnreadable (d : Disk) (p : Path) : Fault → Prop where
  | lookup {e : FileError} (h : d.has p = .error e) : IsUnreadable d p (.file e)
  | read {e : FileError} (h : d.read p = .error e) : IsUnreadable d p (.file e)
  | text {e : Text.Utf8.DecodeError} (h : d.IsBroken p e) : IsUnreadable d p (.decoding e)

namespace Package

/-- The compiled script of some name or its source cannot be read. -/
def LacksFile (root output : Path) (d : Disk) (f : Fault) : Prop :=
  ∃ name, d.IsUnreadable (output.join (Path.ofString (name ++ ".js"))) f ∨
    d.IsUnreadable (root.join (Path.ofString (name ++ ".ts"))) f

variable {root output : Path} {version : String} {now : Moment}

theorem faults_readText (p : Path) (x : World) :
    Faults (readText p) x fun y f => y.disk.IsUnreadable p f := by
  refine (Faults.readText p).mono ?_
  rintro y f ⟨rfl, ⟨e, rfl, he⟩ | ⟨e, rfl, he⟩⟩
  · exact .read he
  · exact .text he

theorem faults_has (p : Path) (x : World) :
    Faults (has p) x fun y f => y.disk.IsUnreadable p f := by
  refine (Faults.has p).mono ?_
  rintro y f ⟨rfl, e, rfl, he⟩
  exact .lookup he

theorem faults_ofScript (key : String) (f : Flow) (x : World) :
    Faults (ofScript root output version key f) x fun y e => LacksFile root output y.disk e := by
  refine .bind ((faults_has _ x).mono fun y e he => ⟨f.name, .inl he⟩) fun there y _ => ?_
  cases there with
  | false => exact .pure _
  | true =>
    refine .bind (.log _ _) fun _ z _ => ?_
    refine .bind ((faults_readText _ z).mono fun y e he => ⟨f.name, .inl he⟩) fun compiled z _ => ?_
    refine .bind ((faults_has _ z).mono fun y e he => ⟨f.name, .inr he⟩) fun there z _ => ?_
    cases there with
    | false => exact .bind (.pure none) fun _ _ _ => .pure _
    | true =>
      exact .bind (.map ((faults_readText _ z).mono fun y e he => ⟨f.name, .inr he⟩))
        fun _ _ _ => .pure _

theorem faults_ofFlow (key : String) (f : Flow) (x : World) :
    Faults (ofFlow root output version now key f) x fun y e => LacksFile root output y.disk e := by
  unfold ofFlow
  split_ifs
  · refine .bind (.log _ _) fun _ y _ => ?_
    split
    · exact .pure _
    · exact faults_ofScript key f y
  · split
    · exact .pure _
    · exact faults_ofScript key f x

theorem faults_ofFlows (fs : List (String × Flow)) (x : World) :
    Faults (ofFlows root output version now fs) x fun y e => LacksFile root output y.disk e := by
  induction fs generalizing x with
  | nil => exact .pure _
  | cons kf fs ih =>
    refine .bind (faults_ofFlow kf.1 kf.2 x) fun r y _ => ?_
    rcases r with o | p
    · refine .bind (.log _ _) fun _ z _ => ?_
      split_ifs
      · exact .pure _
      · exact ih z
    · exact .bind (ih y) fun _ _ _ => .pure _

end Package

/-- What can be done with a project once. -/
inductive UseCase where
  | compile (script : Option String) (matching : Bool)
  | package (version : String) (wanted : Selection) (now : Moment)
  | generateTypes

namespace UseCase

def perform (run : Runner) (s : Settings) : UseCase → Work Unit
  | compile script matching => do let _ ← Build.compile run s script matching
  | package version wanted now => do let _ ← Deployment.ofProject run s version wanted now
  | generateTypes => do let _ ← Build.generateTypes s

/-- Whether scripts are compiled. -/
def compiles : UseCase → Bool
  | generateTypes => false
  | _ => true

/-- Whether packages are made. -/
def packages : UseCase → Bool
  | package _ _ _ => true
  | _ => false

/-- A fault that the user is not told of as one of the build. Its cause is found in the file system
before the use case, `d`, or in the one that it leaves, `d'`. -/
inductive Escapes (run : Runner) (s : Settings) (d d' : Disk) (u : UseCase) : Fault → Prop where
  | project {f : Fault} (h : Unforeseen s d f) : Escapes run s d d' u f
  | options {f : Fault} (hu : u.compiles = true) (h : BrokenOptions s d' f) : Escapes run s d d' u f
  /-- The output directory cannot be made. -/
  | output {e : FileError} (hu : u.compiles = true)
    (h : Edit.apply d' (.makeDirs s.output) = .error e) : Escapes run s d d' u (.file e)
  | script {f : Fault} (hu : u.compiles = true) (h : Uncaught run d' f) : Escapes run s d d' u f
  | file {f : Fault} (hu : u.packages = true) (h : Package.LacksFile s.root s.output d' f) :
    Escapes run s d d' u f
  /-- A key that is the name of a user holds half of a pair. -/
  | key {e : Text.Utf8.EncodeError} (hu : u.packages = true)
    (haddress : Host.isCloud s.address = false)
    (h : Text.Utf8.encoded (s.secretKey.getD "" ++ ":") = .error e) :
    Escapes run s d d' u (.encoding e)

variable {run : Runner} {s : Settings} {u : UseCase} {x y : World} {f : Fault}

/-- A fault of the build, or one that escapes. -/
def Fails (run : Runner) (s : Settings) (u : UseCase) (d : Disk) (y : World) (f : Fault) : Prop :=
  (∃ message, f = .build message) ∨ u.Escapes run s d y.disk f

theorem faults_compile (hu : u.compiles = true) (script : Option String) (matching : Bool)
    (x : World) : Faults (Build.compile run s script matching) x (Fails run s u x.disk) := by
  have hplan : Faults (mapFault asBuild (plan s script matching)) x (Fails run s u x.disk) := by
    refine (faults_asBuild (faults_plan s script matching x)).mono fun y f hf => ?_
    refine hf.imp_right fun hf => ?_
    rcases hf with hf | hf
    · exact .project hf
    · exact .options hu hf
  refine .bind hplan ?_
  rintro ⟨m, c, ps⟩ y -
  refine .bind ((Faults.change _).mono ?_) fun _ z _ => ?_
  · rintro z f ⟨rfl, e, rfl, he⟩
    exact .inr (.output hu he)
  · refine .bind ((faults_compileAll run c script ps z).mono fun _ f hf => ?_) fun _ _ _ => .pure _
    exact .inr (.script hu hf)

theorem faults_ofProject (version : String) (wanted : Selection) (now : Moment) (x : World) :
    Faults (Deployment.ofProject run s version wanted now) x
      (Fails run s (.package version wanted now) x.disk) := by
  have hend (m : Manifest) (c : Context) (fine : Bool) (y : World) : Faults (do
      return (← Deployment.ofCompiled s version wanted now m c.integrations, fine)) y
      (Fails run s (.package version wanted now) x.disk) := by
    refine .bind (.bind ((Package.faults_ofFlows _ y).mono fun z f hf => ?_) fun ps z _ => ?_)
      fun _ _ _ => .pure _
    · exact .inr (.file rfl hf)
    · cases ps with
      | none => exact .throw (.inl ⟨_, rfl⟩)
      | some ps =>
        refine .ofExcept fun e he => ?_
        obtain ⟨haddress, hkey⟩ := Deployment.sendable_eq_error he
        exact .inr (.key rfl haddress hkey)
  refine .bind (faults_compile rfl none false x) ?_
  rintro ⟨m, c, fine⟩ y -
  dsimp only
  split_ifs
  · exact .bind (.log _ _) fun _ z _ => hend m c fine z
  · exact hend m c fine y

theorem faults_generateTypes (x : World) : Faults (Build.generateTypes s) x
    (Fails run s .generateTypes x.disk) := by
  have hread := faults_readIntegrations s x
  refine (faults_asBuild (.mono (.bind hread ?_) fun y f hf => ?_)).mono
    fun y f hf => hf.imp_right .project
  · rintro ⟨m, is⟩ y hon
    obtain ⟨hdisk, his⟩ := readIntegrations_eq_ok hon
    rw [← hdisk] at his ⊢
    exact faults_writeTypes his
  · exact hf.imp_left isReported_of_isTolerated

/-- A manifest whose bytes are no text makes every use case fail, and the user is not told. -/
theorem perform_of_isBroken {e : Text.Utf8.DecodeError}
    (h : x.disk.IsBroken (s.root.child manifestName) e) :
    (u.perform run s).on x = (.error (.decoding e), x) := by
  have hread := on_readIntegrations_of_isBroken h
  have hcompile (script : Option String) (matching : Bool) :
      (Build.compile run s script matching).on x = (.error (.decoding e), x) := by
    have hplan : (mapFault asBuild (plan s script matching)).on x = (.error (.decoding e), x) := by
      have hprepare : (plan s script matching).on x = (.error (.decoding e), x) :=
        on_bind_error (on_bind_error hread)
      rw [on_mapFault, hprepare]
      rfl
    exact on_bind_error hplan
  cases u with
  | compile script matching => exact on_bind_error (hcompile script matching)
  | package version wanted now => exact on_bind_error (on_bind_error (hcompile none false))
  | generateTypes =>
    have htypes : (Build.generateTypes s).on x = (.error (.decoding e), x) := by
      rw [Build.generateTypes, on_mapFault, on_bind_error hread]
      rfl
    exact on_bind_error htypes

/-- Whatever a use case fails with, it is a fault of the build, or it has one of the causes that let
it escape. -/
theorem perform_fault (h : (u.perform run s).on x = (.error f, y)) :
    (∃ message, f = .build message) ∨ u.Escapes run s x.disk y.disk f := by
  have hfaults : Faults (u.perform run s) x (Fails run s u x.disk) := by
    cases u with
    | compile script matching =>
      exact .bind (faults_compile rfl script matching x) fun _ _ _ => .pure _
    | package version wanted now =>
      exact .bind (faults_ofProject version wanted now x) fun _ _ _ => .pure _
    | generateTypes => exact .bind (faults_generateTypes x) fun _ _ _ => .pure _
  exact hfaults f y h

/-- A small project with a file where its output directory should be. -/
def blocked : World where
  disk := {
    entries := [
      (["p"], .dir), (["p", "a.ts"], .file []), (["p", "dist"], .file []),
      (["p", "models.ts"], .file []), (["p", "nango.yaml"], .file (bytesOf Sample.manifest))]
    here := ["p"] }
  log := []

theorem on_blocked : ∃ y,
    ((compile none false).perform Sample.echo Sample.settings).on blocked =
      (.error (.file ⟨.exists, "/p/dist"⟩), y) := by
  have hfault : (((compile none false).perform Sample.echo Sample.settings).on blocked).1 =
      .error (.file ⟨.exists, "/p/dist"⟩) := by decide +kernel
  generalize ((compile none false).perform Sample.echo Sample.settings).on blocked = r at hfault ⊢
  obtain ⟨f, y⟩ := r
  exact ⟨y, congrArg (·, y) hfault⟩

theorem perform_blocked : ∃ f y,
    ((compile none false).perform Sample.echo Sample.settings).on blocked = (.error f, y) ∧
      ((∃ message, f = .build message) ∨
        (compile none false).Escapes Sample.echo Sample.settings blocked.disk y.disk f) := by
  obtain ⟨y, hon⟩ := on_blocked
  exact ⟨_, y, hon, perform_fault hon⟩

/-- The user is not told that the output directory cannot be made. -/
theorem not_reported : Settings.resolve blocked.disk Sample.wishes = .ok Sample.settings ∧
    ∃ f y, ((compile none false).perform Sample.echo Sample.settings).on blocked = (.error f, y) ∧
      ∀ message, f ≠ .build message := by
  obtain ⟨y, hon⟩ := on_blocked
  exact ⟨rfl, _, y, hon, nofun⟩

end UseCase
end FlowPipeline
