import FlowPipeline.Proofs.CompiledScripts
import FlowPipeline.Proofs.NormalizedFlows
import FlowPipeline.Watch

/-! # Faults of a build

A build is to tell its user of every fault as one of its own. Those that it does not foresee pass
through as they are. Each has its cause in what the project holds: in the manifest, the declarations
of the host or the options, in the way of the output directory, in a script or what the compiler
makes of it, or in the files that are packaged.
-/

namespace FlowPipeline

/-- A file is there, but its bytes are no text. -/
def Disk.IsBroken (d : Disk) (p : Path) (e : Text.Utf8.DecodeError) : Prop :=
  ∃ bytes, d.read p = .ok bytes ∧ Text.Utf8.decode bytes = .error e

namespace Work

variable {α β : Type} {P Q : World → Fault → Prop} {w : Work α} {x : World}

/-- Every fault of work in a world has a property, together with the world that it leaves. -/
def Faults (w : Work α) (x : World) (P : World → Fault → Prop) : Prop :=
  ∀ f y, w.on x = (.error f, y) → P y f

namespace Faults

theorem pure (a : α) : Faults (Pure.pure a) x P := by
  intro f y h
  cases h

theorem throw {f : Fault} (h : P x f) : Faults (MonadExcept.throw f : Work α) x P := by
  intro f' y he
  cases he
  exact h

theorem mono (h : Faults w x P) (hpq : ∀ y f, P y f → Q y f) : Faults w x Q :=
  fun f y he => hpq y f (h f y he)

theorem bind {g : α → Work β} (hw : Faults w x P)
    (hg : ∀ a y, w.on x = (.ok a, y) → Faults (g a) y P) : Faults (w >>= g) x P := by
  intro f z h
  rcases on_bind_cases h with ⟨f, hf, hr⟩ | ⟨a, y, ha, hon⟩
  · cases hr
    exact hw f z hf
  · exact hg a y ha f z hon

theorem ofExcept {ε : Type} {fault : ε → Fault} {r : Except ε α}
    (h : FailsOnly (fun e => P x (fault e)) r) : Faults (ofExcept fault r) x P := by
  intro f y he
  obtain ⟨rfl, ⟨e, hr, hf⟩ | ⟨_, -, hf⟩⟩ := on_ofExcept_cases he
  · cases hf
    exact h e hr
  · cases hf

/-- Work that goes on only if a condition holds. -/
theorem guard {b : Bool} {f : Fault} (hf : P x f) (hw : Faults w x P) : Faults (do
    if !b then MonadExcept.throw f
    w) x P := by
  cases b with
  | true => exact hw
  | false => exact .bind (.throw hf) fun _ _ h => by cases h

theorem map {g : α → β} (h : Faults w x P) : Faults (g <$> w) x P :=
  bind h fun a _ _ => pure (g a)

theorem outcome : Faults (outcome w) x P := by
  intro f y h
  rw [on_outcome] at h
  cases h

theorem mapFault {g : Fault → Fault} (h : Faults w x fun y f => P y (g f)) :
    Faults (mapFault g w) x P := by
  intro f y he
  rcases on_mapFault_cases he with ⟨f, hw, hr⟩ | ⟨_, -, hr⟩
  · cases hr
    exact h f y hw
  · cases hr

theorem logAll (l : Log) : Faults (logAll l) x P := by
  intro f y h
  cases h

theorem log (level : Level) (message : String) : Faults (log level message) x P := by
  intro f y h
  cases h

theorem has (p : Path) :
    Faults (has p) x fun y f => y = x ∧ ∃ e, f = .file e ∧ x.disk.has p = .error e := by
  intro f y h
  rw [on_has] at h
  rcases hr : x.disk.has p with e | b
  · rw [hr] at h
    cases h
    exact ⟨rfl, e, rfl, rfl⟩
  · rw [hr] at h
    cases h

theorem readText (p : Path) : Faults (readText p) x fun y f => y = x ∧
    ((∃ e, f = .file e ∧ x.disk.read p = .error e) ∨
      ∃ e, f = .decoding e ∧ x.disk.IsBroken p e) := by
  refine .bind (fun f y h => by cases h) fun d y hd => ?_
  cases hd
  rcases hr : x.disk.read p with e | bytes
  · exact .bind (.ofExcept (.error ⟨rfl, .inl ⟨e, rfl, rfl⟩⟩)) fun _ _ h => by cases h
  · refine .bind (.ofExcept (.ok bytes)) fun _ y h => ?_
    cases h
    refine .map (.ofExcept fun e he => ⟨rfl, .inr ⟨e, rfl, bytes, hr, he⟩⟩)

theorem change (e : Edit) :
    Faults (change e) x fun y f => y = x ∧ ∃ e', f = .file e' ∧ e.apply x.disk = .error e' := by
  intro f y h
  rcases on_change_cases h with ⟨e', he, rfl, hf⟩ | ⟨-, hf⟩
  · cases hf
    exact ⟨rfl, e', rfl, he⟩
  · cases hf

theorem writeText (p : Path) (s : String) : Faults (writeText p s) x fun y f =>
    (y = x ∧ ∃ e, f = .file e) ∨ ∃ e, f = .encoding e ∧ Text.Utf8.encoded s = .error e ∧
      x.disk.write p [] = .ok y.disk := by
  intro f y h
  rcases on_writeText_cases h with ⟨rfl, e, -, hf⟩ | ⟨hw, hf⟩
  · cases hf
    exact .inl ⟨rfl, e, rfl⟩
  · rcases hs : Text.Utf8.encoded s with e | bytes <;> rw [hs] at hf <;> cases hf
    have hnone : bytesOf s = [] := by simp [bytesOf, hs]
    exact .inr ⟨e, rfl, rfl, hnone ▸ hw⟩

end Faults
end Work

/-! ## The manifest and what is made of it -/

theorem Manifest.failsOnly_parse (text : String) :
    FailsOnly (fun e => e.isReported = true ∨ ∃ e', e = .scalar e') (parse text) := by
  have hroot : FailsOnly (fun e => e.isReported = true ∨ ∃ e', e = .scalar e') (rootOf text) := by
    unfold rootOf
    split
    · exact .error (.inl rfl)
    · exact .error (.inr ⟨_, rfl⟩)
    · exact .ok []
    · next v _ _ =>
      rcases v.mapping? with _ | root
      · exact .error (.inl rfl)
      · exact .ok root
  refine .bind hroot fun root _ => ?_
  dsimp only
  split
  · exact .ok _
  · exact .error (.inl rfl)
  · exact .error (.inl rfl)

namespace TypeDefinitions

theorem failsOnly_flowsJson (fs : List Flow) :
    FailsOnly (fun e => ∃ f ∈ fs, (Value.map f.attributes).toJson = .error e) (flowsJson fs) := by
  induction fs with
  | nil => exact .ok []
  | cons f fs ih =>
    have hattributes : FailsOnly (fun e => ∃ f' ∈ f :: fs,
        (Value.map f'.attributes).toJson = .error e) (Value.map f.attributes).toJson :=
      fun e he => ⟨f, List.mem_cons_self, he⟩
    have hrest : FailsOnly (fun e => ∃ f' ∈ f :: fs,
        (Value.map f'.attributes).toJson = .error e) (flowsJson fs) :=
      ih.mono fun e ⟨f', hf, he⟩ => ⟨f', List.mem_cons_of_mem _ hf, he⟩
    rw [flowsJson, flowJson]
    exact .bind (.bind hattributes fun _ _ => .ok _) fun _ _ => .bind hrest fun _ _ => .ok _

theorem failsOnly_integrationsJson (is : List Integration) :
    FailsOnly (fun e => ∃ f ∈ is.flatMap Integration.flows,
      (Value.map f.attributes).toJson = .error e) (integrationsJson is) := by
  induction is with
  | nil => exact .ok []
  | cons i is ih =>
    have hown {fs : List Flow} (hfs : fs ⊆ i.flows) : FailsOnly (fun e =>
        ∃ f ∈ (i :: is).flatMap Integration.flows, (Value.map f.attributes).toJson = .error e)
        (flowsJson fs) :=
      (failsOnly_flowsJson fs).mono fun e ⟨f, hf, he⟩ =>
        ⟨f, List.mem_flatMap.2 ⟨i, List.mem_cons_self, hfs hf⟩, he⟩
    have hrest : FailsOnly (fun e => ∃ f ∈ (i :: is).flatMap Integration.flows,
        (Value.map f.attributes).toJson = .error e) (integrationsJson is) :=
      ih.mono fun e ⟨f, hf, he⟩ => ⟨f, by
        rw [List.flatMap_cons]
        exact List.mem_append_right _ hf, he⟩
    rw [integrationsJson, integrationJson]
    refine .bind (.bind (hown (List.subset_append_left _ _)) fun _ _ => ?_) fun _ _ => ?_
    · exact .bind (hown (List.subset_append_right _ _)) fun _ _ => .ok _
    · exact .bind hrest fun _ _ => .ok _

/-- Where there are no type definitions, a value of the models or the attributes of a flow are to
blame. -/
theorem failsOnly_render (models : Mapping) (is : List Integration) (host : Option String) :
    FailsOnly (fun failure => (∃ e, failure = .manifest e ∧ (Value.map models).Causes e) ∨
      ∃ e, failure = .json e ∧ ∃ f ∈ is.flatMap Integration.flows,
        (Value.map f.attributes).toJson = .error e) (render models is host) := by
  rw [render]
  refine .bind ?_ fun own _ => .bind ?_ fun flows _ => .ok _
  · exact .mapError ((interfaces_causes models).mono fun e he => .inl ⟨e, rfl, he⟩)
  · exact .mapError ((failsOnly_integrationsJson is).mono fun e he => .inr ⟨e, rfl, he⟩)

end TypeDefinitions

theorem Lint.failsOnly_lint (source type : String) (models : List String) (label : String) :
    FailsOnly (fun failure => (∃ line, failure = .malformed line) ∨
      ∃ e, failure = .encoding e ∧ Text.Utf8.encoded source = .error e)
      (lint source type models label) := by
  refine .bind (.mapError fun e he => .inr ⟨e, rfl, he⟩) fun _ _ => ?_
  exact .bind (.mapError fun line _ => .inl ⟨line, rfl⟩) fun _ _ => .ok _

namespace Build
open Work Watch.Handler

/-! ## Causes -/

/-- Whether a build tells its user of the fault as one of its own. -/
def isReported : Fault → Bool
  | .manifest e => e.isReported
  | .options e => e.isReported
  | .compilation _ | .file _ | .build _ => true
  | _ => false

theorem isReported_of_isTolerated {f : Fault} (h : isTolerated f = true) : isReported f = true := by
  cases f with
  | manifest e => exact h
  | file e => rfl
  | _ => cases h

theorem asBuild_cases (f : Fault) :
    (∃ message, asBuild f = .build message) ∨ isReported f = false ∧ asBuild f = f := by
  cases f with
  | manifest e =>
    cases he : e.isReported with
    | true => exact .inl ⟨e.message, by simp [asBuild, he]⟩
    | false => exact .inr ⟨he, by simp [asBuild, he]⟩
  | options e =>
    cases he : e.isReported with
    | true => exact .inl ⟨e.message, by simp [asBuild, he]⟩
    | false => exact .inr ⟨he, by simp [asBuild, he]⟩
  | compilation e => exact .inl ⟨_, rfl⟩
  | file e => exact .inl ⟨_, rfl⟩
  | build message => exact .inl ⟨message, rfl⟩
  | _ => exact .inr ⟨rfl, rfl⟩

/-- The user is told of what is reported; other faults pass. -/
theorem faults_asBuild {α : Type} {w : Work α} {x : World} {P : World → Fault → Prop}
    (h : Faults w x fun y f => isReported f = true ∨ P y f) :
    Faults (mapFault asBuild w) x fun y f => (∃ message, f = .build message) ∨ P y f := by
  refine .mapFault (h.mono fun y f hf => ?_)
  rcases asBuild_cases f with hbuild | ⟨hreported, hbuild⟩
  · exact .inl hbuild
  · rw [hbuild]
    exact .inr (hf.resolve_left (by simp [hreported]))

/-- The manifest that a project has. -/
def HasManifest (s : Settings) (d : Disk) (m : Manifest) : Prop :=
  ∃ text, d.text? (s.root.child manifestName) = some text ∧ Manifest.parse text = .ok m

/-- The integrations that a project has. -/
def HasIntegrations (s : Settings) (d : Disk) (m : Manifest) (is : List Integration) : Prop :=
  HasManifest s d m ∧ ∃ log, (m.normalize.run log).1 = .ok is

/-- A fault that a build does not foresee, caused by the manifest or the declarations of the
host. -/
inductive Unforeseen (s : Settings) (d : Disk) : Fault → Prop where
  | bytes {e : Text.Utf8.DecodeError} (h : d.IsBroken (s.root.child manifestName) e) :
    Unforeseen s d (.decoding e)
  | scalar {text : String} {e : Yaml.Error}
    (htext : d.text? (s.root.child manifestName) = some text)
    (h : Manifest.parse text = .error (.scalar e)) : Unforeseen s d (.manifest (.scalar e))
  | value {m : Manifest} {e : ManifestError} (hm : HasManifest s d m)
    (h : (Value.map m.integrations).Causes e ∨ (Value.map m.models).Causes e) :
    Unforeseen s d (.manifest e)
  | attributes {m : Manifest} {is : List Integration} {f : Flow} {e : NotJson}
    (his : HasIntegrations s d m is) (hf : f ∈ is.flatMap Integration.flows)
    (h : (Value.map f.attributes).toJson = .error e) : Unforeseen s d (.json e false)
  /-- The type definitions hold half of a pair. -/
  | half {m : Manifest} {is : List Integration} {host : Option String} {text : String}
    {e : Text.Utf8.EncodeError} (his : HasIntegrations s d m is)
    (htext : TypeDefinitions.render m.models is host = .ok text)
    (h : Text.Utf8.encoded text = .error e) : Unforeseen s d (.encoding e)
  | host {p : Path} {e : Text.Utf8.DecodeError} (hp : s.hostTypes = some p)
    (h : d.IsBroken p e) : Unforeseen s d (.decoding e)

/-- A fault that a build does not foresee, caused by the options of the compiler. -/
inductive BrokenOptions (s : Settings) (d : Disk) : Fault → Prop where
  | bytes {p : Path} {e : Text.Utf8.DecodeError} (hp : s.compilerOptions = some p)
    (h : d.IsBroken p e) : BrokenOptions s d (.decoding e)
  | limit {p : Path} {text : String} {c : Json.Complaint} (hp : s.compilerOptions = some p)
    (htext : d.text? p = some text)
    (h : CompilerOptions.parse p.toText text = .error (.limit c)) :
    BrokenOptions s d (.options (.limit c))

/-- A fault of compiling a script that is not the script's own. -/
inductive Uncaught (run : Runner) (d : Disk) : Fault → Prop where
  /-- The script holds half of a pair. -/
  | source {script : Path} {source : String} {e : Text.Utf8.EncodeError}
    (hsource : d.text? script = some source) (h : Text.Utf8.encoded source = .error e) :
    Uncaught run d (.encoding e)
  | runner {script : Path} {source : String} {options : CompilerOptions} {f : Fault}
    (hsource : d.text? script = some source)
    (h : run (Compiler.command Compiler.program options script) source = .error f)
    (hf : isOfScript f = false) : Uncaught run d f
  /-- What the compiler makes of a script holds half of a pair. -/
  | output {script : Path} {source output : String} {options : CompilerOptions}
    {e : Text.Utf8.EncodeError}
    (h : run (Compiler.command Compiler.program options script) source = .ok output)
    (he : Text.Utf8.encoded output = .error e) : Uncaught run d (.encoding e)

variable {run : Runner} {c : Context} {s : Settings} {x : World}

/-! ## Before scripts are compiled -/

theorem readManifest_eq_ok {y : World} {m : Manifest}
    (h : (readManifest s.root).on x = (.ok m, y)) : y = x ∧ HasManifest s x.disk m := by
  obtain ⟨there, z, hthere, h⟩ := on_bind_eq_ok h
  obtain ⟨-, rfl⟩ := on_has_eq_ok hthere
  cases there with
  | false =>
    obtain ⟨_, _, hthrow, -⟩ := on_bind_eq_ok h
    cases hthrow
  | true =>
    obtain ⟨text, z, htext, hparse⟩ := on_bind_eq_ok h
    obtain ⟨htext, rfl⟩ := on_readText_eq_ok htext
    obtain ⟨hm, rfl⟩ := on_ofExcept_eq_ok hparse
    exact ⟨rfl, text, htext, hm⟩

/-- A manifest whose bytes are no text is not reported. -/
theorem on_readManifest_of_isBroken {root : Path} {e : Text.Utf8.DecodeError}
    (h : x.disk.IsBroken (root.child manifestName) e) :
    (readManifest root).on x = (.error (.decoding e), x) := by
  obtain ⟨bytes, hbytes, hdecode⟩ := h
  have hthere : (has (root.child manifestName)).on x = (.ok true, x) := by
    have hentry := Disk.entry_eq_ok_iff.2 (Disk.read_eq_ok_iff.1 hbytes)
    rw [on_has, Disk.has, Disk.leadsTo, hentry]
    rfl
  have hread : (readText (root.child manifestName)).on x = (.error (.decoding e), x) := by
    rw [readText, on_bind_ok (on_disk x), hbytes, on_bind_ok (on_ofExcept _ _ _), hdecode]
    rfl
  exact (on_bind_ok hthere).trans (on_bind_error hread)

theorem on_readIntegrations_of_isBroken {root : Path} {e : Text.Utf8.DecodeError}
    (h : x.disk.IsBroken (root.child manifestName) e) :
    (readIntegrations root).on x = (.error (.decoding e), x) :=
  on_bind_error (on_readManifest_of_isBroken h)

theorem faults_readManifest (s : Settings) (x : World) : Faults (readManifest s.root) x
    fun _ f => isTolerated f = true ∨ Unforeseen s x.disk f := by
  have hend : Faults (do
      let text ← readText (s.root.child manifestName)
      ofExcept Fault.manifest (Manifest.parse text)) x
      fun _ f => isTolerated f = true ∨ Unforeseen s x.disk f := by
    refine .bind ((Faults.readText _).mono ?_) fun text y htext => ?_
    · rintro y f ⟨-, ⟨e, rfl, -⟩ | ⟨e, rfl, he⟩⟩
      · exact .inl rfl
      · exact .inr (.bytes he)
    · obtain ⟨htext, rfl⟩ := on_readText_eq_ok htext
      refine .ofExcept fun e he => ?_
      rcases Manifest.failsOnly_parse text e he with hreported | ⟨e', rfl⟩
      · exact .inl hreported
      · exact .inr (.scalar htext he)
  refine .bind ((Faults.has _).mono ?_) fun there y hthere => ?_
  · rintro y f ⟨-, e, rfl, -⟩
    exact .inl rfl
  · obtain ⟨-, rfl⟩ := on_has_eq_ok hthere
    exact .guard (.inl rfl) hend

theorem faults_readIntegrations (s : Settings) (x : World) : Faults (readIntegrations s.root) x
    fun _ f => isTolerated f = true ∨ Unforeseen s x.disk f := by
  refine .bind (faults_readManifest s x) fun m y hm => ?_
  obtain ⟨rfl, hm⟩ := readManifest_eq_ok hm
  refine .bind (fun f z h => ?_) fun is z _ => ?_
  · rw [on_normalize] at h
    rcases hr : (m.normalize.run y.log).1 with e | is
    · rw [hr] at h
      cases h
      obtain ⟨-, herror⟩ := Normalizing.ensures_integrations m.models [] m.integrations y.log
      rcases herror e hr with hreported | hvalue
      · exact .inl hreported
      · exact .inr (.value hm hvalue)
    · rw [hr] at h
      cases h
  · exact .bind (.logAll _) fun _ _ _ => .pure _

theorem readIntegrations_eq_ok {y : World} {m : Manifest} {is : List Integration}
    (h : (readIntegrations s.root).on x = (.ok (m, is), y)) :
    y.disk = x.disk ∧ HasIntegrations s x.disk m is := by
  refine ⟨(reads_readIntegrations s.root).disk_eq h, ?_⟩
  obtain ⟨m', z, hm, h⟩ := on_bind_eq_ok h
  obtain ⟨is', z', his, h⟩ := on_bind_eq_ok h
  obtain ⟨_, _, _, h⟩ := on_bind_eq_ok h
  cases h
  obtain ⟨rfl, hm⟩ := readManifest_eq_ok hm
  rw [on_normalize] at his
  rcases hr : (m.normalize.run z.log).1 with e | is'
  · rw [hr] at his
    cases his
  · rw [hr] at his
    cases his
    exact ⟨hm, z.log, hr⟩

theorem faults_writeTypes {m : Manifest} {is : List Integration}
    (his : HasIntegrations s x.disk m is) : Faults (writeTypes s m is) x
    fun _ f => isTolerated f = true ∨ Unforeseen s x.disk f := by
  have hhost : Faults (hostTypes s) x fun _ f => isTolerated f = true ∨ Unforeseen s x.disk f := by
    unfold hostTypes
    split
    · exact .pure none
    · next p hp =>
      refine .map ((Faults.readText p).mono ?_)
      rintro y f ⟨-, ⟨e, rfl, -⟩ | ⟨e, rfl, he⟩⟩
      · exact .inl rfl
      · exact .inr (.host hp he)
  refine .bind hhost fun host y _ => .bind (.ofExcept ?_) fun text z htext => ?_
  · refine (TypeDefinitions.failsOnly_render m.models is host).mono ?_
    rintro failure (⟨e, rfl, he⟩ | ⟨e, rfl, f, hf, he⟩)
    · exact .inr (.value his.1 (.inr he))
    · exact .inr (.attributes his hf he)
  · obtain ⟨hrender, rfl⟩ := on_ofExcept_eq_ok htext
    refine .bind ((Faults.writeText _ _).mono ?_) fun _ _ _ => .pure _
    rintro y f (⟨-, e, rfl⟩ | ⟨e, rfl, he, -⟩)
    · exact .inl rfl
    · exact .inr (.half his hrender he)

theorem faults_optionsOr (s : Settings) (options : Option CompilerOptions) (x : World) :
    Faults (optionsOr s options) x fun y f =>
      options = none ∧ (isReported f = true ∨ BrokenOptions s y.disk f) := by
  cases options with
  | some o => exact .pure o
  | none =>
    have hread : Faults (readOptions s.compilerOptions) x fun y f =>
        isReported f = true ∨ BrokenOptions s y.disk f := by
      unfold readOptions
      split
      · exact .pure _
      · next p hp =>
        have hend : Faults (do
            let text ← readText p
            ofExcept Fault.options (CompilerOptions.parse p.toText text)) x
            fun y f => isReported f = true ∨ BrokenOptions s y.disk f := by
          refine .bind ((Faults.readText p).mono ?_) fun text y htext => ?_
          · rintro y f ⟨rfl, ⟨e, rfl, -⟩ | ⟨e, rfl, he⟩⟩
            · exact .inl rfl
            · exact .inr (.bytes hp he)
          · obtain ⟨htext, rfl⟩ := on_readText_eq_ok htext
            refine .ofExcept fun e he => ?_
            cases e with
            | limit c => exact .inr (.limit hp htext he)
            | _ => exact .inl rfl
        refine .bind ((Faults.has p).mono ?_) fun there y hthere => ?_
        · rintro y f ⟨-, e, rfl, -⟩
          exact .inl rfl
        · obtain ⟨-, rfl⟩ := on_has_eq_ok hthere
          exact .guard (.inl rfl) hend
    refine .mono (.bind hread fun o y _ => ?_) fun y f hf => ⟨rfl, hf⟩
    split_ifs
    · exact .bind (.log _ _) fun _ _ _ => .pure _
    · exact .pure _

/-- Where a project cannot be prepared, the user is told or the project holds the cause. -/
theorem faults_prepare (s : Settings) (options : Option CompilerOptions) (renew : Bool)
    (x : World) : Faults (prepare s options renew) x fun y f => isTolerated f = true ∨
      Unforeseen s x.disk f ∨
        options = none ∧ (isReported f = true ∨ BrokenOptions s y.disk f) := by
  have hend (m : Manifest) (is : List Integration) (y : World) : Faults (do
      let options ← optionsOr s options
      return (m, ⟨s.root, s.output, is, Integration.modelNames is, options⟩) :
      Work (Manifest × Context)) y fun y f => isTolerated f = true ∨ Unforeseen s x.disk f ∨
        options = none ∧ (isReported f = true ∨ BrokenOptions s y.disk f) :=
    .bind ((faults_optionsOr s options y).mono fun _ _ hf => .inr (.inr hf)) fun _ _ _ => .pure _
  refine .bind ((faults_readIntegrations s x).mono fun _ _ hf => hf.imp_right .inl) ?_
  rintro ⟨m, is⟩ y hread
  obtain ⟨hdisk, his⟩ := readIntegrations_eq_ok hread
  refine .bind ((Faults.has _).mono ?_) fun there z hthere => ?_
  · rintro y f ⟨-, e, rfl, -⟩
    exact .inl rfl
  · obtain ⟨-, rfl⟩ := on_has_eq_ok hthere
    rw [← hdisk] at his hend ⊢
    split_ifs
    · refine .bind ((faults_writeTypes his).mono fun _ _ hf => hf.imp_right .inl) ?_
      exact fun p z _ => .bind (.log _ _) fun _ z' _ => hend m is z'
    · exact hend m is z

theorem faults_plan (s : Settings) (script : Option String) (matching : Bool) (x : World) :
    Faults (plan s script matching) x fun y f =>
      isReported f = true ∨ Unforeseen s x.disk f ∨ BrokenOptions s y.disk f := by
  have hwanted (y : World) : Faults (wanted s.root script) y fun y f =>
      isReported f = true ∨ Unforeseen s x.disk f ∨ BrokenOptions s y.disk f := by
    cases script with
    | none => exact .bind (fun f y h => by cases h) fun _ _ _ => .pure _
    | some name =>
      refine .bind ((Faults.has _).mono ?_) fun there y _ => ?_
      · rintro y f ⟨-, e, rfl, -⟩
        exact .inl rfl
      · exact .guard (.inl rfl) (.pure _)
  refine .bind ((faults_prepare s none false x).mono fun _ _ hf => ?_) fun mc y _ =>
    .bind (hwanted y) fun ps z _ => ?_
  · rcases hf with hf | hf | ⟨-, hf | hf⟩
    · exact .inl (isReported_of_isTolerated hf)
    · exact .inr (.inl hf)
    · exact .inl hf
    · exact .inr (.inr hf)
  split_ifs
  · refine .bind (.bind (fun f y h => by cases h) fun _ _ _ => .pure _) fun all z' _ => ?_
    split
    · exact .bind (.throw (.inl rfl)) fun _ _ _ => .pure _
    · exact .pure _
  · exact .pure _

/-! ## Scripts -/

theorem faults_compileFlow (run : Runner) (c : Context) (script : Path) (type : String)
    (x : World) : Faults (compileFlow run c script type) x fun y f =>
      isOfScript f = true ∨ Uncaught run y.disk f := by
  refine .bind ((Faults.readText script).mono ?_) fun source y hsource => ?_
  · rintro y f ⟨-, ⟨e, rfl, -⟩ | ⟨e, rfl, -⟩⟩
    · exact .inl rfl
    · exact .inl rfl
  obtain ⟨hsource, rfl⟩ := on_readText_eq_ok hsource
  have hlint : Faults (lintFile script source type c.models) y fun y f =>
      isOfScript f = true ∨ Uncaught run y.disk f := by
    refine .bind (.ofExcept ?_) fun report _ _ => .bind (.logAll _) fun _ _ _ => .pure report
    refine (Lint.failsOnly_lint source type c.models script.toText).mono ?_
    rintro failure (⟨line, rfl⟩ | ⟨e, rfl, he⟩)
    · exact .inl rfl
    · exact .inr (.source hsource he)
  refine .bind hlint fun report z hreport => ?_
  -- Linting leaves the file system as it is, so that the source is still there.
  have hdisk : z.disk = y.disk := by
    have hreads : Reads (lintFile script source type c.models) :=
      .bind (.ofExcept _ _) fun _ => .bind (.logAll _) fun _ => .pure _
    exact hreads.disk_eq hreport
  rw [← hdisk] at hsource
  split_ifs
  · exact .pure _
  · refine .bind (.ofExcept fun f hf => ?_) fun output z' houtput => ?_
    · cases hown : isOfScript f with
      | true => exact .inl hown
      | false => exact .inr (.runner hsource hf hown)
    · obtain ⟨hrun, rfl⟩ := on_ofExcept_eq_ok houtput
      refine .bind ((Faults.change _).mono ?_) fun _ _ _ =>
        .bind ((Faults.writeText _ _).mono ?_) fun _ _ _ => .pure _
      · rintro y f ⟨-, e, rfl, -⟩
        exact .inl rfl
      · rintro y f (⟨-, e, rfl⟩ | ⟨e, rfl, he, -⟩)
        · exact .inl rfl
        · exact .inr (.output hrun he)

theorem faults_compileScript (run : Runner) (c : Context) (script : Path) (x : World) :
    Faults (compileScript run c script) x fun y f => Uncaught run y.disk f := by
  unfold compileScript
  rcases c.flowOf? script with _ | flow
  · exact .bind (.log _ _) fun _ _ _ => .pure _
  · refine .bind .outcome fun r y hr => ?_
    have hon := on_outcome_eq_ok hr
    rcases r with f | o
    · dsimp only
      split_ifs with hown
      · have hnot : ¬isOfScript f = true := by simpa using hown
        have huncaught : Uncaught run y.disk f :=
          (faults_compileFlow run c script flow.type x f y hon).resolve_left hnot
        exact Faults.bind (Faults.throw huncaught) fun _ _ h => by cases h
      · exact .bind (.log _ _) fun _ _ _ => .pure _
    · dsimp only
      split_ifs
      · exact .bind (.log _ _) fun _ _ _ => .pure _
      · exact .pure _

/-- Compiling scripts goes on, whatever is wrong with each, up to a fault that is not its own. -/
theorem faults_compileAll (run : Runner) (c : Context) (requested : Option String)
    (ps : List Path) (x : World) :
    Faults (compileAll run c requested ps) x fun y f => Uncaught run y.disk f := by
  induction ps generalizing x with
  | nil => exact .pure true
  | cons p ps ih =>
    exact .bind (faults_compileScript run c p x) fun _ y _ => .bind (ih y) fun _ _ _ => .pure _

end Build
end FlowPipeline
