import FlowPipeline.Proofs.ProjectInputs
import FlowPipeline.Proofs.WatchFaults

/-! # Reading the manifest again

When the manifest of a watched project has changed, the context of its handler and the type
definitions are renewed together, or neither is. As the options of the compiler are not read again,
nothing that can go wrong comes after the type definitions are written; only a text that cannot be
encoded leaves them empty. Then all scripts are compiled in the context that the handler has.
-/

namespace FlowPipeline
open Work

theorem Work.Reads.faults {α : Type} {w : Work α} (h : Reads w) (x : World) :
    Faults w x fun y _ => y.disk = x.disk := by
  intro f y hr
  rw [← h.disk x, hr]

theorem Disk.KeepsFile.text? {d d' : Disk} {p : Path} (h : d.KeepsFile d' p) {text : String}
    (ht : d.text? p = some text) : d'.text? p = some text := by
  obtain ⟨bytes, t, he, hd, rfl⟩ := Disk.text?_eq_some_iff.1 ht
  have hread := h.read bytes (Disk.read_eq_ok_iff.2 he)
  exact Disk.text?_eq_some_iff.2 ⟨bytes, t, Disk.read_eq_ok_iff.1 hread, hd, rfl⟩

namespace Build

variable {s : Settings} {x y : World} {m : Manifest} {is : List Integration} {c : Context}

/-- The declarations of the host that a project has: none if there is no file of them. -/
def HasHostTypes (s : Settings) (d : Disk) (host : Option String) : Prop :=
  s.hostTypes.mapM d.text? = some host

theorem hostTypes_eq_ok {host : Option String} (h : (hostTypes s).on x = (.ok host, y)) :
    y = x ∧ HasHostTypes s x.disk host := by
  unfold hostTypes at h
  unfold HasHostTypes
  cases hs : s.hostTypes with
  | none =>
    rw [hs] at h
    cases h
    exact ⟨rfl, rfl⟩
  | some p =>
    rw [hs] at h
    obtain ⟨text, htext, rfl⟩ := on_map_eq_ok h
    obtain ⟨hthere, rfl⟩ := on_readText_eq_ok htext
    exact ⟨rfl, by simp [hthere]⟩

/-- Nothing has changed, or a text that could not be encoded has left an empty file of the type
definitions. -/
def IsUnwritten (s : Settings) (d d' : Disk) (f : Fault) : Prop :=
  d' = d ∨ (∃ e, f = .encoding e) ∧ d'.read (s.root.child TypeDefinitions.fileName) = .ok []

/-- Where the type definitions cannot be made, nothing is written. -/
theorem faults_writeTypes_disk (hroot : s.root.IsPlain) (m : Manifest) (is : List Integration)
    (x : World) : Faults (writeTypes s m is) x fun y f => IsUnwritten s x.disk y.disk f := by
  refine .bind (((reads_hostTypes s).faults x).mono fun _ _ => .inl) fun host y hhost => ?_
  obtain ⟨rfl, -⟩ := hostTypes_eq_ok hhost
  refine .bind (((Reads.ofExcept _ _).faults y).mono fun _ _ => .inl) fun text z htext => ?_
  obtain ⟨-, rfl⟩ := on_ofExcept_eq_ok htext
  refine .bind ((Faults.writeText _ _).mono ?_) fun _ _ _ => .pure _
  rintro w f (⟨rfl, -⟩ | ⟨e, rfl, -, hwrite⟩)
  · exact .inl rfl
  · exact .inr ⟨⟨e, rfl⟩, Disk.read_write (hroot.child (by decide)) hwrite⟩

/-- The type definitions that a project is to have are in a file. -/
def HasTypes (s : Settings) (m : Manifest) (is : List Integration) (d d' : Disk) : Prop :=
  ∃ host text, HasHostTypes s d host ∧ TypeDefinitions.render m.models is host = .ok text ∧
    d'.Holds (s.root.child TypeDefinitions.fileName) text

theorem writeTypes_eq_ok (hroot : s.root.IsPlain) {p : Path}
    (h : (writeTypes s m is).on x = (.ok p, y)) : HasTypes s m is x.disk y.disk := by
  obtain ⟨host, z, hhost, h₁⟩ := on_bind_eq_ok h
  obtain ⟨text, z', htext, h₂⟩ := on_bind_eq_ok h₁
  obtain ⟨_, w, hw, h₃⟩ := on_bind_eq_ok h₂
  cases h₃
  obtain ⟨rfl, hhas⟩ := hostTypes_eq_ok hhost
  obtain ⟨hrender, rfl⟩ := on_ofExcept_eq_ok htext
  obtain ⟨bytes, hbytes, hwrite⟩ := on_writeText_eq_ok hw
  exact ⟨host, text, hhas, hrender, bytes, hbytes, Disk.read_write (hroot.child (by decide)) hwrite⟩

/-! ## Preparing a project again -/

variable {o : CompilerOptions}

/-- All that can fail when a project is prepared again comes before its type definitions are
written. -/
theorem faults_prepare_disk (hroot : s.root.IsPlain) (o : CompilerOptions) (x : World) :
    Faults (prepare s (some o) true) x fun y f => IsUnwritten s x.disk y.disk f := by
  refine .bind (((reads_readIntegrations s.root).faults x).mono fun _ _ => .inl) ?_
  rintro ⟨m, is⟩ y hread
  rw [← (readIntegrations_eq_ok hread).1]
  refine .bind (((Reads.has _).faults y).mono fun _ _ => .inl) fun there z hthere => ?_
  obtain ⟨-, rfl⟩ := on_has_eq_ok hthere
  refine .bind (faults_writeTypes_disk hroot m is z) fun p w _ => ?_
  -- What comes after the writing cannot fail, as the options are given.
  exact .bind (.log _ _) fun _ _ _ => .bind (.pure o) fun _ _ _ => .pure _

/-- A context and the type definitions are those of a manifest, which is the one of the project. -/
structure IsRenewed (s : Settings) (m : Manifest) (c : Context) (d d' : Disk) : Prop where
  integrations : HasIntegrations s d' m c.integrations
  models : c.models = Integration.modelNames c.integrations
  types : HasTypes s m c.integrations d d'

theorem IsRenewed.keeps {d d' d'' : Disk} (h : IsRenewed s m c d d')
    (hmanifest : d'.KeepsFile d'' (s.root.child manifestName))
    (htypes : d'.KeepsFile d'' (s.root.child TypeDefinitions.fileName)) :
    IsRenewed s m c d d'' := by
  obtain ⟨⟨⟨text, htext, hparse⟩, his⟩, hmodels, host, types, hhost, hrender, bytes, hb, hr⟩ := h
  exact ⟨⟨⟨text, hmanifest.text? htext, hparse⟩, his⟩, hmodels,
    host, types, hhost, hrender, bytes, hb, htypes.read bytes hr⟩

theorem spares_prepare (hroot : s.root.IsPlain) (hx : x.disk.IsConnected)
    {r : Except Fault (Manifest × Context)} {options : Option CompilerOptions} {renew : Bool}
    (h : (prepare s options renew).on x = (r, y)) : x.disk.Spares (IsMade s.root) y.disk := by
  have hleads := leads_prepare s options renew x
  rw [h] at hleads
  exact (hleads.mono fun _ _ => IsTypes.isAimed hroot).spares hx

theorem prepare_isRenewed (hroot : s.root.IsPlain) (hx : x.disk.IsConnected)
    (h : (prepare s (some o) true).on x = (.ok (m, c), y)) : IsRenewed s m c x.disk y.disk := by
  have hmanifest : x.disk.KeepsFile y.disk (s.root.child manifestName) :=
    (spares_prepare hroot hx h).keepsFile_of_isPlain hx (hroot.child (by decide))
      (not_isMade_manifest s.root)
  obtain ⟨⟨m', is⟩, z, hread, h₁⟩ := on_bind_eq_ok h
  obtain ⟨there, z', hthere, h₂⟩ := on_bind_eq_ok h₁
  obtain ⟨p, w, hwrite, h₃⟩ := on_bind_eq_ok h₂
  obtain ⟨_, w', hlog, h₄⟩ := on_bind_eq_ok h₃
  cases hlog
  obtain ⟨o', w'', ho, h₅⟩ := on_bind_eq_ok h₄
  cases ho
  cases h₅
  obtain ⟨hz, ⟨text, htext, hparse⟩, his⟩ := readIntegrations_eq_ok hread
  obtain ⟨-, rfl⟩ := on_has_eq_ok hthere
  have htypes := writeTypes_eq_ok hroot hwrite
  rw [hz] at htypes
  exact ⟨⟨⟨text, hmanifest.text? htext, hparse⟩, his⟩, rfl, htypes⟩

end Build

namespace Watch
open Build

variable {run : Runner} {s : Settings} {h h' : Handler} {e : Event} {x y z : World}

/-! ## Reloading -/

/-- A handler that watches a project is plain, whatever it has been told of. -/
theorem Watched.isPlain {d : Disk} {w : Wishes} (hd : d.IsConnected)
    (hs : Settings.resolve d w = .ok s) (hw : Watched run s h) : h.IsPlain := by
  induction hw with
  | start hr =>
    obtain ⟨_, _, _, hopened, -⟩ := start_eq_ok hr
    obtain ⟨hsettings, hc⟩ := opened_eq_ok (Settings.resolve_eq_ok hs).2.2 hopened
    exact ⟨hc, hsettings ▸ isPlain_root hd hs⟩
  | event _ hr ih => exact ih.handle hr

namespace Handler

theorem on_reload_of_ok {m : Manifest} {c : Context}
    (hr : (prepare h.settings h.options true).on x = (.ok (m, c), z)) :
    ∃ l, h.reload.on x = (.ok { h with context := c }, { z with log := l }) := by
  refine ⟨z.log ++ [(.info, "The " ++ manifestName ++ " was updated; recompiling every script.")],
    (on_bind_ok (on_outcome _ x)).trans ?_⟩
  rw [hr]
  rfl

theorem on_reload_of_tolerated {f : Fault}
    (hr : (prepare h.settings h.options true).on x = (.error f, z)) (hf : isTolerated f = true) :
    ∃ l, h.reload.on x = (.ok h, { z with log := l }) := by
  refine ⟨z.log ++ [(.error, "Keeping the previous configuration: " ++ f.message)],
    (on_bind_ok (on_outcome _ x)).trans ?_⟩
  rw [hr]
  simp only [hf]
  rfl

theorem on_reload_of_untolerated {f : Fault}
    (hr : (prepare h.settings h.options true).on x = (.error f, z)) (hf : isTolerated f = false) :
    h.reload.on x = (.error f, z) := by
  refine (on_bind_ok (on_outcome _ x)).trans ?_
  rw [hr]
  simp only [hf]
  rfl

theorem renewed_of_manifest (he : isManifest e.path = true) (hk : e.kind ≠ .removed) :
    h.renewed e = h.reload := by
  rw [renewed, if_pos (by simp [he, hk])]

/-- All scripts of a project are compiled in a context, in a world with the file system `d`. It ends
with the fault `f`, if with any. -/
def Recompiles (run : Runner) (c : Context) (d : Disk) (f : Option Fault) (y : World) : Prop :=
  ∃ z r, z.disk = d ∧ (compileAll run c none (listed d c.root)).on z = (r, y) ∧
    ∀ g, f = some g ↔ r = .error g

theorem recompiles_of_reload (run : Runner) (he : isManifest e.path = true) (hk : e.kind ≠ .removed)
    (hr : h.reload.on x = (.ok h', z)) :
    ∃ f y, (h.handle run e).on x = (.ok (h', f), y) ∧ Recompiles run h'.context z.disk f y := by
  rw [← renewed_of_manifest he hk] at hr
  have hrespond : h'.respond run e = h'.compileExisting run := by
    rw [respond, if_pos he, if_pos hk]
  have hexisting : (h'.compileExisting run).on z = (do
      let _ ← compileAll run h'.context none (listed z.disk h'.context.root)
      : Work PUnit).on z := rfl
  rcases hall : (compileAll run h'.context none (listed z.disk h'.context.root)).on z with
    ⟨g | b, y⟩
  · refine ⟨some g, y, on_handle_of_fault hr ?_, z, _, rfl, hall, by simp⟩
    rw [hrespond, hexisting, on_bind_error hall]
  · refine ⟨none, y, on_handle_of_ok hr (u := ⟨⟩) ?_, z, _, rfl, hall, by simp⟩
    rw [hrespond, hexisting, on_bind_ok hall]
    rfl

/-- Compiling scripts leaves all files as they were that are not named like compiled scripts. -/
theorem Recompiles.spares {c : Context} {d : Disk} {f : Option Fault}
    (h : Recompiles run c d f y) (hc : c.output.isAbsolute = true) (hd : d.IsConnected) :
    d.Spares IsCompiled y.disk := by
  obtain ⟨z, r, rfl, hall, -⟩ := h
  have hleads := leads_compileAll (covers_isCompiled run hc) none (listed z.disk c.root) z
  rw [hall] at hleads
  exact hleads.spares hd

/-- A handler that cannot be renewed is as before, and so are the type definitions, unless they
cannot be encoded. -/
theorem handle_of_prepare_error (run : Runner) (hp : h.IsPlain) (ho : h.options ≠ none)
    (hx : x.disk.IsConnected) (he : isManifest e.path = true) (hk : e.kind ≠ .removed) {g : Fault}
    (hr : (prepare h.settings h.options true).on x = (.error g, z)) :
    ∃ f y, (h.handle run e).on x = (.ok (h, f), y) ∧
      (x.disk.KeepsFile y.disk (h.settings.root.child TypeDefinitions.fileName) ∨
        (∃ err, g = .encoding err) ∧
          y.disk.read (h.settings.root.child TypeDefinitions.fileName) = .ok []) ∧
      (isTolerated g = true → Recompiles run h.context x.disk f y) ∧
      (isTolerated g = false → f = some g ∧ y = z) := by
  have hdisk : IsUnwritten h.settings x.disk z.disk g := by
    obtain ⟨o, ho⟩ := Option.ne_none_iff_exists'.1 ho
    rw [ho] at hr
    exact faults_prepare_disk hp.root o x g z hr
  cases hg : isTolerated g with
  | true =>
    have hsame : z.disk = x.disk := by
      refine hdisk.resolve_right ?_
      rintro ⟨⟨err, rfl⟩, -⟩
      cases hg
    obtain ⟨l, hreload⟩ := on_reload_of_tolerated hr hg
    obtain ⟨f, y, hhandle, hcompiled⟩ := recompiles_of_reload run he hk hreload
    have hcompiled : Recompiles run h.context x.disk f y := hsame ▸ hcompiled
    have hspares := hcompiled.spares hp.output_isAbsolute hx
    exact ⟨f, y, hhandle, .inl (hspares.keepsFile_of_isPlain hx (hp.root.child (by decide))
      (not_isCompiled_types h.settings.root)), fun _ => hcompiled, nofun⟩
  | false =>
    have hreload := on_reload_of_untolerated hr hg
    rw [← renewed_of_manifest he hk] at hreload
    refine ⟨some g, z, on_handle_of_stale hreload, hdisk.imp_left fun hsame => ?_, nofun,
      fun _ => ⟨rfl, rfl⟩⟩
    rw [hsame]
    exact .refl _ _

/-- A handler is renewed together with the type definitions. -/
theorem handle_of_prepare_ok (run : Runner) (hp : h.IsPlain) (ho : h.options ≠ none)
    (hx : x.disk.IsConnected) (he : isManifest e.path = true) (hk : e.kind ≠ .removed)
    {m : Manifest} {c : Context}
    (hr : (prepare h.settings h.options true).on x = (.ok (m, c), z)) :
    ∃ f y, (h.handle run e).on x = (.ok ({ h with context := c }, f), y) ∧
      IsRenewed h.settings m c x.disk y.disk ∧ Recompiles run c z.disk f y := by
  obtain ⟨l, hreload⟩ := on_reload_of_ok hr
  obtain ⟨f, y, hhandle, hcompiled⟩ := recompiles_of_reload run he hk hreload
  have hrenewed : IsRenewed h.settings m c x.disk z.disk := by
    obtain ⟨o, ho⟩ := Option.ne_none_iff_exists'.1 ho
    rw [ho] at hr
    exact prepare_isRenewed hp.root hx hr
  have hz : z.disk.IsConnected := (spares_prepare hp.root hx hr).connected
  have hspares : z.disk.Spares IsCompiled y.disk := by
    refine hcompiled.spares ?_ hz
    rw [(prepare_eq_ok hr).2.1]
    exact FlowPipeline.output_isAbsolute hp.root hp.output
  refine ⟨f, y, hhandle, hrenewed.keeps ?_ ?_, hcompiled⟩
  · exact hspares.keepsFile_of_isPlain hz (hp.root.child (by decide))
      fun hc => not_isMade_manifest h.settings.root (.inr hc)
  · exact hspares.keepsFile_of_isPlain hz (hp.root.child (by decide))
      (not_isCompiled_types h.settings.root)

end Handler

/-- An event of the manifest renews both the context of a handler and the type definitions, or
neither. Only a write that is begun and not completed, as the text cannot be encoded, leaves the
type definitions empty. If the manifest or a file is at fault, all scripts are compiled in the
context that is kept, as they are in the new one when all is renewed. Any other fault ends the
handling at once. -/
theorem Watched.reload_atomic {d : Disk} {w : Wishes} (hd : d.IsConnected)
    (hs : Settings.resolve d w = .ok s) (hw : Watched run s h) (hx : x.disk.IsConnected)
    (he : isManifest e.path = true) (hk : e.kind ≠ .removed) :
    ∃ r z h' f y, (prepare s h.options true).on x = (r, z) ∧
      (h.handle run e).on x = (.ok (h', f), y) ∧
      (∀ g, r = .error g → h' = h ∧
        (x.disk.KeepsFile y.disk (s.root.child TypeDefinitions.fileName) ∨
          (∃ err, g = .encoding err) ∧
            y.disk.read (s.root.child TypeDefinitions.fileName) = .ok []) ∧
        (Handler.isTolerated g = true → Handler.Recompiles run h.context x.disk f y) ∧
        (Handler.isTolerated g = false → f = some g ∧ y = z)) ∧
      ∀ m c, r = .ok (m, c) → h' = { h with context := c } ∧ IsRenewed s m c x.disk y.disk ∧
        Handler.Recompiles run c z.disk f y := by
  have hplain := hw.isPlain hd hs
  have hoptions := hw.keeps.options
  obtain rfl := hw.keeps.settings
  rcases hr : (prepare h.settings h.options true).on x with ⟨g | ⟨m, c⟩, z⟩
  · obtain ⟨f, y, hhandle, hkept⟩ :=
      Handler.handle_of_prepare_error run hplain hoptions hx he hk hr
    refine ⟨_, z, h, f, y, rfl, hhandle, ?_, nofun⟩
    rintro _ ⟨⟩
    exact ⟨rfl, hkept⟩
  · obtain ⟨f, y, hhandle, hrenewed⟩ :=
      Handler.handle_of_prepare_ok run hplain hoptions hx he hk hr
    refine ⟨_, z, _, f, y, rfl, hhandle, nofun, ?_⟩
    rintro _ _ ⟨⟩
    exact ⟨rfl, hrenewed⟩

open Sample

/-- The small project without its manifest. -/
def lost : World where
  disk := {
    entries := [
      (["p"], .dir), (["p", "a.ts"], .file []), (["p", "dist"], .dir),
      (["p", "models.ts"], .file [])]
    here := ["p"] }
  log := []

/-- A manifest that is missing leaves all as it is, and all scripts are compiled again. -/
theorem Watched.reload_atomic_lost : ∃ h, Watched echo settings h ∧
    ∃ f y, (h.handle echo manifestChanged).on lost = (.ok (h, f), y) ∧
      lost.disk.KeepsFile y.disk (root.child TypeDefinitions.fileName) ∧
      Handler.Recompiles echo h.context lost.disk f y := by
  obtain ⟨h, hw⟩ := watched_of_sample
  have hlost : lost.disk.IsConnected :=
    (Disk.isTree_of_entries (by decide) (by decide)).isConnected
  have hprepare : (prepare settings h.options true).on lost =
      (.error (.manifest (.missing (root.child manifestName).toText)), lost) := by
    refine on_bind_error (on_bind_error ?_)
    rfl
  obtain ⟨r, z, h', f, y, hr, hhandle, hkept, -⟩ :=
    hw.reload_atomic (isTree "" none).isConnected (resolve_eq "" none) hlost
      (e := manifestChanged) (by decide) (by decide)
  rw [hprepare] at hr
  cases hr
  obtain ⟨hh, htypes, hcompiled, -⟩ := hkept _ rfl
  rw [hh] at hhandle
  refine ⟨h, hw, f, y, hhandle, htypes.resolve_right ?_, hcompiled rfl⟩
  rintro ⟨⟨err, herr⟩, -⟩
  cases herr

end Watch
end FlowPipeline
