import FlowPipeline.Proofs.BuildFaults
import FlowPipeline.Proofs.DiskFrames
import FlowPipeline.Proofs.LintGate
import FlowPipeline.Proofs.ScriptPaths
import FlowPipeline.Proofs.Utf8RoundTrip

/-! # What a project is made from

Whatever is done with a project writes its type definitions, makes directories, and writes and
removes files with names that end in `.js`. So the manifest and the scripts of the flows keep their
content, in whatever order things are done. Only the script of a flow that shares its file with the
type definitions does not: it is written anew with them.
-/

namespace FlowPipeline
open Work Build Watch

/-! ## What builds aim at -/

namespace Build

/-- The names of a file that is made: that of the type definitions, or one that is named like a
compiled script. -/
def IsMade (root : Path) (ns : List String) : Prop :=
  ns = (root.child TypeDefinitions.fileName).names ∨ IsCompiled ns

variable {run : Runner} {s : Settings} {c : Context} {d : Disk} {e : Edit}

theorem IsTypes.isAimed (hroot : s.root.IsPlain) (h : IsTypes s d e) :
    e.IsAimed (IsMade s.root) d := by
  obtain ⟨bytes, rfl⟩ := h
  have hplain : (s.root.child TypeDefinitions.fileName).IsPlain := hroot.child (by decide)
  exact ⟨hplain.absolute, fun ns hl => .inl ((Disk.locate_eq_ok_iff hplain ns).1 hl).1⟩

/-- Compiled scripts are aimed at by their names, wherever they are. -/
theorem covers_isCompiled (run : Runner) (hc : c.output.isAbsolute = true) :
    Covers run c fun d e => e.IsAimed IsCompiled d := by
  have habsolute (script : Path) : (c.outputOf script).isAbsolute = true :=
    Path.isAbsolute_join hc _
  exact {
    makeDirs := fun _ script => (Path.isAbsolute_parent _).trans (habsolute script)
    write := fun _ script _ _ _ _ => ⟨habsolute script, fun _ hl => isCompiled_of_locate hl⟩
    remove := fun _ script => ⟨habsolute script, fun _ hl => isCompiled_of_locate hl⟩ }

theorem covers_isMade (run : Runner) (root : Path) (hc : c.output.isAbsolute = true) :
    Covers run c fun d e => e.IsAimed (IsMade root) d :=
  (covers_isCompiled run hc).mono fun _ _ he => he.mono fun _ => .inr

theorem not_isMade_manifest (root : Path) : ¬IsMade root (root.child manifestName).names := by
  rintro (htypes | hcompiled)
  · have hlast := (List.append_inj' htypes rfl).2
    simp only [List.cons.injEq, and_true] at hlast
    exact absurd hlast (by decide)
  · refine not_isCompiled_append (fun k => ?_) root.names hcompiled
    show "nango.y" ++ "aml" ≠ k ++ ".js"
    exact Path.append_ne_append "nango.y" k (by decide) (by decide)

/-- Where the script of a flow is looked for. -/
def scriptOf (root : Path) (flow : String) : Path := root.join (Path.ofString (flow ++ ".ts"))

/-- The script of a flow is made only if it is the file of the type definitions. -/
theorem not_isMade_script {root : Path} (hroot : root.IsPlain) {flow : String}
    (h : d.resolve (scriptOf root flow) ≠ d.resolve (root.child TypeDefinitions.fileName)) :
    ¬IsMade root (d.resolve (scriptOf root flow)).names := by
  obtain ⟨l, n, hn⟩ := Path.names_join_append flow ".ts" root (by decide) (by decide)
  obtain ⟨m, hm⟩ := d.resolve_append hn (Path.append_ne n (by decide))
  intro hmade
  have hnames : (d.resolve (scriptOf root flow)).names = m ++ [n ++ ".ts"] := hm
  rw [hnames] at hmade
  have htypes := hmade.resolve_right (not_isCompiled_append
    (fun k => Path.append_ne_append n k (by decide) (by decide)) m)
  refine h ?_
  rw [d.resolve_of_isPlain (hroot.child (by decide)), ← htypes, ← hnames]
  rfl

end Build

/-! ## Operations -/

/-- What is done with projects: the steps of a run, and the type definitions being made anew. -/
inductive Operation where
  | step (st : Step)
  | generateTypes (w : Wishes)

namespace Operation

/-- Does an operation, where `o` is the handler at work, and says which one is afterwards. -/
def perform (run : Runner) (o : Option Handler) : Operation → Work (Option Handler)
  | step st => st.perform run o
  | generateTypes w => do
    let _ ← Build.generateTypes (← Step.resolved w)
    return o

/-- The settings of the project that an operation works on. -/
def settings (o : Option Handler) : Operation → Work (Option Settings)
  | step st => st.settings o
  | generateTypes w => some <$> Step.resolved w

/-- The names of the files that an operation makes in the project that it works on. -/
def Makes (x : World) (o : Option Handler) (op : Operation) (ns : List String) : Prop :=
  ∀ s, (op.settings o).on x = (.ok (some s), x) → IsMade s.root ns

end Operation

/-- A world, and the handler at work in it, that operations come to. All file systems on the way are
connected. -/
inductive Operated (run : Runner) : World → Option Handler → Prop where
  | start {d : Disk} (hd : d.IsConnected) : Operated run { disk := d, log := [] } none
  /-- Others change the file system. -/
  | disturbed {x : World} {o : Option Handler} {d : Disk} (hx : Operated run x o)
    (hd : d.IsConnected) : Operated run { x with disk := d } o
  /-- An operation is done. One that fails leaves the handler that was there. -/
  | operation {x : World} {o : Option Handler} (hx : Operated run x o) (op : Operation) :
    Operated run ((op.perform run o).on x).2 (((op.perform run o).on x).1.toOption.getD o)

/-- A handler whose project is at a plain path. -/
structure Watch.Handler.IsPlain (h : Handler) : Prop extends h.Coherent where
  root : h.settings.root.IsPlain

/-- A connected file system, with a plain handler at work if there is one. -/
structure IsOrderly (x : World) (o : Option Handler) : Prop where
  connected : x.disk.IsConnected
  handler : ∀ h, o = some h → h.IsPlain

variable {run : Runner} {s : Settings} {x y : World} {o o' : Option Handler}

theorem Watch.Handler.IsPlain.handle {h h' : Handler} (hp : h.IsPlain) {e : Event}
    {f : Option Fault} (hr : (h.handle run e).on x = (.ok (h', f), y)) : h'.IsPlain := by
  refine ⟨hp.toCoherent.handle hr, ?_⟩
  rcases Handler.handle_eq_ok hr with rfl | ⟨z, hn⟩
  · exact hp.root
  · rw [(hp.toCoherent.renewed hn).1]
    exact hp.root

/-! ## What operations aim at -/

theorem Operation.leads_resolved {α : Type} {f : Settings → Work α} {w : Wishes} {op : Operation}
    (hx : x.disk.IsConnected) (hs : op.settings o = some <$> Step.resolved w)
    (hl : ∀ s, s.root.IsPlain → s.output = s.root.child "dist" →
      x.Leads (fun d e => e.IsAimed (IsMade s.root) d) ((f s).on x).2) :
    x.Leads (fun d e => e.IsAimed (op.Makes x o) d) ((Step.resolved w >>= f).on x).2 := by
  refine Step.leads_resolved_bind fun s hr => ?_
  obtain ⟨-, hresolve⟩ := Step.on_resolved_eq_ok hr
  refine (hl s (isPlain_root hx hresolve) (Settings.resolve_eq_ok hresolve).2.2).mono ?_
  refine fun d e he => he.mono fun ns hns s' hs' => ?_
  rw [hs, on_map, hr] at hs'
  cases hs'
  exact hns

section

variable (hroot : s.root.IsPlain) (hout : s.output = s.root.child "dist")
include hroot hout

theorem output_isAbsolute : s.output.isAbsolute = true := by
  rw [hout]
  exact hroot.absolute

theorem leads_compile_isAimed (script : Option String) (matching : Bool) :
    x.Leads (fun d e => e.IsAimed (IsMade s.root) d)
      ((Build.compile run s script matching).on x).2 := by
  have habsolute := output_isAbsolute hroot hout
  refine Build.leads_compile (fun _ _ => IsTypes.isAimed hroot) (fun _ => habsolute) ?_ _ _
  intro m c y hp
  exact covers_isMade run s.root ((prepare_eq_ok hp).2.1 ▸ habsolute)

theorem leads_start_isAimed :
    x.Leads (fun d e => e.IsAimed (IsMade s.root) d) ((Watch.start run s).on x).2 := by
  have habsolute := output_isAbsolute hroot hout
  refine Watch.leads_start (fun _ _ => IsTypes.isAimed hroot) (fun _ => habsolute) ?_
  intro h y ho
  obtain ⟨rfl, hc⟩ := opened_eq_ok hout ho
  exact covers_isMade run _ (hc.contextOutput ▸ habsolute)

end

theorem Watch.Handler.IsPlain.output_isAbsolute {h : Handler} (hp : h.IsPlain) :
    h.context.output.isAbsolute = true := by
  rw [hp.contextOutput]
  exact FlowPipeline.output_isAbsolute hp.root hp.output

theorem leads_handle_isAimed {h : Handler} (hp : h.IsPlain) (e : Event) :
    x.Leads (fun d e => e.IsAimed (IsMade h.settings.root) d) ((h.handle run e).on x).2 := by
  refine Handler.leads_handle (fun _ _ => IsTypes.isAimed hp.root) fun h' y hr => ?_
  obtain ⟨hsettings, hc⟩ := hp.toCoherent.renewed hr
  have hp' : h'.IsPlain := ⟨hc, hsettings ▸ hp.root⟩
  exact covers_isMade run _ hp'.output_isAbsolute

/-- An operation aims at no files but those that it makes. -/
theorem Operation.leads_makes (hx : IsOrderly x o) (op : Operation) :
    x.Leads (fun d e => e.IsAimed (op.Makes x o) d) ((op.perform run o).on x).2 := by
  have hown {h : Handler} {st : Step} (hs : st.settings o = pure (some h.settings))
      {ns : List String} (hns : IsMade h.settings.root ns) : (Operation.step st).Makes x o ns := by
    intro s hs'
    rw [settings, hs] at hs'
    cases hs'
    exact hns
  -- Some operations find the settings first, the others have those of the handler at work.
  cases op with
  | generateTypes w =>
    refine leads_resolved hx.connected rfl fun s hroot _ => leads_bind ?_ fun _ _ _ => .refl _
    exact (leads_generateTypes s x).mono fun _ _ => IsTypes.isAimed hroot
  | step st =>
    cases st with
    | compile w script matching =>
      exact leads_resolved hx.connected rfl fun s hroot hout =>
        leads_bind (leads_compile_isAimed hroot hout script matching) fun _ _ _ => .refl _
    | package w version wanted now =>
      refine leads_resolved hx.connected rfl fun s hroot hout => leads_bind ?_ fun _ _ _ => .refl _
      exact Deployment.leads_ofProject (leads_compile_isAimed hroot hout none false) _ _ _
    | watch w =>
      exact leads_resolved hx.connected rfl fun s hroot hout =>
        leads_bind (leads_start_isAimed hroot hout) fun _ _ _ => .refl _
    | attach w options =>
      refine leads_resolved hx.connected rfl fun s hroot _ => leads_bind ?_ fun _ _ _ => .refl _
      exact (leads_handler s options x).mono fun _ _ => IsTypes.isAimed hroot
    | compileExisting =>
      rcases o with _ | h
      · exact .refl x
      · have hp := hx.handler h rfl
        refine leads_bind ?_ fun _ _ _ => .refl _
        refine (Handler.leads_compileExisting_of
          (covers_isMade run h.settings.root hp.output_isAbsolute) x).mono ?_
        exact fun d e he => he.mono fun ns => hown rfl
    | event e =>
      rcases o with _ | h
      · exact .refl x
      · refine leads_bind ?_ fun _ _ _ => .refl _
        refine (leads_handle_isAimed (hx.handler h rfl) e).mono ?_
        exact fun d e he => he.mono fun ns => hown rfl

/-! ## Runs -/

theorem IsOrderly.perform (hx : IsOrderly x o) {op : Operation}
    (hr : (op.perform run o).on x = (.ok o', y)) : ∀ h, o' = some h → h.IsPlain := by
  cases op with
  | generateTypes w =>
    obtain ⟨s, z, -, hr⟩ := on_bind_eq_ok hr
    obtain ⟨p, z', -, hr⟩ := on_bind_eq_ok hr
    cases hr
    exact hx.handler
  | step st =>
    refine Step.perform_handler hx.handler (fun hs hh => ?_) (fun hp hr => hp.handle hr) hr
    obtain ⟨-, hresolve⟩ := Step.on_resolved_eq_ok hs
    obtain ⟨hsettings, hc⟩ := handler_eq_ok (Settings.resolve_eq_ok hresolve).2.2 hh
    exact ⟨hc, hsettings ▸ isPlain_root hx.connected hresolve⟩

theorem Operated.isOrderly (hx : Operated run x o) : IsOrderly x o := by
  induction hx with
  | start hd => exact ⟨hd, by simp⟩
  | disturbed _ hd ih => exact ⟨hd, ih.handler⟩
  | @operation x o hx op ih =>
    refine ⟨((op.leads_makes ih).spares ih.connected).connected, ?_⟩
    rcases hr : (op.perform run o).on x with ⟨f | o', y⟩
    · exact ih.handler
    · exact ih.perform hr

theorem IsOrderly.isPlain_root (hx : IsOrderly x o) {op : Operation}
    (hs : (op.settings o).on x = (.ok (some s), y)) : s.root.IsPlain := by
  have hresolved {w : Wishes} (hr : (some <$> Step.resolved w).on x = (.ok (some s), y)) :
      s.root.IsPlain := by
    rw [on_map] at hr
    rcases hw : (Step.resolved w).on x with ⟨f | s', z⟩
    · rw [hw] at hr
      cases hr
    · rw [hw] at hr
      cases hr
      exact Build.isPlain_root hx.connected (Step.on_resolved_eq_ok hw).2
  have hown (ho : o.map Handler.settings = some s) : s.root.IsPlain := by
    obtain ⟨h, rfl, rfl⟩ := Option.map_eq_some_iff.1 ho
    exact (hx.handler h rfl).root
  cases op with
  | generateTypes w => exact hresolved hs
  | step st =>
    cases st with
    | compile | package | watch | attach => exact hresolved hs
    | compileExisting | event => exact hown (Except.ok.inj (Prod.mk.inj hs).1)

/-- Whatever has been done before and others have changed, an operation leaves the manifest of its
project as it was, be it done or has it failed. It also leaves the scripts of all flows as they
were, but for one that is the file of the type definitions. -/
theorem Operated.keeps_inputs (hx : Operated run x o) {op : Operation}
    (hs : (op.settings o).on x = (.ok (some s), x)) {r : Except Fault (Option Handler)}
    (hr : (op.perform run o).on x = (r, y)) :
    x.disk.KeepsFile y.disk (s.root.child manifestName) ∧
      ∀ flow, x.disk.resolve (scriptOf s.root flow) ≠
          x.disk.resolve (s.root.child TypeDefinitions.fileName) →
        x.disk.KeepsFile y.disk (scriptOf s.root flow) := by
  have horderly := hx.isOrderly
  have hroot := horderly.isPlain_root hs
  have hspares : x.disk.Spares (IsMade s.root) y.disk := by
    have hleads : x.Leads _ ((op.perform run o).on x).2 := op.leads_makes horderly
    rw [hr] at hleads
    exact (hleads.spares horderly.connected).mono fun ns hns => hns s hs
  constructor
  · exact hspares.keepsFile_of_isPlain horderly.connected (hroot.child (by decide))
      (not_isMade_manifest s.root)
  · exact fun flow hne => hspares.keepsFile horderly.connected (not_isMade_script hroot hne)

open Sample

theorem Operated.keeps_inputs_watch : ∃ r y,
    (Operation.perform echo none (.step (.watch wishes))).on (fresh "" none) = (r, y) ∧
      (fresh "" none).disk.KeepsFile y.disk (root.child manifestName) ∧
      (fresh "" none).disk.KeepsFile y.disk (scriptOf root "a") := by
  have hs : (Operation.settings none (.step (.watch wishes))).on (fresh "" none) =
      (.ok (some settings), fresh "" none) := by
    show (some <$> Step.resolved wishes).on (fresh "" none) = _
    rw [on_map, on_resolved]
    rfl
  have hne : (fresh "" none).disk.resolve (scriptOf root "a") ≠
      (fresh "" none).disk.resolve (root.child TypeDefinitions.fileName) := by decide
  rcases hr : (Operation.perform echo none (.step (.watch wishes))).on (fresh "" none) with ⟨r, y⟩
  have hkeeps := keeps_inputs (.start (isTree "" none).isConnected) hs hr
  exact ⟨r, y, rfl, hkeeps.1, hkeeps.2 "a" hne⟩

/-- A project whose only flow has its script where the type definitions are. -/
def shared : World where
  disk := {
    entries := [
      (["p"], .dir), (["p", "models.ts"], .file (bytesOf "await f();\n")),
      (["p", "nango.yaml"],
        .file (bytesOf "integrations:\n  i:\n    models:\n      type: action\n"))]
    here := ["p"] }
  log := []

theorem isConnected_shared : shared.disk.IsConnected :=
  (Disk.isTree_of_entries (by decide) (by decide)).isConnected

theorem readIntegrations_shared : ∃ m is z,
    (readIntegrations settings.root).on shared = (.ok (m, is), z) ∧
      (∃ f ∈ is.flatMap Integration.flows, f.name = "models") ∧
      ∃ text, TypeDefinitions.render m.models is none = .ok text := by
  have hread : ((readIntegrations settings.root).on shared).1.toOption.map (fun mi =>
      ((mi.2.flatMap Integration.flows).map Flow.name,
        (TypeDefinitions.render mi.1.models mi.2 none).toOption.isSome)) =
      some (["models"], true) := by
    decide +kernel
  obtain ⟨⟨m, is⟩, z, hr, hread⟩ := on_eq_ok_of_map hread
  obtain ⟨hnames, hsome⟩ := Prod.mk.inj hread
  obtain ⟨text, htext⟩ := Option.isSome_iff_exists.1 hsome
  exact ⟨m, is, z, hr, List.mem_map.1 (hnames ▸ List.mem_singleton_self "models"), text,
    Except.eq_ok_of_toOption htext⟩

/-- The type definitions are written if there is a text for them. -/
theorem disk_generateTypes {w : Wishes} {m : Manifest} {is : List Integration} {text : String}
    {z : World} {d : Disk} (hs : (Step.resolved w).on x = (.ok s, x))
    (hread : (readIntegrations s.root).on x = (.ok (m, is), z))
    (hhost : s.hostTypes = none) (hrender : TypeDefinitions.render m.models is none = .ok text)
    (hwrite : x.disk.write (s.root.child TypeDefinitions.fileName) (bytesOf text) = .ok d) :
    ((Operation.perform run o (.generateTypes w)).on x).2.disk = d := by
  have hz : z.disk.write (s.root.child TypeDefinitions.fileName) (bytesOf text) = .ok d := by
    rw [(readIntegrations_eq_ok hread).1, hwrite]
  have hnone : (hostTypes s).on z = (.ok none, z) := by
    rw [hostTypes, hhost]
    rfl
  have htext : (ofExcept typesFault (TypeDefinitions.render m.models is none)).on z =
      (.ok text, z) := by
    rw [on_ofExcept, hrender]
    rfl
  have hwritten : ((writeTypes s m is).on z).2.disk = d := by
    rw [writeTypes, on_bind_ok hnone, on_bind_ok htext, on_bind, on_writeText, hz]
    rcases Text.Utf8.encoded text with e | bytes <;> rfl
  have hmade : ((generateTypes s).on x).2.disk = d := by
    rw [generateTypes, on_mapFault, on_bind_ok hread]
    exact hwritten
  rw [Operation.perform, on_bind_ok hs, on_bind]
  rcases hr : (generateTypes s).on x with ⟨e | p, y⟩ <;> rw [hr] at hmade <;> exact hmade

theorem Text.joined_concat (sep : String) {ss : List String} (h : ss ≠ []) (s : String) :
    joined sep (ss ++ [s]) = joined sep ss ++ (sep ++ s) := by
  refine String.toList_inj.1 ?_
  simp only [joined, String.toList_append, String.toList_ofList, List.map_append, List.map_cons,
    List.map_nil]
  induction ss with
  | nil => exact absurd rfl h
  | cons t ss ih =>
    cases ss with
    | nil => simp [List.intercalate]
    | cons t' ss =>
      have hrest := ih (List.cons_ne_nil t' ss)
      simp only [List.map_cons, List.cons_append] at hrest ⊢
      rw [List.intercalate_cons_cons, hrest, List.intercalate_cons_cons]
      simp only [List.append_assoc]

theorem TypeDefinitions.render_ends {models : Mapping} {is : List Integration}
    {host : Option String} {text : String} (h : render models is host = .ok text) :
    ∃ cs, text.toList = cs ++ " as const;\n".toList := by
  obtain ⟨own, -, h⟩ := Except.eq_ok_of_bind h
  obtain ⟨flows, -, h⟩ := Except.eq_ok_of_bind h
  cases h
  rw [Text.joined_concat "\n" (by simp)]
  simp only [String.toList_append, ← List.append_assoc]
  exact ⟨_, rfl⟩

/-- Another text is written as other bytes, unless the bytes are none. -/
theorem Work.bytesOf_ne {source text : String} {bytes : List UInt8}
    (hbytes : Text.Utf8.encoded source = .ok bytes) (hnil : bytes ≠ []) (hne : text ≠ source) :
    bytesOf text ≠ bytes := by
  rintro rfl
  rcases htext : Text.Utf8.encoded text with e | bytes
  · exact hnil (by simp [bytesOf, htext])
  · rw [bytesOf_eq htext] at hbytes
    have hdecoded := Text.Utf8.decode_of_encoded hbytes
    rw [Text.Utf8.decode_of_encoded htext] at hdecoded
    exact hne (Except.ok.inj hdecoded)

/-- The script of a flow that is named like the type definitions is written anew with them. -/
theorem Operated.not_keeps_script : Operated echo shared none ∧
    (Operation.settings none (.generateTypes wishes)).on shared = (.ok (some settings), shared) ∧
    ∃ r y, (Operation.perform echo none (.generateTypes wishes)).on shared = (r, y) ∧
      ∃ m is, HasIntegrations settings shared.disk m is ∧ ∃ f ∈ is.flatMap Integration.flows,
        ∃ before after, before ≠ after ∧
          shared.disk.read (scriptOf settings.root f.name) = .ok before ∧
          y.disk.read (scriptOf settings.root f.name) = .ok after := by
  obtain ⟨m, is, z, hread, ⟨f, hf, hname⟩, text, hrender⟩ := readIntegrations_shared
  obtain ⟨bytes, hbytes, hnil⟩ : ∃ bytes, Text.Utf8.encoded "await f();\n" = .ok bytes ∧
      bytes ≠ [] := ⟨_, rfl, by decide⟩
  have hwrite : shared.disk.write (settings.root.child TypeDefinitions.fileName) (bytesOf text) =
      .ok (shared.disk.set ["p", "models.ts"] (.file (bytesOf text))) := rfl
  have hne : text ≠ "await f();\n" := by
    rintro rfl
    obtain ⟨cs, hcs⟩ := TypeDefinitions.render_ends hrender
    have hends := (List.nil_append _).trans hcs
    exact absurd (List.append_inj' hends (by decide)).2 (by decide)
  refine ⟨.start isConnected_shared, rfl, ?_⟩
  have hdisk : ((Operation.perform echo none (.generateTypes wishes)).on shared).2.disk =
      shared.disk.set ["p", "models.ts"] (.file (bytesOf text)) :=
    disk_generateTypes rfl hread rfl hrender hwrite
  rcases hr : (Operation.perform echo none (.generateTypes wishes)).on shared with ⟨r, y⟩
  rw [hr] at hdisk
  refine ⟨r, y, rfl, m, is, (readIntegrations_eq_ok hread).2, f, hf, bytes, bytesOf text,
    (bytesOf_ne hbytes hnil hne).symm, ?_, ?_⟩
  · rw [hname, ← bytesOf_eq hbytes]
    rfl
  · rw [hname, hdisk]
    rfl

end FlowPipeline
