import FlowPipeline.Proofs.Artifacts
import FlowPipeline.Proofs.WatchEvents

/-! # Watching a project

A session watches a project: others change its files, and what has changed at the top level is
reported. Every script that is listed, watched and passes has an up-to-date compiled form after each
batch of changes. While a batch is handled, this holds of all scripts but those whose events are
still to come.
-/

namespace FlowPipeline.Watch
open Work Build

/-- A session that has started in the world `w`, with the contexts that its handler has had. Batches
are handled without a fault, and others leave the output directory alone. -/
inductive Session (run : Runner) (s : Settings) (w : World) :
    List Context → Handler → World → Prop where
  | start {wishes : Wishes} {h : Handler} {x : World} (tree : w.disk.IsTree)
    (resolved : Settings.resolve w.disk wishes = .ok s)
    (started : (start run s).on w = (.ok h, x)) :
    Session run s w [h.context] h x
  | batch {cs : List Context} {h h' : Handler} {x y : World} {d : Disk}
    {changes : List (Change × Path)} (before : Session run s w cs h x) (tree : d.IsTree)
    (kept : ∀ ns, s.output.names <+: ns → d.find? ns = x.disk.find? ns)
    (reported : Reports s.root x.disk d changes)
    (handled : (h.handleChanges run (changes.filter fun c => accepts d s.root c.2)).on
      { x with disk := d } = (.ok (h', none), y)) :
    Session run s w (h'.context :: cs) h' y

/-- Others than a handler see the same at the top level of a project, but for what the handler
writes. -/
def SameSources (root : Path) (d d' : Disk) : Prop :=
  ∀ ns, ¬root.names ++ ["dist"] <+: ns → ¬root.names ++ [TypeDefinitions.fileName] <+: ns →
    d'.find? ns = d.find? ns

/-- All is well in a session, but for the scripts of some names. -/
structure Kept (run : Runner) (s : Settings) (dirty : String → Prop) (h : Handler) (d : Disk) :
    Prop where
  settings : h.settings = s
  coherent : h.Coherent
  root : d.entryAt? s.root = some .dir
  output : d.entryAt? s.output = some .dir
  names : ∀ n, (d.find? (s.root.names ++ [n])).isSome → Path.IsName n
  current : ∀ n, Path.IsName n → isListed n = true → isScript (s.root.child n) = true → ¬dirty n →
    Current run h.context (s.root.child n) d

variable {run : Runner} {s : Settings} {dirty : String → Prop} {h h' : Handler} {x y : World}

theorem Kept.plain (hroot : s.root.IsPlain) {d : Disk} (hk : Kept run s dirty h d) :
    h.context.IsPlain ∧ h.context.root = s.root ∧ h.context.output = s.output := by
  have hcr : h.context.root = s.root := by rw [hk.coherent.contextRoot, hk.settings]
  have hco : h.context.output = s.output := by rw [hk.coherent.contextOutput, hk.settings]
  refine ⟨⟨by rwa [hcr], ?_⟩, hcr, hco⟩
  rw [hco, ← hk.settings, hk.coherent.output, hk.settings, hcr]

theorem Kept.mono {dirty' : String → Prop} {d : Disk} (hk : Kept run s dirty h d)
    (hd : ∀ n, isScript (s.root.child n) = true → dirty n → dirty' n) : Kept run s dirty' h d :=
  { hk with current := fun n hn hl hw hnot => hk.current n hn hl hw fun hdn => hnot (hd n hw hdn) }

/-! ## Events of scripts -/

section

variable {d d' : Disk} {m : String}

theorem SameSources.of_artifact {c : Context} (hc : c.IsPlain) (hm : Path.IsName m)
    (hoff : Disk.AgreesOff (c.outputOf (c.root.child m)).names d d') :
    SameSources c.root d d' := by
  intro ns hdist _
  refine hoff ns fun hpre => hdist (.trans ?_ hpre)
  rw [hc.names_outputOf hm]
  exact ⟨[(c.root.child m).stem ++ ".js"], by simp⟩

/-- If only the compiled form of a watched script changes, all other scripts stay up to date. -/
theorem Kept.of_artifact (hk : Kept run s dirty h d) (hroot : s.root.IsPlain)
    (hm : Path.IsName m) (hw : isScript (s.root.child m) = true)
    (hoff : Disk.AgreesOff (h.context.outputOf (s.root.child m)).names d d')
    (hcur : Current run h.context (s.root.child m) d') :
    Kept run s (fun n => dirty n ∧ n ≠ m) h d' := by
  obtain ⟨hc, hcr, hco⟩ := hk.plain hroot
  rw [← hcr] at hoff hcur hw
  refine ⟨hk.settings, hk.coherent, ?_, ?_, fun n hn => ?_, fun n hn hl hwn hnot => ?_⟩
  · rw [(hoff.along ?_).entryAt? hroot, hk.root]
    rw [hc.names_outputOf hm, hcr]
    exact not_append_prefix (by simp)
  · rw [← hco]
    exact outputDir_of_agreesOff hc hm hoff (hco ▸ hk.output)
  · rw [hoff] at hn
    · exact hk.names n hn
    · rw [← hcr]
      exact output_not_prefix_script hc hm n
  · rw [← hcr] at hwn ⊢
    by_cases he : n = m
    · rwa [he]
    · have hold := hk.current n hn hl (hcr ▸ hwn) fun hd => hnot ⟨hd, he⟩
      rw [← hcr] at hold
      refine hold.frame hc hn hoff (output_not_prefix_script hc hm n)
        (output_not_prefix_output hc hm hn fun hs => he ?_)
      exact (eq_of_stem_eq hw hwn hs).symm

end

theorem Kept.compileScript (hk : Kept run s dirty h x.disk) (hroot : s.root.IsPlain) {m : String}
    (hm : Path.IsName m) (hw : isScript (s.root.child m) = true) {o : Outcome}
    (hr : (Build.compileScript run h.context (s.root.child m)).on x = (.ok o, y)) :
    Kept run s (fun n => dirty n ∧ n ≠ m) h y.disk ∧ SameSources s.root x.disk y.disk := by
  obtain ⟨hc, hcr, hco⟩ := hk.plain hroot
  have hout : x.disk.entryAt? h.context.output = some .dir := hco ▸ hk.output
  rw [← hcr] at hr
  have hoff := compileScript_agreesOff hc hm hout hr
  have hcur := compileScript_current hc hm hout hr
  have hsame := SameSources.of_artifact hc hm hoff
  rw [hcr] at hoff hcur hsame
  exact ⟨hk.of_artifact hroot hm hw hoff hcur, hsame⟩

/-- A compiled form is gone when it has been removed, and nothing else is. -/
theorem removeCompiled_eq_ok {c : Context} {script : Path} (hp : (c.outputOf script).IsPlain)
    {b : Bool} (hr : (removeCompiled c script).on x = (.ok b, y)) :
    Disk.AgreesOff (c.outputOf script).names x.disk y.disk ∧
      y.disk.entryAt? (c.outputOf script) = none ∧
      ∀ ns e, y.disk.find? ns = some e → x.disk.find? ns = some e := by
  obtain ⟨there, z, hh, hr⟩ := on_bind_eq_ok hr
  obtain ⟨hhas, rfl⟩ := on_has_eq_ok hh
  have hsome := Disk.has_eq_ok_iff hhas
  cases there with
  | false =>
    cases hr
    exact ⟨.refl _ _, by simpa using hsome.symm, fun _ _ h => h⟩
  | true =>
    simp only [if_true] at hr
    obtain ⟨_, w, hrem, hr⟩ := on_bind_eq_ok hr
    cases hr
    have hd := on_change_eq_ok hrem
    rw [Edit.apply] at hd
    refine ⟨.of_remove hp hd, Option.eq_none_iff_forall_ne_some.2 fun e he => ?_, fun ns e he => ?_⟩
    · obtain ⟨-, -, hf⟩ := (Disk.entryAt?_eq_some_iff_of_plain hp).1 he
      rw [Disk.find?_remove hp hd, if_pos (List.prefix_refl _)] at hf
      cases hf
    · rw [Disk.find?_remove hp hd] at he
      split_ifs at he
      exact he

theorem Kept.removeCompiled (hk : Kept run s dirty h x.disk) (hroot : s.root.IsPlain) {m : String}
    (hm : Path.IsName m) (hw : isScript (s.root.child m) = true)
    (hgone : x.disk.entryAt? (s.root.child m) = none) {b : Bool}
    (hr : (Build.removeCompiled h.context (s.root.child m)).on x = (.ok b, y)) :
    Kept run s (fun n => dirty n ∧ n ≠ m) h y.disk ∧ SameSources s.root x.disk y.disk := by
  obtain ⟨hc, hcr, hco⟩ := hk.plain hroot
  have hp := hc.outputOf hm
  rw [← hcr] at hr
  have hoff := (removeCompiled_eq_ok hp hr).1
  have hsame := SameSources.of_artifact hc hm hoff
  rw [hcr] at hoff hsame
  refine ⟨hk.of_artifact hroot hm hw hoff ?_, hsame⟩
  intro source output hsource
  have hnot := output_not_prefix_script hc hm m
  rw [hcr] at hnot
  have hgone' := (hoff.along hnot).entryAt? (hroot.child hm.ne_parent)
  obtain ⟨bytes, hfile⟩ := Disk.entryAt?_of_text? hsource
  rw [hgone', hgone] at hfile
  cases hfile

/-! ## Events of the manifest -/

theorem SameSources.of_isTypes (hroot : s.root.IsPlain) (hl : x.Leads (IsTypes s) y) :
    SameSources s.root x.disk y.disk :=
  fun ns _ htypes => agreesOff_of_isTypes hroot hl ns htypes

theorem Kept.renewed (hk : Kept run s dirty h x.disk) (hroot : s.root.IsPlain) {e : Event}
    (hr : (h.renewed e).on x = (.ok h', y)) :
    Kept run s (fun _ => True) h' y.disk ∧ SameSources s.root x.disk y.disk := by
  obtain ⟨hset, hcoh⟩ := hk.coherent.renewed hr
  have hl := h.leads_renewed e x
  rw [hr, hk.settings] at hl
  have hs : s.output = s.root.child "dist" := hk.settings ▸ hk.coherent.output
  refine ⟨⟨hset.trans hk.settings, hcoh, root_of_isTypes hroot hl hk.root,
    outputDir_of_isTypes hroot hs hl hk.output, names_of_isTypes hroot hl hk.names,
    fun n _ _ _ hnot => absurd trivial hnot⟩,
    .of_isTypes hroot hl⟩

theorem compileExisting_eq_ok {u : PUnit} (hr : (h.compileExisting run).on x = (.ok u, y)) :
    ∃ b, (compileAll run h.context none (listed x.disk h.context.root)).on x = (.ok b, y) := by
  obtain ⟨ps, z, hps, hr⟩ := on_bind_eq_ok hr
  obtain ⟨b, z', hall, hr⟩ := on_bind_eq_ok hr
  cases hr
  cases hps
  exact ⟨b, hall⟩

/-- Compiling all scripts brings all up to date that are listed and watched. -/
theorem Kept.compileExisting (hk : Kept run s dirty h x.disk) (hroot : s.root.IsPlain) {u : PUnit}
    (hr : (h.compileExisting run).on x = (.ok u, y)) :
    Kept run s (fun _ => False) h y.disk ∧ SameSources s.root x.disk y.disk := by
  obtain ⟨hc, hcr, hco⟩ := hk.plain hroot
  obtain ⟨b, hall⟩ := compileExisting_eq_ok hr
  have hout : x.disk.entryAt? h.context.output = some .dir := hco ▸ hk.output
  have hmem (n : String) : n ∈ x.disk.list h.context.root ↔
      (x.disk.find? (s.root.names ++ [n])).isSome := by
    rw [hcr, Disk.mem_list_iff hroot hk.root]
  have hnames : ∀ n ∈ (x.disk.list h.context.root).filter isListed, Path.IsName n :=
    fun n hn => hk.names n ((hmem n).1 (List.mem_filter.1 hn).1)
  obtain ⟨hoff, hout'⟩ := compileAll_agreesOff hc hnames hout hall
  have hnotroot (n : String) (hn : n ≠ "dist") :
      ¬h.context.output.names <+: s.root.names ++ [n] := by
    rw [hc.names_output, hcr]
    simpa using Ne.symm hn
  refine ⟨⟨hk.settings, hk.coherent, ?_, hco ▸ hout', fun n hn => ?_, fun n hn hl hw _ => ?_⟩, ?_⟩
  · rw [(hoff.along ?_).entryAt? hroot, hk.root]
    rw [hc.names_output, hcr]
    exact not_append_prefix (by simp)
  · by_cases hd : n = "dist"
    · rw [hd]
      exact ⟨by decide, by decide, by decide, by decide⟩
    · rw [hoff _ (hnotroot n hd)] at hn
      exact hk.names n hn
  · rw [← hcr] at hw ⊢
    by_cases hin : n ∈ x.disk.list h.context.root
    · exact compileAll_current hc hnames (listed_pairwise x.disk h.context.root) hout hall
        (List.mem_filter.2 ⟨hin, hl⟩) hw
    · intro source output hsource
      obtain ⟨bytes, hfile⟩ := Disk.entryAt?_of_text? hsource
      have hnd : n ≠ "dist" := by
        rintro rfl
        exact absurd hl (by decide)
      obtain ⟨-, -, hfind⟩ :=
        (Disk.entryAt?_eq_some_iff_of_plain (hc.root.child hn.ne_parent)).1 hfile
      have hsome : x.disk.find? (s.root.names ++ [n]) = some (.file bytes) := by
        rw [← hoff _ (hnotroot n hnd), ← hfind, hcr]
        rfl
      exact absurd ((hmem n).2 (by simp [hsome])) hin
  · intro ns hdist _
    refine hoff ns ?_
    rwa [hc.names_output, hcr]

/-! ## Batches -/

theorem SameSources.trans {root : Path} {d d' d'' : Disk} (h : SameSources root d d')
    (h' : SameSources root d' d'') : SameSources root d d'' :=
  fun ns hd ht => (h' ns hd ht).trans (h ns hd ht)

theorem SameSources.entryAt? {root : Path} (hroot : root.IsPlain) {d d' : Disk}
    (h : SameSources root d d') {n : String} (hn : Path.IsName n) (hdist : n ≠ "dist")
    (htypes : n ≠ TypeDefinitions.fileName) :
    d'.entryAt? (root.child n) = d.entryAt? (root.child n) := by
  have hnot {m : String} (hm : n ≠ m) {l : List String} (hl : l <+: (root.child n).names) :
      ¬root.names ++ [m] <+: l := by
    intro hp
    have := hp.trans hl
    simp [Path.child] at this
    exact hm this.symm
  have halong : Disk.AgreesAlong (root.child n) d d' :=
    fun l hl => h l (hnot hdist hl) (hnot htypes hl)
  exact halong.entryAt? (hroot.child hn.ne_parent)

/-- A script or a manifest is not one of the entries that a handler writes. -/
theorem not_written {root : Path} {n : String}
    (h : (isManifest (root.child n) || isScript (root.child n)) = true) :
    n ≠ "dist" ∧ n ≠ TypeDefinitions.fileName := by
  simp only [isManifest, isScript, Path.suffix, Path.name_child] at h
  constructor
  · rintro rfl
    exact absurd h (by decide)
  · rintro rfl
    exact absurd h (by decide)

theorem not_written_of_isScript {root : Path} {n : String} (h : isScript (root.child n) = true) :
    n ≠ "dist" ∧ n ≠ TypeDefinitions.fileName := by
  have hacc : (isManifest (root.child n) || isScript (root.child n)) = true := by simp [h]
  exact not_written hacc

/-- The script of an event is up to date when the event has been handled, and others stay so. -/
theorem Kept.handle (hk : Kept run s dirty h x.disk) (hroot : s.root.IsPlain) {e : Event}
    {m : String} (hm : Path.IsName m) (hpath : e.path = s.root.child m)
    (hacc : (isManifest (s.root.child m) || isScript (s.root.child m)) = true)
    (hkind : e.kind = .removed ↔ x.disk.entryAt? e.path = none)
    (hr : (h.handle run e).on x = (.ok (h', none), y)) :
    Kept run s (fun n => dirty n ∧ n ≠ m) h' y.disk ∧ SameSources s.root x.disk y.disk := by
  cases Handler.handle_eq_none hr with
  | noManifest hman hrem =>
    refine ⟨hk.mono fun n hw hd => ⟨hd, ?_⟩, fun _ _ _ => rfl⟩
    rintro rfl
    rw [hpath] at hman
    simp only [isManifest, isScript, Path.suffix, Path.name_child, beq_iff_eq] at hman hw
    rw [hman] at hw
    exact absurd hw (by decide)
  | manifest hman hrem hn hs =>
    obtain ⟨hz, hsame⟩ := hk.renewed hroot hn
    obtain ⟨hy, hsame'⟩ := hz.compileExisting hroot hs
    exact ⟨hy.mono fun _ _ hf => hf.elim, hsame.trans hsame'⟩
  | noScript hman hw hrem hs =>
    rw [hpath] at hw hs
    exact hk.removeCompiled hroot hm hw (hpath ▸ hkind.1 hrem) hs
  | script hman hw hrem hs =>
    rw [hpath] at hw hs
    exact hk.compileScript hroot hm hw hs
  | other hman hw =>
    rw [hpath] at hman hw
    simp [hman, hw] at hacc

theorem handleAll_cons_eq_none {e : Event} {es : List Event}
    (hr : (h.handleAll run (e :: es)).on x = (.ok (h', none), y)) :
    ∃ h₁ z, (h.handle run e).on x = (.ok (h₁, none), z) ∧
      (h₁.handleAll run es).on z = (.ok (h', none), y) := by
  obtain ⟨⟨h₁, f⟩, z, hh, hrest⟩ := on_bind_eq_ok hr
  cases f with
  | some f => cases hrest
  | none => exact ⟨h₁, z, hh, hrest⟩

/-- Events that told what was there still tell it. -/
theorem SameSources.kinds {root : Path} (hroot : root.IsPlain) {d d' : Disk}
    (h : SameSources root d d') {es : List Event}
    (hes : ∀ e ∈ es, ∃ m, Path.IsName m ∧ e.path = root.child m ∧
      (isManifest (root.child m) || isScript (root.child m)) = true)
    (hkind : ∀ e ∈ es, e.kind = .removed ↔ d.entryAt? e.path = none) :
    ∀ e ∈ es, e.kind = .removed ↔ d'.entryAt? e.path = none := by
  intro e he
  obtain ⟨m, hm, hpath, hacc⟩ := hes e he
  obtain ⟨hdist, htypes⟩ := not_written hacc
  rw [hpath, h.entryAt? hroot hm hdist htypes, ← hpath]
  exact hkind e he

/-- The first event is for one script, the others are for the scripts that are left. -/
theorem child_mem_of_cons {root : Path} {e : Event} {es : List Event} {m n : String}
    (hpath : e.path = root.child m) (hn : root.child n ∈ (e :: es).map Event.path) (hne : n ≠ m) :
    root.child n ∈ es.map Event.path := by
  rcases List.mem_cons.1 hn with hnm | hn
  · rw [hpath] at hnm
    exact absurd (by simpa using congrArg Path.name hnm) hne
  · exact hn

/-- When all events have been handled, the scripts that they are for are up to date. -/
theorem Kept.handleAll (hk : Kept run s dirty h x.disk) (hroot : s.root.IsPlain) {es : List Event}
    (hes : ∀ e ∈ es, ∃ m, Path.IsName m ∧ e.path = s.root.child m ∧
      (isManifest (s.root.child m) || isScript (s.root.child m)) = true)
    (hkind : ∀ e ∈ es, e.kind = .removed ↔ x.disk.entryAt? e.path = none)
    (hdirty : ∀ n, dirty n → s.root.child n ∈ es.map Event.path)
    (hr : (h.handleAll run es).on x = (.ok (h', none), y)) :
    Kept run s (fun _ => False) h' y.disk := by
  induction es generalizing dirty h x with
  | nil =>
    cases hr
    exact hk.mono fun n _ hd => by simpa using hdirty n hd
  | cons e es ih =>
    obtain ⟨⟨m, hm, hpath, hacc⟩, hes'⟩ := List.forall_mem_cons.1 hes
    obtain ⟨hkind', hkinds⟩ := List.forall_mem_cons.1 hkind
    obtain ⟨h₁, z, hh, hrest⟩ := handleAll_cons_eq_none hr
    obtain ⟨hz, hsame⟩ := hk.handle hroot hm hpath hacc hkind' hh
    exact ih hz hes' (hsame.kinds hroot hes' hkinds)
      (fun n hn => child_mem_of_cons hpath (hdirty n hn.1) hn.2) hrest

/-! ## Sessions -/

/-- Before the scripts are compiled for the first time, nothing has changed in the output
directory. -/
theorem Kept.ready {w : World} {wishes : Wishes} (tree : w.disk.IsTree)
    (resolved : Settings.resolve w.disk wishes = .ok s)
    (started : (Watch.start run s).on w = (.ok h, x)) :
    ∃ z, Kept run s (fun _ => True) h z.disk ∧ (h.compileExisting run).on z = (.ok ⟨⟩, x) ∧
      ∀ ns, s.output.names <+: ns → ns ≠ s.output.names → z.disk.find? ns = w.disk.find? ns := by
  have hs := (Settings.resolve_eq_ok resolved).2.2
  obtain ⟨z, z', z'', hopen, hdirs, hd, -, hall⟩ := start_eq_ok started
  obtain ⟨hset, hcoh⟩ := opened_eq_ok hs hopen
  have hl := leads_opened s w
  rw [hopen] at hl
  have hready := Ready.of_leads tree resolved hl hdirs
  refine ⟨z'', ?_, hall, fun ns hin hne => ?_⟩
  · rw [hd]
    exact ⟨hset, hcoh, hready.root, hready.output, hready.names,
      fun n _ _ _ hnot => absurd trivial hnot⟩
  · rw [hd]
    exact hready.same ns (fun he => not_output_prefix_types hs (he ▸ hin))
      fun hp => hne (hp.eq_of_length_le hin.length_le)

theorem Kept.start {w : World} {wishes : Wishes} (tree : w.disk.IsTree)
    (resolved : Settings.resolve w.disk wishes = .ok s)
    (started : (Watch.start run s).on w = (.ok h, x)) : Kept run s (fun _ => False) h x.disk := by
  obtain ⟨z, hz, hall, -⟩ := Kept.ready tree resolved started
  exact (hz.compileExisting (isPlain_root tree.isConnected resolved) hall).1

/-- Others change what they like but the output directory: all scripts stay up to date whose changes
are not reported. -/
theorem Kept.disturbed (hk : Kept run s (fun _ => False) h x.disk) (hroot : s.root.IsPlain)
    {d : Disk} {changes : List (Change × Path)} (tree : d.IsTree)
    (kept : ∀ ns, s.output.names <+: ns → d.find? ns = x.disk.find? ns)
    (reported : Reports s.root x.disk d changes) :
    Kept run s (fun n => s.root.child n ∈
      (changes.filter fun c => accepts d s.root c.2).map Prod.snd) h d := by
  obtain ⟨hc, hcr, hco⟩ := hk.plain hroot
  have hs : s.output = s.root.child "dist" := hk.settings ▸ hk.coherent.output
  have hplain : s.output.IsPlain := hco ▸ hc.outputPlain
  obtain ⟨hfits, -, hfind⟩ := (Disk.entryAt?_eq_some_iff_of_plain hplain).1 hk.output
  have hthere : d.find? s.output.names = some .dir := by rw [kept _ (List.prefix_refl _), hfind]
  have hout : d.entryAt? s.output = some .dir :=
    (tree.isConnected.entryAt?_eq_some_iff hplain).2 ⟨hfits, hthere⟩
  have hdir : d.find? s.root.names = some .dir := by
    refine tree.parents s.root.names "dist" ?_
    rw [hs] at hthere
    rw [show s.root.names ++ ["dist"] = (s.root.child "dist").names from rfl, hthere]
    rfl
  obtain ⟨hfits', -⟩ := (Disk.entryAt?_eq_some_iff_of_plain hroot).1 hk.root
  refine ⟨hk.settings, hk.coherent,
    (tree.isConnected.entryAt?_eq_some_iff hroot).2 ⟨hfits', hdir⟩, hout,
    fun n hn => tree.names _ hn n (by simp), fun n hn hl hw hnot => ?_⟩
  have hacc : (isManifest (s.root.child n) || isScript (s.root.child n)) = true := by simp [hw]
  have hsame : d.entryAt? (s.root.child n) = x.disk.entryAt? (s.root.child n) := by
    by_contra hne
    obtain ⟨c, hmem, hpath⟩ := List.mem_map.1 (reported.complete n hn hacc hne)
    refine hnot (List.mem_map.2 ⟨c, List.mem_filter.2 ⟨hmem, ?_⟩, hpath⟩)
    rw [hpath]
    exact accepts_child d hacc
  have hcur := hk.current n hn hl hw id
  rw [← hcr] at hcur hsame ⊢
  refine hcur.congr hc hn hsame ?_
  rw [h.context.outputOf_child _ hn]
  refine .child hc.outputPlain (hco ▸ hk.output) (hco ▸ hout) (kept _ ?_)
  rw [hco]
  exact List.prefix_append _ _

theorem handleChanges_eq_ok {changes : List (Change × Path)} {r : Handler × Option Fault}
    (hr : (h.handleChanges run changes).on x = (.ok r, y)) :
    ∃ es, events x.disk changes = .ok es ∧ (h.handleAll run es).on x = (.ok r, y) := by
  obtain ⟨d, z, hd, hr⟩ := on_bind_eq_ok hr
  obtain ⟨es, z', hes, hr⟩ := on_bind_eq_ok hr
  cases hd
  rw [on_ofExcept] at hes
  rcases he : events x.disk changes with f | es'
  · rw [he] at hes
    cases hes
  · rw [he] at hes
    cases hes
    exact ⟨es, rfl, hr⟩

theorem Kept.batch (hk : Kept run s (fun _ => False) h x.disk) (hroot : s.root.IsPlain) {d : Disk}
    {changes : List (Change × Path)} (tree : d.IsTree)
    (kept : ∀ ns, s.output.names <+: ns → d.find? ns = x.disk.find? ns)
    (reported : Reports s.root x.disk d changes)
    (handled : (h.handleChanges run (changes.filter fun c => accepts d s.root c.2)).on
      { x with disk := d } = (.ok (h', none), y)) : Kept run s (fun _ => False) h' y.disk := by
  obtain ⟨es, hes, hall⟩ := handleChanges_eq_ok handled
  have hpaths := mem_paths_iff hes
  refine Kept.handleAll (x := { x with disk := d }) (hk.disturbed hroot tree kept reported) hroot
    (fun e he => ?_) (events_eq_ok hes).2 (fun n hn => (hpaths _).2 hn) hall
  obtain ⟨m, hm, hpath, hacc⟩ :=
    reported.child hroot ((hpaths e.path).1 (List.mem_map_of_mem he))
  exact ⟨m, hm, hpath, hacc⟩

theorem Session.kept {w : World} {cs : List Context} (hx : Session run s w cs h x) :
    s.root.IsPlain ∧ Kept run s (fun _ => False) h x.disk := by
  induction hx with
  | start tree resolved started =>
    exact ⟨isPlain_root tree.isConnected resolved, .start tree resolved started⟩
  | batch _ tree kept reported handled ih =>
    exact ⟨ih.1, ih.2.batch ih.1 tree kept reported handled⟩

end FlowPipeline.Watch

/-! ## Sessions of the small project -/

namespace FlowPipeline.Sample
open Build Work Watch

theorem filter_modified (d : Disk) :
    ([(Change.modified, script)].filter fun c => accepts d root c.2) = [(.modified, script)] := by
  have hacc : (isManifest (root.child "a.ts") || isScript (root.child "a.ts")) = true := by decide
  have hscript : accepts d root script = true := accepts_child d hacc
  simp [hscript]

theorem events_modified {d : Disk} (hhas : d.has script = .ok true) :
    events d [(.modified, script)] = .ok [⟨.changed, script⟩] := by
  have hkind : kindOf d script [.modified] = .ok .changed := by
    rw [kindOf, hhas]
    rfl
  have hpaths : ([(Change.modified, script)].map Prod.snd).eraseDups = [script] := rfl
  rw [events, hpaths]
  simp [hkind, bind, Except.bind, pure, Except.pure]

/-- To handle a change of the script comes to compiling it. -/
theorem handleChanges_of_script {h : Handler} {x y : World} (hhas : x.disk.has script = .ok true)
    {o : Outcome} (ho : (compileScript echo h.context script).on x = (.ok o, y)) :
    (h.handleChanges echo ([(.modified, script)].filter fun c => accepts x.disk root c.2)).on x =
      (.ok (h, none), y) := by
  have hhandle : (h.handle echo ⟨.changed, script⟩).on x = (.ok (h, none), y) :=
    Handler.on_handle_of_ok (u := ⟨⟩) rfl ((on_bind_ok ho).trans rfl)
  have hall : (h.handleAll echo [⟨.changed, script⟩]).on x = (.ok (h, none), y) :=
    (on_bind_ok hhandle).trans rfl
  have hevents : (ofExcept Fault.file (events x.disk [(.modified, script)])).on x =
      (.ok [⟨.changed, script⟩], x) := by
    rw [on_ofExcept, events_modified hhas]
    rfl
  rw [filter_modified]
  exact (on_bind_ok (on_disk x)).trans ((on_bind_ok hevents).trans hall)

theorem agreesOff_script (source source' : String) (compiled : Option String) :
    Disk.AgreesOff script.names (project source compiled) (project source' compiled) := by
  intro ns hns
  have hne : (ns == ["p", "a.ts"]) = false :=
    beq_false_of_ne fun he => hns (he ▸ List.prefix_refl _)
  simp [Disk.find?, project, List.lookup_cons, hne]

theorem reports_modified (source source' : String) (compiled : Option String) :
    Reports root (project source compiled) (project source' compiled) [(.modified, script)] := by
  refine ⟨fun c hc => ⟨["a.ts"], by decide, ?_⟩, fun n hn _ hne => ?_⟩
  · rw [List.mem_singleton.1 hc]
    rfl
  · by_contra hnot
    have hname : "a.ts" ≠ n := by
      rintro rfl
      exact hnot (by simp [script])
    have hoff : ¬script.names <+: (root.child n).names := by simp [script, Path.child, hname]
    have hroot : root.IsPlain := ⟨rfl, by decide⟩
    exact hne (((agreesOff_script source source' compiled).along hoff).entryAt?
      (hroot.child hn.ne_parent))

/-- In a session the script is edited, which comes to compiling it. -/
theorem session_edited {w : World} {cs : List Context} {h : Handler} {x y : World}
    {source source' : String} {compiled : Option String} {o : Outcome}
    (hx : Session echo settings w cs h x) (hd : x.disk = project source compiled)
    (ho : (compileScript echo h.context script).on { x with disk := project source' compiled } =
      (.ok o, y)) : Session echo settings w (h.context :: cs) h y := by
  have kept (ns : List String) (hns : settings.output.names <+: ns) :
      (project source' compiled).find? ns = x.disk.find? ns := by
    rw [hd]
    refine agreesOff_script source source' compiled ns fun hpre => ?_
    have := List.prefix_of_prefix_length_le hpre hns (by decide)
    exact absurd this (by decide)
  have reported : Reports root x.disk (project source' compiled) [(.modified, script)] := by
    rw [hd]
    exact reports_modified source source' compiled
  have hhas : (project source' compiled).has script = .ok true := by cases compiled <;> rfl
  exact .batch hx (isTree source' compiled) kept reported
    (handleChanges_of_script (x := { x with disk := project source' compiled }) hhas ho)

theorem session_started (source : String) (compiled : Option String) : ∃ h y,
    IsContext h.context ∧ y.disk = project source compiled ∧
      ∀ o x, (compileScript echo h.context script).on y = (.ok o, x) →
        Session echo settings (fresh source compiled) [h.context] h x := by
  obtain ⟨h, y, hc, hy, hstart⟩ := start_of_script source compiled
  exact ⟨h, y, hc, hy, fun o x ho =>
    .start (isTree source compiled) (resolve_eq source compiled) (hstart o x ho)⟩

/-- The script is repaired. -/
theorem session_repaired : ∃ cs h x, Session echo settings (fresh ")" none) cs h x ∧
    IsContext h.context ∧ x.disk = project "" (some "") := by
  obtain ⟨h, y, hc, hy, hstart⟩ := session_started ")" none
  obtain ⟨o, l, ho⟩ := compile_broken hc hy
  obtain ⟨o', x, ho', hx, -⟩ :=
    compile_empty hc (x := { y with disk := project "" none, log := l }) rfl
  exact ⟨_, h, x, session_edited (hstart o _ ho) hy ho', hc, hx⟩

theorem session_broken : ∃ cs h x, Session echo settings (fresh "" none) cs h x ∧
    IsContext h.context ∧ x.disk = project ")" (some "") := by
  obtain ⟨h, y, hc, hy, hstart⟩ := session_started "" none
  obtain ⟨o, x, ho, hx, -⟩ := compile_empty hc hy
  obtain ⟨o', l, ho'⟩ := compile_broken hc (x := { x with disk := project ")" (some "") }) rfl
  exact ⟨_, h, _, session_edited (hstart o _ ho) hx ho', hc, rfl⟩

end FlowPipeline.Sample

/-! ## No lost update -/

namespace FlowPipeline.Watch
open Work Build Sample

variable {run : Runner} {s : Settings} {h : Handler} {x : World}

/-- After each batch of changes, the compiled form of every script that is listed and watched is
that of its text, if the text passes and the compiled form can be written. -/
theorem Session.up_to_date {w : World} {cs : List Context} (hx : Session run s w cs h x)
    {script : Path} (hl : script ∈ listed x.disk s.root) (hw : isScript script = true)
    {source output : String} (hsource : x.disk.text? script = some source)
    (heligible : Eligible h.context script source)
    (hcompiles : run (Compiler.command Compiler.program h.context.options script) source =
      .ok output)
    (hmay : x.disk.MayWrite (s.output.join (Path.ofString (script.stem ++ ".js")))) :
    x.disk.Holds (s.output.join (Path.ofString (script.stem ++ ".js"))) output := by
  obtain ⟨hroot, hk⟩ := hx.kept
  obtain ⟨hc, hcr, hco⟩ := hk.plain hroot
  obtain ⟨n, hmem, hlist, rfl⟩ := mem_listed_iff.1 hl
  have hn := hk.names n ((Disk.mem_list_iff hroot hk.root).1 hmem)
  rw [← hco] at hmay ⊢
  exact hk.current n hn hlist hw id source output hsource ⟨heligible, hcompiles⟩ hmay

/-- A script that is repaired while it is watched is up to date in the end. -/
theorem Session.up_to_date_repaired : ∃ cs h x, Session echo settings (fresh ")" none) cs h x ∧
    x.disk.Holds (settings.output.join (Path.ofString (script.stem ++ ".js"))) "" := by
  obtain ⟨cs, h, x, hs, hc, hx⟩ := session_repaired
  have hl : script ∈ listed x.disk settings.root := by
    rw [hx]
    exact listed_eq "" (some "") ▸ List.mem_singleton_self script
  have hsource : x.disk.text? script = some "" := by
    rw [hx]
    rfl
  have hmay : x.disk.MayWrite (settings.output.join (Path.ofString (script.stem ++ ".js"))) := by
    rw [hx]
    exact ⟨["p", "dist", "a.js"], rfl, nofun⟩
  have hpasses := passes_empty hc
  exact ⟨cs, h, x, hs, hs.up_to_date hl (by decide) hsource hpasses.eligible hpasses.compiles hmay⟩

end FlowPipeline.Watch
