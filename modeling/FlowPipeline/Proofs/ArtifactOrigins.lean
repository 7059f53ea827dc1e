import FlowPipeline.Proofs.WatchSessions

/-! # Where compiled scripts come from

Only the removal of a script removes its compiled form. What a session leaves in the output
directory may therefore be out of date, but it is never anything else than what a script was
compiled to at some moment, under a context of that time.
-/

namespace FlowPipeline.Watch
open Work Build

/-- In one of the contexts, a script of the given name was compiled to the bytes. -/
def HasOrigin (run : Runner) (s : Settings) (inForce : Context → Prop)
    (history : List (Disk × Edit)) (n : String) (bytes : List UInt8) : Prop :=
  ∃ c d source output, inForce c ∧
    (d, .write (s.output.child ((s.root.child n).stem ++ ".js")) bytes) ∈ history ∧
    d.text? (s.root.child n) = some source ∧ Passes run c (s.root.child n) source output ∧
    Text.Utf8.encoded output = .ok bytes

/-- An entry is a file that a script at the top level was compiled to. -/
def IsCompiled (run : Runner) (s : Settings) (inForce : Context → Prop)
    (history : List (Disk × Edit)) (ns : List String) (e : Entry) : Prop :=
  ∃ n bytes, Path.IsName n ∧ (isListed n || isScript (s.root.child n)) = true ∧
    ns = (s.output.child ((s.root.child n).stem ++ ".js")).names ∧ e = .file bytes ∧
    Disk.Fits (s.output.child ((s.root.child n).stem ++ ".js")) ∧
    HasOrigin run s inForce history n bytes

/-- All in the output directory are compiled forms of scripts, which are still there but for those
of some names. -/
structure Grounded (run : Runner) (s : Settings) (inForce : Context → Prop)
    (dirty : String → Prop) (x : World) : Prop where
  origin : ∀ ns e, s.output.names <+: ns → ns ≠ s.output.names → x.disk.find? ns = some e →
    IsCompiled run s inForce x.history ns e
  source : ∀ m, m ≠ ".ts" → (x.disk.find? (s.output.child (m ++ ".js")).names).isSome →
    ¬dirty (m ++ ".ts") → (x.disk.entryAt? (s.root.child (m ++ ".ts"))).isSome

variable {run : Runner} {s : Settings} {inForce : Context → Prop} {dirty : String → Prop}
  {h h' : Handler} {x y : World}

/-- What was compiled stays so, whatever is done and whichever contexts come. -/
theorem IsCompiled.mono {inForce' : Context → Prop} {history es : List (Disk × Edit)}
    {ns : List String} {e : Entry} (h : IsCompiled run s inForce history ns e)
    (hc : ∀ c, inForce c → inForce' c) : IsCompiled run s inForce' (history ++ es) ns e := by
  obtain ⟨n, bytes, hn, hacc, hns, hfile, hfits, c, d, source, output, hforce, hmem, hrest⟩ := h
  exact ⟨n, bytes, hn, hacc, hns, hfile, hfits, c, d, source, output, hc c hforce,
    List.mem_append_left _ hmem, hrest⟩

theorem IsCompiled.append {history es : List (Disk × Edit)} {ns : List String} {e : Entry}
    (h : IsCompiled run s inForce history ns e) : IsCompiled run s inForce (history ++ es) ns e :=
  h.mono fun _ hc => hc

/-- The script of a compiled form is watched, unless its stem is `.ts`. -/
theorem Grounded.watched (hg : Grounded run s inForce dirty x) {m : String} (hm : m ≠ ".ts")
    (hf : (x.disk.find? (s.output.child (m ++ ".js")).names).isSome) :
    Path.IsName (m ++ ".ts") ∧ isScript (s.root.child (m ++ ".ts")) = true := by
  obtain ⟨e, he⟩ := Option.isSome_iff_exists.1 hf
  obtain ⟨n, bytes, hn, hacc, hns, -⟩ := hg.origin _ e (List.prefix_append _ _) (by simp) he
  have hstem : m = (s.root.child n).stem := by simpa [Path.child] using hns
  obtain ⟨hw, hname⟩ := eq_stem_append hacc (hstem ▸ hm)
  rw [← hstem] at hname
  rw [← hname]
  exact ⟨hn, hw⟩

/-- What adds nothing to the output directory and does not touch the scripts keeps all grounded. -/
theorem Grounded.carry (hg : Grounded run s inForce dirty x) (hroot : s.root.IsPlain)
    {es : List (Disk × Edit)} (hist : y.history = x.history ++ es)
    (hout : ∀ ns e, s.output.names <+: ns → y.disk.find? ns = some e → x.disk.find? ns = some e)
    (hsame : SameSources s.root x.disk y.disk) : Grounded run s inForce dirty y := by
  refine ⟨fun ns e hin hne he => ?_, fun m hm hf hd => ?_⟩
  · rw [hist]
    exact (hg.origin ns e hin hne (hout ns e hin he)).append
  · obtain ⟨e, he⟩ := Option.isSome_iff_exists.1 hf
    have hfx : (x.disk.find? (s.output.child (m ++ ".js")).names).isSome :=
      Option.isSome_iff_exists.2 ⟨e, hout _ e (List.prefix_append _ _) he⟩
    obtain ⟨hn, hw⟩ := hg.watched hm hfx
    have hnot := not_written_of_isScript hw
    rw [hsame.entryAt? hroot hn hnot.1 hnot.2]
    exact hg.source m hm hfx hd

theorem Grounded.compileScript (hg : Grounded run s inForce dirty x) {c : Context}
    (hc : c.IsPlain) (hcr : c.root = s.root) (hco : c.output = s.output) (hforce : inForce c)
    (hout : x.disk.entryAt? s.output = some .dir) {n : String} (hn : Path.IsName n)
    (hacc : (isListed n || isScript (s.root.child n)) = true) {o : Outcome}
    (hr : (Build.compileScript run c (s.root.child n)).on x = (.ok o, y)) :
    Grounded run s inForce dirty y := by
  obtain ⟨es, hist, -⟩ := leads_compileScript (covers_gated run c) (s.root.child n) x
  rw [hr] at hist
  have hpath : c.outputOf (s.root.child n) = s.output.child ((s.root.child n).stem ++ ".js") := by
    rw [c.outputOf_child _ hn, hco]
  have hparent : (c.outputOf (s.root.child n)).parent = s.output := by
    rw [hpath, Path.parent_child]
  have hplain : (c.outputOf (s.root.child n)).IsPlain := by
    rw [← hcr]
    exact hc.outputOf hn
  have hsources : SameSources s.root x.disk y.disk := by
    rw [← hcr] at hr ⊢
    exact .of_artifact hc hn (compileScript_agreesOff hc hn (hco ▸ hout) hr)
  rcases compileScript_cases (hparent ▸ hout) hr with
    ⟨hd, -⟩ | ⟨source, output, hsource, hpasses, hw, hmem, henc⟩
  · exact hg.carry (hcr ▸ hc.root) hist (fun ns e _ he => by rwa [hd] at he) hsources
  obtain ⟨bytes, hbytes⟩ := henc o rfl
  rw [bytesOf_eq hbytes, hpath] at hw hmem
  rw [hpath] at hplain
  have hfind := Disk.find?_write hplain hw
  refine ⟨fun ns e hin hne he => ?_, fun m hm hf hd => ?_⟩
  · rw [hfind] at he
    split_ifs at he with hns
    · cases he
      have hfits : Disk.Fits (s.output.child ((s.root.child n).stem ++ ".js")) :=
        ((Disk.entryAt?_eq_some_iff_of_plain hplain).1
          (Disk.read_eq_ok_iff.1 (Disk.read_write hplain hw))).1
      exact ⟨n, bytes, hn, hacc, hns, rfl, hfits, c, x.disk, source, output, hforce, hmem, hsource,
        hpasses, hbytes⟩
    · rw [hist]
      exact (hg.origin ns e hin hne he).append
  · rw [hfind] at hf
    split_ifs at hf with hns
    · have hstem : m = (s.root.child n).stem := by simpa [Path.child] using hns
      obtain ⟨hwatched, hname⟩ := eq_stem_append hacc (hstem ▸ hm)
      have hnot := not_written_of_isScript hwatched
      rw [← hstem] at hname
      rw [← hname, hsources.entryAt? (hcr ▸ hc.root) hn hnot.1 hnot.2]
      obtain ⟨b, hb⟩ := Disk.entryAt?_of_text? hsource
      simp [hb]
    · obtain ⟨hn', hw'⟩ := hg.watched hm hf
      have hnot := not_written_of_isScript hw'
      rw [hsources.entryAt? (hcr ▸ hc.root) hn' hnot.1 hnot.2]
      exact hg.source m hm hf hd

/-- Fewer scripts need be left out if one is there, or if its compiled form is not. -/
theorem Grounded.settle (hg : Grounded run s inForce dirty x) {n : String}
    (hn : ∀ m, n = m ++ ".ts" → m ≠ ".ts" →
      (x.disk.find? (s.output.child (m ++ ".js")).names).isSome →
      (x.disk.entryAt? (s.root.child n)).isSome) :
    Grounded run s inForce (fun k => dirty k ∧ k ≠ n) x := by
  refine ⟨hg.origin, fun m hm hf hd => ?_⟩
  by_cases he : n = m ++ ".ts"
  · rw [← he]
    exact hn m he hm hf
  · exact hg.source m hm hf fun hdirty => hd ⟨hdirty, fun hne => he hne.symm⟩

theorem Grounded.removeCompiled (hg : Grounded run s inForce dirty x) {c : Context}
    (hc : c.IsPlain) (hcr : c.root = s.root) (hco : c.output = s.output)
    (hout : x.disk.entryAt? s.output = some .dir) {n : String} (hn : Path.IsName n)
    (hw : isScript (s.root.child n) = true) {b : Bool}
    (hr : (Build.removeCompiled c (s.root.child n)).on x = (.ok b, y)) :
    Grounded run s inForce (fun k => dirty k ∧ k ≠ n) y := by
  obtain ⟨es, hist, -⟩ := leads_removeCompiled (covers_gated run c) (s.root.child n) x
  rw [hr] at hist
  have hplain : (c.outputOf (s.root.child n)).IsPlain := by
    rw [← hcr]
    exact hc.outputOf hn
  obtain ⟨hoff, hgone, hfewer⟩ := removeCompiled_eq_ok hplain hr
  have hpath : c.outputOf (s.root.child n) = s.output.child ((s.root.child n).stem ++ ".js") := by
    rw [c.outputOf_child _ hn, hco]
  have hsources : SameSources s.root x.disk y.disk := by
    rw [← hcr] at hoff ⊢
    exact .of_artifact hc hn hoff
  have hout' : y.disk.entryAt? s.output = some .dir := by
    rw [← hco] at hout ⊢
    rw [← hcr] at hoff
    exact outputDir_of_agreesOff hc hn hoff hout
  have hy : Grounded run s inForce dirty y :=
    hg.carry (hcr ▸ hc.root) hist (fun ns e _ => hfewer ns e) hsources
  refine hy.settle fun m hname hm hf => ?_
  -- the compiled form is gone, although it would fit
  obtain ⟨e, he⟩ := Option.isSome_iff_exists.1 hf
  obtain ⟨n', -, -, -, hns, -, hfits, -⟩ :=
    hy.origin _ e (List.prefix_append _ _) (by simp) he
  have hstem : (s.root.child n).stem = m := by
    obtain ⟨-, m', hm', hname'⟩ := isScript_child_iff.1 hw
    rw [hname] at hname'
    rw [hname, Path.stem_child_ts _ ((String.append_left_inj ".ts").1 hname' ▸ hm')]
  have hstem' : (s.root.child n').stem = m := by simpa [Path.child] using hns.symm
  rw [hstem'] at hfits
  rw [hpath, hstem] at hgone hplain
  rw [Disk.entryAt?_child_of_find? (hco ▸ hc.outputPlain) hout' ?_ hfits he] at hgone
  · cases hgone
  · exact fun hp => hplain.noParent (by simp [Path.child, hp])

theorem Grounded.of_isTypes (hg : Grounded run s inForce dirty x) (hroot : s.root.IsPlain)
    (hs : s.output = s.root.child "dist") (hl : x.Leads (IsTypes s) y) :
    Grounded run s inForce dirty y := by
  have ⟨es, hist, _⟩ := hl
  refine hg.carry hroot hist (fun ns e hin he => ?_) (.of_isTypes hroot hl)
  rwa [find?_output_of_isTypes hroot hs hl hin] at he

theorem Grounded.compileExisting (hg : Grounded run s inForce dirty x)
    {dirty' : String → Prop} (hk : Kept run s dirty' h x.disk) (hroot : s.root.IsPlain)
    (hforce : inForce h.context) {u : PUnit} (hr : (h.compileExisting run).on x = (.ok u, y)) :
    Grounded run s inForce dirty y := by
  obtain ⟨hc, hcr, hco⟩ := hk.plain hroot
  obtain ⟨b, hall⟩ := compileExisting_eq_ok hr
  refine (compileAll_preserves (P := fun z =>
    z.disk.entryAt? s.output = some .dir ∧ Grounded run s inForce dirty z)
    (fun p hp z o z' hz hs => ?_) ⟨hk.output, hg⟩ hall).2
  obtain ⟨n, hmem, hlist, rfl⟩ := mem_listed_iff.1 hp
  rw [hcr] at hmem hs
  have hn := hk.names n ((Disk.mem_list_iff hroot hk.root).1 hmem)
  refine ⟨?_, hz.2.compileScript hc hcr hco hforce hz.1 hn (by simp [hlist]) hs⟩
  rw [← hco] at hz ⊢
  rw [← hcr] at hs
  exact outputDir_of_agreesOff hc hn (compileScript_agreesOff hc hn hz.1 hs) hz.1

/-- No script is named as the manifest is. -/
theorem Grounded.settle_manifest (hg : Grounded run s inForce dirty x) {n : String}
    (hn : isManifest (s.root.child n) = true) :
    Grounded run s inForce (fun k => dirty k ∧ k ≠ n) x := by
  refine hg.settle fun m hname hm hf => ?_
  have hw := (hg.watched hm hf).2
  rw [← hname] at hw
  simp only [isManifest, isScript, Path.suffix, Path.name_child, beq_iff_eq] at hn hw
  rw [hn] at hw
  exact absurd hw (by decide)

theorem Grounded.handle (hg : Grounded run s inForce dirty x)
    {dirty' : String → Prop} (hk : Kept run s dirty' h x.disk) (hroot : s.root.IsPlain) {e : Event}
    {n : String} (hn : Path.IsName n) (hpath : e.path = s.root.child n)
    (hacc : (isManifest (s.root.child n) || isScript (s.root.child n)) = true)
    (hkind : e.kind = .removed ↔ x.disk.entryAt? e.path = none)
    (hforce : inForce h.context) (hforce' : inForce h'.context)
    (hr : (h.handle run e).on x = (.ok (h', none), y)) :
    Grounded run s inForce (fun k => dirty k ∧ k ≠ n) y := by
  obtain ⟨hc, hcr, hco⟩ := hk.plain hroot
  have hs : s.output = s.root.child "dist" := hk.settings ▸ hk.coherent.output
  cases Handler.handle_eq_none hr with
  | noManifest hman hrem => exact hg.settle_manifest (hpath ▸ hman)
  | @manifest _ _ z hman hrem hnew hall =>
    have hl := h.leads_renewed e x
    rw [hnew, hk.settings] at hl
    have hz := hg.of_isTypes hroot hs hl
    exact (hz.compileExisting (hk.renewed hroot hnew).1 hroot hforce' hall).settle_manifest
      (hpath ▸ hman)
  | noScript hman hw hrem hrun =>
    rw [hpath] at hw hrun
    exact hg.removeCompiled hc hcr hco hk.output hn hw hrun
  | script hman hw hrem hrun =>
    rw [hpath] at hw hrun
    have hsame := (hk.compileScript hroot hn hw hrun).2
    have hy := hg.compileScript hc hcr hco hforce hk.output hn (by simp [hw]) hrun
    refine hy.settle fun _ _ _ _ => ?_
    have hnot := not_written hacc
    rw [hsame.entryAt? hroot hn hnot.1 hnot.2, Option.isSome_iff_ne_none, ← hpath]
    exact fun hnone => hrem (hkind.2 hnone)
  | other hman hw =>
    rw [hpath] at hman hw
    simp [hman, hw] at hacc

/-- Only an event of the manifest replaces the context. -/
theorem handleAll_of_scripts {es : List Event} (hes : ∀ e ∈ es, isManifest e.path = false)
    (hr : (h.handleAll run es).on x = (.ok (h', none), y)) : h' = h := by
  induction es generalizing h x with
  | nil =>
    cases hr
    rfl
  | cons e es ih =>
    obtain ⟨hman, hes'⟩ := List.forall_mem_cons.1 hes
    obtain ⟨h₁, z, hh, hrest⟩ := handleAll_cons_eq_none hr
    rw [ih hes' hrest]
    cases Handler.handle_eq_none hh with
    | noManifest hm _ | manifest hm _ _ _ => simp [hman] at hm
    | noScript _ _ _ _ | script _ _ _ _ | other _ _ => rfl

/-- At most one event of a batch is of the manifest, so that only two contexts are in force. -/
theorem inForce_of_handle {e : Event} {es : List Event}
    (hes : ∀ e' ∈ e :: es, ∃ m, e'.path = s.root.child m)
    (hnodup : ((e :: es).map Event.path).Nodup) {h₁ : Handler} {z : World}
    (hforce : inForce h.context) (hforce' : inForce h'.context)
    (hh : (h.handle run e).on x = (.ok (h₁, none), z))
    (hr : (h₁.handleAll run es).on z = (.ok (h', none), y)) : inForce h₁.context := by
  cases Handler.handle_eq_none hh with
  | noManifest _ _ | noScript _ _ _ _ | script _ _ _ _ | other _ _ => exact hforce
  | manifest hman _ _ _ =>
    rw [← handleAll_of_scripts (fun e' he' => ?_) hr]
    · exact hforce'
    obtain ⟨⟨m, hm⟩, hes'⟩ := List.forall_mem_cons.1 hes
    obtain ⟨m', hm'⟩ := hes' e' he'
    rw [Bool.eq_false_iff]
    intro hman'
    rw [hm] at hman
    rw [hm'] at hman'
    simp only [isManifest, Path.name_child, beq_iff_eq] at hman hman'
    refine (List.nodup_cons.1 hnodup).1 (List.mem_map.2 ⟨e', he', ?_⟩)
    rw [hm, hm', hman, hman']

theorem Grounded.handleAll (hg : Grounded run s inForce dirty x)
    {dirty' : String → Prop} (hk : Kept run s dirty' h x.disk) (hroot : s.root.IsPlain)
    {es : List Event}
    (hes : ∀ e ∈ es, ∃ m, Path.IsName m ∧ e.path = s.root.child m ∧
      (isManifest (s.root.child m) || isScript (s.root.child m)) = true)
    (hkind : ∀ e ∈ es, e.kind = .removed ↔ x.disk.entryAt? e.path = none)
    (hnodup : (es.map Event.path).Nodup)
    (hdirty : ∀ n, dirty n → s.root.child n ∈ es.map Event.path)
    (hforce : inForce h.context) (hforce' : inForce h'.context)
    (hr : (h.handleAll run es).on x = (.ok (h', none), y)) :
    Grounded run s inForce (fun _ => False) y := by
  induction es generalizing dirty dirty' h x with
  | nil =>
    cases hr
    exact ⟨hg.origin, fun m hm hf _ => hg.source m hm hf fun hd => by simpa using hdirty _ hd⟩
  | cons e es ih =>
    have hpaths : ∀ e' ∈ e :: es, ∃ m, e'.path = s.root.child m := fun e' he' =>
      let ⟨m, _, hm, _⟩ := hes e' he'
      ⟨m, hm⟩
    obtain ⟨⟨m, hm, hpath, hacc⟩, hes'⟩ := List.forall_mem_cons.1 hes
    obtain ⟨hkind', hkinds⟩ := List.forall_mem_cons.1 hkind
    obtain ⟨h₁, z, hh, hrest⟩ := handleAll_cons_eq_none hr
    have hforce₁ := inForce_of_handle hpaths hnodup hforce hforce' hh hrest
    obtain ⟨hz, hsame⟩ := hk.handle hroot hm hpath hacc hkind' hh
    have hgz := hg.handle hk hroot hm hpath hacc hkind' hforce hforce₁ hh
    exact ih hgz hz hes' (hsame.kinds hroot hes' hkinds) (List.nodup_cons.1 hnodup).2
      (fun n hn => child_mem_of_cons hpath (hdirty n hn.1) hn.2) hforce₁ hrest

/-! ## Sessions -/

theorem Grounded.mono {inForce' : Context → Prop} (hg : Grounded run s inForce dirty x)
    (hc : ∀ c, inForce c → inForce' c) : Grounded run s inForce' dirty x := by
  refine ⟨fun ns e hin hne he => ?_, hg.source⟩
  rw [← List.append_nil x.history]
  exact (hg.origin ns e hin hne he).mono hc

theorem Grounded.disturbed (hg : Grounded run s inForce (fun _ => False) x) {d : Disk}
    {changes : List (Change × Path)}
    (kept : ∀ ns, s.output.names <+: ns → d.find? ns = x.disk.find? ns)
    (reported : Reports s.root x.disk d changes) :
    Grounded run s inForce (fun n => s.root.child n ∈
      (changes.filter fun c => accepts d s.root c.2).map Prod.snd) { x with disk := d } := by
  refine ⟨fun ns e hin hne he => hg.origin ns e hin hne (kept ns hin ▸ he), fun m hm hf hd => ?_⟩
  have hfx : (x.disk.find? (s.output.child (m ++ ".js")).names).isSome := by
    rw [← kept (s.output.child (m ++ ".js")).names (List.prefix_append _ _)]
    exact hf
  obtain ⟨hn, hw⟩ := hg.watched hm hfx
  have hold := hg.source m hm hfx id
  by_contra hnew
  have hacc : (isManifest (s.root.child (m ++ ".ts")) || isScript (s.root.child (m ++ ".ts"))) =
      true := by simp [hw]
  obtain ⟨c, hmem, hpath⟩ := List.mem_map.1 (reported.complete (m ++ ".ts") hn hacc fun he =>
    hnew (by rw [he]; exact hold))
  refine hd (List.mem_map.2 ⟨c, List.mem_filter.2 ⟨hmem, ?_⟩, hpath⟩)
  rw [hpath]
  exact accepts_child d hacc

theorem Grounded.start {w : World} {wishes : Wishes} (tree : w.disk.IsTree)
    (resolved : Settings.resolve w.disk wishes = .ok s)
    (started : (Watch.start run s).on w = (.ok h, x))
    (hempty : ∀ ns, s.output.names <+: ns → ns ≠ s.output.names → w.disk.find? ns = none) :
    Grounded run s (· = h.context) (fun _ => False) x := by
  obtain ⟨z, hz, hall, hsame⟩ := Kept.ready tree resolved started
  have hgz : Grounded run s (· = h.context) (fun _ => False) z := by
    refine ⟨fun ns e hin hne he => ?_, fun m _ hf _ => ?_⟩
    · rw [hsame ns hin hne, hempty ns hin hne] at he
      cases he
    · have hin : s.output.names <+: (s.output.child (m ++ ".js")).names := List.prefix_append _ _
      have hne : (s.output.child (m ++ ".js")).names ≠ s.output.names := by simp [Path.child]
      rw [hsame _ hin hne, hempty _ hin hne] at hf
      cases hf
  exact hgz.compileExisting hz (isPlain_root tree.isConnected resolved) rfl hall

theorem Session.grounded {w : World} {cs : List Context} (hx : Session run s w cs h x)
    (hempty : ∀ ns, s.output.names <+: ns → ns ≠ s.output.names → w.disk.find? ns = none) :
    h.context ∈ cs ∧ Grounded run s (· ∈ cs) (fun _ => False) x := by
  induction hx with
  | start tree resolved started =>
    exact ⟨by simp, (Grounded.start tree resolved started hempty).mono (by simp)⟩
  | @batch cs h h' x y d changes before tree kept reported handled ih =>
    refine ⟨by simp, ?_⟩
    obtain ⟨hforce, hg⟩ := ih
    obtain ⟨hroot, hk⟩ := before.kept
    obtain ⟨es, hes, hall⟩ := handleChanges_eq_ok handled
    have hpaths := mem_paths_iff hes
    have hg' : Grounded run s (· ∈ h'.context :: cs) _ _ :=
      (hg.disturbed kept reported).mono fun c hc => List.mem_cons_of_mem _ hc
    refine hg'.handleAll (hk.disturbed hroot tree kept reported) hroot (fun e he => ?_)
      (events_eq_ok hes).2 (nodup_paths hes) (fun n hn => (hpaths _).2 hn)
      (List.mem_cons_of_mem _ hforce) (by simp) hall
    obtain ⟨m, hm, hpath, hacc⟩ :=
      reported.child hroot ((hpaths e.path).1 (List.mem_map_of_mem he))
    exact ⟨m, hm, hpath, hacc⟩

/-! ## What is left in the output directory -/

open Sample

theorem no_compiled (source : String) (ns : List String) (hin : settings.output.names <+: ns)
    (hne : ns ≠ settings.output.names) : (project source none).find? ns = none := by
  obtain ⟨t, rfl⟩ := hin
  have ht : t.isEmpty = false := by simpa using fun he => hne (by simp [he])
  simp [Disk.find?, project, settings, root, Path.child, List.lookup_cons, ht]

/-- In a session that starts without compiled scripts, all that is in the output directory is the
compiled form of a script at the top level. It was compiled in a context of the session and from the
text of the script at that moment, the script is still there, and what is there is up to date if the
script passes. -/
theorem Session.compiled_from_script {d₀ : Disk} {cs : List Context}
    (hx : Session run s { disk := d₀, log := [] } cs h x)
    (hempty : ∀ ns, s.output.names <+: ns → ns ≠ s.output.names → d₀.find? ns = none)
    {ns : List String} {e : Entry} (hin : s.output.names <+: ns) (hne : ns ≠ s.output.names)
    (he : x.disk.find? ns = some e) :
    ∃ script bytes, script.parent = s.root ∧
      ns = (s.output.child (script.stem ++ ".js")).names ∧ e = .file bytes ∧
      (∃ c ∈ cs, ∃ d source output,
        (d, .write (s.output.child (script.stem ++ ".js")) bytes) ∈ x.history ∧
        d.text? script = some source ∧ Eligible c script source ∧
        run (Compiler.command Compiler.program c.options script) source = .ok output ∧
        Text.Utf8.encoded output = .ok bytes) ∧
      (script.stem ≠ ".ts" →
        script.name = script.stem ++ ".ts" ∧ (x.disk.entryAt? script).isSome) ∧
      (script ∈ listed x.disk s.root → isScript script = true → ∀ source output,
        x.disk.text? script = some source → Eligible h.context script source →
        run (Compiler.command Compiler.program h.context.options script) source = .ok output →
        Text.Utf8.encoded output = .ok bytes) := by
  obtain ⟨-, hg⟩ := hx.grounded hempty
  obtain ⟨hroot, hk⟩ := hx.kept
  obtain ⟨hc, hcr, hco⟩ := hk.plain hroot
  obtain ⟨n, bytes, hn, hacc, hns, hfile, hfits, c, d, source, output, hforce, hmem, hsource,
    hpasses, henc⟩ := hg.origin ns e hin hne he
  subst hns hfile
  refine ⟨s.root.child n, bytes, Path.parent_child _ _, rfl, rfl,
    ⟨c, hforce, d, source, output, hmem, hsource, hpasses.eligible, hpasses.compiles, henc⟩,
    fun hstem => ?_, fun hl hw source output hsource heligible hcompiles => ?_⟩
  · obtain ⟨-, hname⟩ := eq_stem_append hacc hstem
    have hthere := hg.source _ hstem (by rw [he]; rfl) id
    rw [← hname] at hthere
    exact ⟨by rwa [Path.name_child], hthere⟩
  · have hl : isListed n = true := by
      obtain ⟨n', -, hl, hp⟩ := mem_listed_iff.1 hl
      have := congrArg Path.name hp
      simp only [Path.name_child] at this
      rwa [this]
    have hparent : ((s.root.child n).stem ++ ".js") ≠ ".." :=
      (Path.isName_js (Path.noSlash_stem _ hn)).ne_parent
    have hthere := Disk.entryAt?_child_of_find? (hco ▸ hc.outputPlain) hk.output hparent hfits he
    have hpath := h.context.outputOf_child s.root hn
    rw [hco] at hpath
    obtain ⟨bytes', henc', hread⟩ := hk.current n hn hl hw id source output hsource
      ⟨heligible, hcompiles⟩ (hpath ▸ Disk.mayWrite_of_file hthere)
    rw [hpath, Disk.read_eq_ok_iff, hthere] at hread
    simp only [Option.some.injEq, Entry.file.injEq] at hread
    rwa [hread]

/-- A script that is broken while it is watched leaves what it was compiled to before. -/
theorem Session.compiled_from_script_broken : ∃ cs h x,
    Session echo settings (fresh "" none) cs h x ∧ x.disk.text? script = some ")" ∧
    ∃ script' bytes, artifact.names = (settings.output.child (script'.stem ++ ".js")).names ∧
      ∃ d source, (d, .write (settings.output.child (script'.stem ++ ".js")) bytes) ∈ x.history ∧
        d.text? script' = some source ∧ Text.Utf8.encoded source = .ok bytes := by
  obtain ⟨cs, h, x, hs, -, hx⟩ := session_broken
  have hs' : Session echo settings { disk := project "" none, log := [] } cs h x := hs
  have hsource : x.disk.text? script = some ")" := by
    rw [hx]
    rfl
  have hthere : x.disk.find? artifact.names = some (.file (bytesOf "")) := by
    rw [hx]
    rfl
  obtain ⟨script', bytes, -, hns, -, ⟨c, -, d, source, output, hmem, htext, -, hrun, henc⟩, -⟩ :=
    Session.compiled_from_script hs' (no_compiled "") (by decide) (by decide) hthere
  cases hrun
  exact ⟨cs, h, x, hs, hsource, script', bytes, hns, d, source, hmem, htext, henc⟩

/-- What is in the output directory need not be what the script is compiled to now. -/
theorem Session.not_compiled_now : ¬∀ (run : Runner) (s : Settings) (d₀ : Disk) (cs : List Context)
    (h : Handler) (x : World), Session run s { disk := d₀, log := [] } cs h x →
    (∀ ns, s.output.names <+: ns → ns ≠ s.output.names → d₀.find? ns = none) →
    ∀ stem bytes, x.disk.read (s.output.child (stem ++ ".js")) = .ok bytes →
      ∃ source output, x.disk.text? (s.root.child (stem ++ ".ts")) = some source ∧
        Eligible h.context (s.root.child (stem ++ ".ts")) source ∧
        run (Compiler.command Compiler.program h.context.options (s.root.child (stem ++ ".ts")))
          source = .ok output ∧
        Text.Utf8.encoded output = .ok bytes := by
  intro hall
  obtain ⟨cs, h, x, hs, hc, hx⟩ := session_broken
  have hread : x.disk.read (settings.output.child ("a" ++ ".js")) = .ok (bytesOf "") := by
    rw [hx]
    rfl
  have hsource : x.disk.text? (settings.root.child ("a" ++ ".ts")) = some ")" := by
    rw [hx]
    rfl
  obtain ⟨source, output, htext, heligible, -⟩ :=
    hall echo settings (project "" none) cs h x hs (no_compiled "") "a" _ hread
  rw [hsource, Option.some.injEq] at htext
  exact not_eligible_broken hc (htext ▸ heligible)

end FlowPipeline.Watch
