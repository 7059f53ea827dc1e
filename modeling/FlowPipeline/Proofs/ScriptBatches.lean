import FlowPipeline.Proofs.ScriptDrafts

/-! # Batches of scripts

A batch attempts each of its scripts once, whatever becomes of the others, and succeeds unless one
of them fails or the one that was asked for is blocked. Scripts of different stems neither write the
same file nor read what another one writes, so that a batch comes to the same in any order. The
order matters in one case only: a path that leads through the output directory with `..` leads
nowhere before the directory is made.
-/

namespace FlowPipeline

/-- A compiler makes a text that can be written, or fails as a compiler does. -/
structure Runner.IsSound (run : Runner) : Prop where
  fails : ∀ command source f, run command source = .error f →
    (∃ e, f = .compilation e) ∨ ∃ e, f = .file e
  encodes : ∀ command source output, run command source = .ok output →
    ∃ bytes, Text.Utf8.encoded output = .ok bytes

namespace Build
open Work

/-- The scripts are compiled one after another, each once, and each comes to an outcome. -/
inductive Attempts (run : Runner) (c : Context) : World → List (Path × Outcome) → World → Prop where
  | nil (x : World) : Attempts run c x [] x
  | cons {x y z : World} {p : Path} {o : Outcome} {rs : List (Path × Outcome)}
    (h : (compileScript run c p).on x = (.ok o, y)) (hs : Attempts run c y rs z) :
    Attempts run c x ((p, o) :: rs) z

/-- Scripts by paths of different stems. Their texts are without the characters that stand for
halves of pairs, which no file holds. -/
structure IsBatch (d : Disk) (ps : List Path) : Prop where
  proper : ∀ p ∈ ps, p.IsProper
  stems : (ps.map Path.stem).Nodup
  encodes : ∀ p ∈ ps, ∀ source, d.text? p = some source →
    ∃ bytes, Text.Utf8.encoded source = .ok bytes

variable {run : Runner} {c : Context} {requested : Option String} {d b : Disk} {x y : World}
  {p q : Path} {ps qs : List Path}

theorem IsBatch.perm (h : IsBatch d ps) (hqs : qs.Perm ps) : IsBatch d qs where
  proper q hq := h.proper q (hqs.mem_iff.1 hq)
  stems := (hqs.map Path.stem).nodup_iff.2 h.stems
  encodes q hq := h.encodes q (hqs.mem_iff.1 hq)

theorem IsBatch.tail (h : IsBatch d (p :: ps)) : IsBatch d ps where
  proper := (List.forall_mem_cons.1 h.proper).2
  stems := (List.nodup_cons.1 h.stems).2
  encodes := (List.forall_mem_cons.1 h.encodes).2

/-! ## Outcomes -/

theorem compileAll_eq_ok {fine : Bool} (h : (compileAll run c requested ps).on x = (.ok fine, y)) :
    ∃ rs, Attempts run c x rs y ∧ rs.map Prod.fst = ps ∧
      fine = rs.all fun r => r.2.isFine (requested == some r.1.stem) := by
  induction ps generalizing x fine with
  | nil =>
    cases h
    exact ⟨[], .nil y, rfl, rfl⟩
  | cons p ps ih =>
    obtain ⟨o, z, hs, h⟩ := on_bind_eq_ok h
    obtain ⟨rest, z', hrest, h⟩ := on_bind_eq_ok h
    cases h
    obtain ⟨rs, hrs, hpaths, hfine⟩ := ih hrest
    exact ⟨(p, o) :: rs, .cons hs hrs, by rw [List.map_cons, hpaths], by rw [List.all_cons, hfine]⟩

theorem Outcome.isFine_eq_false_iff (o : Outcome) (requested : Bool) :
    o.isFine requested = false ↔
      (∃ message, o = .failed message) ∨ (∃ report, o = .blocked report) ∧ requested = true := by
  cases o <;> simp [isFine]

theorem all_isFine_eq_false_iff (rs : List (Path × Outcome)) :
    (rs.all fun r => r.2.isFine (requested == some r.1.stem)) = false ↔
      ∃ p o, (p, o) ∈ rs ∧ ((∃ message, o = .failed message) ∨
        (∃ report, o = .blocked report) ∧ requested = some p.stem) := by
  rw [List.all_eq_false]
  constructor
  · rintro ⟨⟨p, o⟩, hr, hnot⟩
    rw [Bool.not_eq_true, Outcome.isFine_eq_false_iff, beq_iff_eq] at hnot
    exact ⟨p, o, hr, hnot⟩
  · rintro ⟨p, o, hr, hnot⟩
    refine ⟨(p, o), hr, ?_⟩
    rw [Bool.not_eq_true, Outcome.isFine_eq_false_iff, beq_iff_eq]
    exact hnot

theorem isOfScript_of_refused (hrun : run.IsSound)
    (hsource : ∀ source, d.text? p = some source → ∃ bytes, Text.Utf8.encoded source = .ok bytes)
    {f : Fault} (h : draft run c d p = .refused f) : isOfScript f = true := by
  unfold draft at h
  rcases hflow : c.flowOf? p with _ | flow
  · simp [hflow] at h
  rcases htext : d.text? p with _ | source
  · simp [hflow, htext] at h
  simp only [hflow, htext] at h
  rcases hlint : Lint.lint source flow.type c.models p.toText with failure | report
  · rw [hlint] at h
    cases h
    rcases Lint.failsOnly_lint source flow.type c.models p.toText failure hlint with
      ⟨line, rfl⟩ | ⟨e, rfl, he⟩
    · rfl
    · obtain ⟨bytes, hbytes⟩ := hsource source htext
      rw [he] at hbytes
      cases hbytes
  · simp only [hlint] at h
    split_ifs at h
    rcases hout : run (Compiler.command Compiler.program c.options p) source with f' | output
    · rw [hout] at h
      cases h
      rcases hrun.fails _ _ f hout with ⟨e, rfl⟩ | ⟨e, rfl⟩ <;> rfl
    · simp [hout] at h

/-- Nothing escapes if the compiler is sound and the text can be encoded. -/
theorem verdict_eq_ok (hrun : run.IsSound)
    (hsource : ∀ source, d.text? p = some source → ∃ bytes, Text.Utf8.encoded source = .ok bytes) :
    ∃ status, verdict run c d p = .ok status := by
  unfold verdict
  rcases hdraft : draft run c d p with _ | _ | f | report | ⟨report, output⟩
  case refused =>
    have hown := isOfScript_of_refused hrun hsource hdraft
    simp only [settled, hown, if_true]
    exact ⟨_, rfl⟩
  case ready =>
    obtain ⟨flow, source, -, -, -, -, hout⟩ := draft_eq_ready hdraft
    obtain ⟨bytes, hbytes⟩ := hrun.encodes _ _ output hout
    simp only [hbytes]
    split_ifs <;> exact ⟨_, rfl⟩
  all_goals exact ⟨_, rfl⟩

theorem batch_eq_ok (requested : Option String) {st : Path → String}
    (hst : ∀ p ∈ ps, verdict run c d p = .ok (st p)) :
    batch run c d requested ps =
        .ok (ps.all fun p => isFineStatus (requested == some p.stem) (st p)) ∧
      writes run c d ps = ps.filterMap (written? run c d) := by
  induction ps with
  | nil => exact ⟨rfl, rfl⟩
  | cons p ps ih =>
    obtain ⟨hp, hps⟩ := List.forall_mem_cons.1 hst
    obtain ⟨hbatch, hwrites⟩ := ih hps
    rw [batch, writes, hp, hbatch, hwrites]
    refine ⟨rfl, ?_⟩
    rw [List.filterMap_cons]
    cases written? run c d p <;> rfl

/-! ## Scripts of different stems -/

theorem names_of_written? (hp : p.IsProper) {w : List String × List UInt8}
    (hw : written? run c b p = some w) : ∃ m, w.1 = m ++ [p.stem ++ ".js"] := by
  obtain ⟨-, -, -, htarget, -⟩ := written?_eq_some_iff.1 hw
  have hout : (c.outputOf p).names = c.output.names ++ [p.stem ++ ".js"] := by
    rw [c.outputOf_eq hp.noSlash_name]
    rfl
  exact Disk.locate_append_eq_ok hout (Path.append_js_ne _ (by decide))
    (Disk.target?_eq_some_iff.1 htarget).1

/-- A script that is written has a text, and so a name. -/
theorem names_of_ready (hlead : b.LeadsByName p) (hready : IsReady run c b p) :
    ∃ l, p.names = l ++ [p.name] := by
  obtain ⟨report, output, hdraft⟩ := hready
  obtain ⟨-, source, -, htext, -⟩ := draft_eq_ready hdraft
  obtain ⟨bytes, hentry⟩ := Disk.entryAt?_of_text? htext
  obtain ⟨ns, hl, hf⟩ := Disk.entryAt?_eq_some_iff.1 hentry
  obtain ⟨l, -, hnames, -⟩ := hlead ns hl (by simp [hf])
  exact ⟨l, hnames⟩

theorem isReady_of_written? {w : List String × List UInt8} (hw : written? run c b p = some w) :
    IsReady run c b p := by
  obtain ⟨report, output, hdraft, -⟩ := written?_eq_some_iff.1 hw
  exact ⟨report, output, hdraft⟩

/-- A script does not read what one of another stem writes. -/
theorem locate_ne_of_written? (hp : p.IsProper) (hlead : b.LeadsByName p)
    (hlead' : b.LeadsByName q) (hstem : p.stem ≠ q.stem) {w : List String × List UInt8}
    (hw : written? run c b p = some w) : b.locate q ≠ .ok w.1 := by
  intro hl
  obtain ⟨l, hnames⟩ := names_of_ready hlead (isReady_of_written? hw)
  obtain ⟨m, hm⟩ := names_of_written? hp hw
  obtain ⟨-, -, -, htarget, -⟩ := written?_eq_some_iff.1 hw
  obtain ⟨-, m', -, hm'⟩ := hlead' w.1 hl (Disk.target?_eq_some_iff.1 htarget).2
  have hname : q.name = p.stem ++ ".js" := by
    rw [hm] at hm'
    simpa using (List.append_inj' hm' rfl).2.symm
  have hne : p.stem ≠ "" := by
    refine Path.stem_ne_empty fun hempty => hp.ne_empty ?_
    rw [hnames, hempty]
    simp
  refine hstem ?_
  rw [Path.stem, Path.stem, hname, Path.splitName_js, if_neg hne]
  rfl

/-- Scripts of different stems do not write the same file. -/
theorem written?_ne (hp : p.IsProper) (hq : q.IsProper) (hstem : p.stem ≠ q.stem)
    {v w : List String × List UInt8} (hv : written? run c b p = some v)
    (hw : written? run c b q = some w) : v.1 ≠ w.1 := by
  intro heq
  obtain ⟨m, hm⟩ := names_of_written? hp hv
  obtain ⟨m', hm'⟩ := names_of_written? hq hw
  rw [hm, hm'] at heq
  have hlast : p.stem ++ ".js" = q.stem ++ ".js" := by
    simpa using (List.append_inj' heq rfl).2
  exact hstem ((String.append_left_inj ".js").1 hlast)

theorem IsBatch.apart (run : Runner) (c : Context) (h : IsBatch b ps)
    (hlead : ∀ p ∈ ps, b.LeadsByName p) :
    ps.Pairwise fun p q => ∀ w, written? run c b p = some w → b.locate q ≠ .ok w.1 :=
  (List.pairwise_map.1 h.stems).imp_of_mem fun hp hq hstem _ hw =>
    locate_ne_of_written? (h.proper _ hp) (hlead _ hp) (hlead _ hq) hstem hw

theorem IsBatch.congr (h : IsBatch d ps) (htext : ∀ p ∈ ps, b.text? p = d.text? p) :
    IsBatch b ps where
  proper := h.proper
  stems := h.stems
  encodes p hp source hsource := h.encodes p hp source (htext p hp ▸ hsource)

/-! ## The output directory before and after -/

/-- If no script passes, or the output directory cannot be made, nothing changes. -/
theorem compileAll_still (requested : Option String) {st : Path → String} (hx : x.disk = d)
    (hps : ∀ p ∈ ps, p.IsProper)
    (hstuck : ∀ p ∈ ps, IsReady run c d p →
      st p = (Outcome.failed "").name ∧ ∃ f, Edit.apply d (.makeDirs c.output) = .error f)
    (hidle : ∀ p ∈ ps, ¬IsReady run c d p → verdict run c d p = .ok (st p)) :
    ∃ y, (compileAll run c requested ps).on x =
      (.ok (ps.all fun p => isFineStatus (requested == some p.stem) (st p)), y) ∧ y.disk = d := by
  induction ps generalizing x with
  | nil => exact ⟨x, rfl, hx⟩
  | cons p ps ih =>
    obtain ⟨hp, hps⟩ := List.forall_mem_cons.1 hps
    obtain ⟨hstuckp, hstuck⟩ := List.forall_mem_cons.1 hstuck
    obtain ⟨hidlep, hidle⟩ := List.forall_mem_cons.1 hidle
    rcases hs : (compileScript run c p).on x with ⟨r, z⟩
    have hstep : z.disk = d ∧ r.map Outcome.name = .ok (st p) := by
      subst hx
      by_cases hready : IsReady run c x.disk p
      · obtain ⟨hst, f, hf⟩ := hstuckp hready
        have hparent := c.parent_outputOf hp.noSlash_name
        rw [hst]
        exact compileScript_stuck hready (hparent ▸ hf) hs
      · rw [← hidlep hready]
        exact compileScript_idle hready hs
    obtain ⟨hz, hname⟩ := hstep
    rcases r with f | o
    · cases hname
    obtain ⟨y, hrest, hy⟩ := ih hz hps hstuck hidle
    refine ⟨y, (on_bind_ok hs).trans ((on_bind_ok hrest).trans ?_), hy⟩
    rw [List.all_cons, Outcome.isFine_eq, show o.name = st p from Except.ok.inj hname]
    rfl

/-- Once a script has passed, it is as if the output directory had been there from the start. -/
theorem compileAll_made (hx : x.disk = d) (hps : IsBatch b ps)
    (hlead : ∀ p ∈ ps, b.LeadsByName p) (hdirs : Edit.apply d (.makeDirs c.output) = .ok b)
    (hout : b.entryAt? c.output = some .dir) (htext : ∀ p ∈ ps, b.text? p = d.text? p)
    (hok : ∀ p ∈ ps, ∃ status, verdict run c b p = .ok status)
    (hready : ∃ p ∈ ps, IsReady run c d p) {r : Except Fault Bool}
    (h : (compileAll run c requested ps).on x = (r, y)) :
    r = batch run c b requested ps ∧ y.disk = b.stored (writes run c b ps) := by
  induction ps generalizing x y r with
  | nil =>
    obtain ⟨p, hp, -⟩ := hready
    cases hp
  | cons p ps ih =>
    have hapart := List.pairwise_cons.1 (hps.apart run c hlead)
    have hnames : ∀ q ∈ ps, '/' ∉ q.name.toList :=
      fun q hq => (hps.proper q (List.mem_cons_of_mem p hq)).noSlash_name
    have hp := hps.proper p List.mem_cons_self
    have hparent := c.parent_outputOf hp.noSlash_name
    have hsame : draft run c b p = draft run c x.disk p :=
      draft_congr run c (hx ▸ htext p List.mem_cons_self)
    rcases hs : (compileScript run c p).on x with ⟨r', z⟩
    by_cases hfirst : IsReady run c x.disk p
    · obtain ⟨hz, hname⟩ := compileScript_ready hfirst (by rw [hparent, hx, hdirs]) hsame hs
      refine compileAll_cons hs hname (fun _ _ => hz) (fun r'' z' hrest => ?_) h
      rw [← hz]
      refine compileAll_spec hout hnames hapart.2 (hz ▸ level_stored (.refl (fun _ => False) b) p)
        (fun q hq ns hl => ?_) hrest
      rintro (hnone | ⟨w, hw, rfl⟩)
      · exact hnone
      · exact hapart.1 q hq w hw hl
    · -- The first script leaves everything as it is, and passes no more later on.
      obtain ⟨hz, hname⟩ := compileScript_idle hfirst hs
      have hnot : ¬IsReady run c b p := by
        unfold IsReady
        rw [hsame]
        exact hfirst
      rw [← verdict_of_idle hfirst hsame] at hname
      refine compileAll_cons (e := b) hs hname (fun f hf => ?_) (fun r'' z' hrest => ?_) h
      · obtain ⟨status, hstatus⟩ := hok p List.mem_cons_self
        rw [hf, hstatus] at hname
        cases hname
      · rw [written?_eq_none hnot]
        refine ih (hz.trans hx) hps.tail (List.forall_mem_cons.1 hlead).2
          (List.forall_mem_cons.1 htext).2 (List.forall_mem_cons.1 hok).2 ?_ hrest
        obtain ⟨q, hq, hreadyq⟩ := hready
        rcases List.mem_cons.1 hq with rfl | hq
        · exact absurd (hx ▸ hreadyq) hfirst
        · exact ⟨q, hq, hreadyq⟩

/-- In any order, a batch comes to the same statuses and writes the same files, each of its own
names. -/
structure Settles (run : Runner) (c : Context) (requested : Option String) (x : World)
    (ps : List Path) (b : Disk) (st : Path → String)
    (w? : Path → Option (List String × List UInt8)) : Prop where
  named : ∀ p ∈ ps, ∀ w, w? p = some w → w.1 ≠ []
  apart : ∀ p ∈ ps, ∀ q ∈ ps, p.stem ≠ q.stem → ∀ v w, w? p = some v → w? q = some w → v.1 ≠ w.1
  on : ∀ qs, qs.Perm ps → ∃ y, (compileAll run c requested qs).on x =
    (.ok (qs.all fun p => isFineStatus (requested == some p.stem) (st p)), y) ∧
      y.disk = b.stored (qs.filterMap w?)

theorem Settles.of_batch (hps : IsBatch b ps) {st : Path → String}
    (hst : ∀ p ∈ ps, verdict run c b p = .ok (st p))
    (hon : ∀ qs, qs.Perm ps → ∀ r y, (compileAll run c requested qs).on x = (r, y) →
      r = batch run c b requested qs ∧ y.disk = b.stored (writes run c b qs)) :
    Settles run c requested x ps b st (written? run c b) where
  named p _ w hw := ne_nil_of_written? hw
  apart p hp q hq hstem v w := written?_ne (hps.proper p hp) (hps.proper q hq) hstem
  on qs hqs := by
    obtain ⟨hr, hdisk⟩ := hon qs hqs _ _ rfl
    obtain ⟨hbatch, hwrites⟩ := batch_eq_ok requested
      fun p hp => hst p (hqs.mem_iff.1 hp)
    rw [hbatch] at hr
    rw [hwrites] at hdisk
    exact ⟨_, Prod.ext hr rfl, hdisk⟩

theorem settles_of_outputDir (hd : x.disk.IsConnected)
    (hhere : x.disk.find? x.disk.here = some .dir) (hrun : run.IsSound)
    (hps : IsBatch x.disk ps) (hout : x.disk.entryAt? c.output = some .dir) :
    ∃ b st w?, Settles run c requested x ps b st w? := by
  have hok : ∀ p ∈ ps, ∃ status, verdict run c x.disk p = .ok status :=
    fun p hp => verdict_eq_ok hrun (hps.encodes p hp)
  choose! st hst using hok
  have hlead (p : Path) : x.disk.LeadsByName p := hd.leadsByName hhere p
  refine ⟨x.disk, st, _, .of_batch hps hst fun qs hqs r y h => ?_⟩
  have hqs := hps.perm hqs
  exact compileAll_spec hout (fun p hp => (hqs.proper p hp).noSlash_name)
    (hqs.apart run c fun p _ => hlead p) (.refl (fun _ => False) x.disk) (fun _ _ _ _ => id) h

/-- If a script passes and the output directory can be made, all is as if the directory had been
there. -/
theorem settles_of_made (hd : x.disk.IsConnected) (hhere : x.disk.find? x.disk.here = some .dir)
    (hrun : run.IsSound) (hps : IsBatch x.disk ps) (hnone : ∀ p ∈ ps, ".." ∉ p.names)
    (hready : ∃ p ∈ ps, IsReady run c x.disk p)
    (hdirs : Edit.apply x.disk (.makeDirs c.output) = .ok b) :
    ∃ st w?, Settles run c requested x ps b st w? := by
  obtain ⟨hext, hout⟩ := Disk.makeDirs_extends hdirs
  have htext : ∀ p ∈ ps, b.text? p = x.disk.text? p :=
    fun p hp => Disk.text?_makeDirs hd hdirs (hnone p hp)
  have hpsb := hps.congr htext
  have hok : ∀ p ∈ ps, ∃ status, verdict run c b p = .ok status :=
    fun p hp => verdict_eq_ok hrun (hpsb.encodes p hp)
  have hhereb : b.find? b.here = some .dir := by
    rw [hext.here]
    exact hext.find? _ _ hhere
  obtain ⟨st, hst⟩ : ∃ st : Path → String, ∀ p ∈ ps, verdict run c b p = .ok (st p) := by
    choose! st hst using hok
    exact ⟨st, hst⟩
  refine ⟨st, _, .of_batch hpsb hst fun qs hqs r y h => ?_⟩
  have hmem {q : Path} (hq : q ∈ qs) : q ∈ ps := hqs.mem_iff.1 hq
  obtain ⟨p, hp, hpready⟩ := hready
  exact compileAll_made rfl (hpsb.perm hqs)
    (fun q hq => Disk.leadsByName_of_noParent hhereb (hnone q (hmem hq))) hdirs hout
    (fun q hq => htext q (hmem hq)) (fun q hq => hok q (hmem hq)) ⟨p, hqs.mem_iff.2 hp, hpready⟩ h

/-- If a script that passes keeps the output directory from being made, nothing is ever written. -/
theorem settles_of_stuck (hrun : run.IsSound) (hps : IsBatch x.disk ps)
    (hstuck : ∀ p ∈ ps, IsReady run c x.disk p →
      ∃ f, Edit.apply x.disk (.makeDirs c.output) = .error f) :
    ∃ st w?, Settles run c requested x ps x.disk st w? := by
  have hok : ∀ p ∈ ps, ∃ status,
      (IsReady run c x.disk p → status = (Outcome.failed "").name ∧
        ∃ f, Edit.apply x.disk (.makeDirs c.output) = .error f) ∧
      (¬IsReady run c x.disk p → verdict run c x.disk p = .ok status) := by
    intro p hp
    by_cases hready : IsReady run c x.disk p
    · exact ⟨_, fun _ => ⟨rfl, hstuck p hp hready⟩, fun hnot => absurd hready hnot⟩
    · obtain ⟨status, hstatus⟩ := verdict_eq_ok hrun (hps.encodes p hp)
      exact ⟨status, fun h => absurd h hready, fun _ => hstatus⟩
  choose! st hst using hok
  refine ⟨st, fun _ => none, nofun, nofun, fun qs hqs => ?_⟩
  have hmem {q : Path} (hq : q ∈ qs) : q ∈ ps := hqs.mem_iff.1 hq
  obtain ⟨y, hon, hy⟩ := compileAll_still requested rfl
    (fun q hq => hps.proper q (hmem hq)) (fun q hq => (hst q (hmem hq)).1)
    (fun q hq => (hst q (hmem hq)).2)
  have hnothing : qs.filterMap (fun _ => (none : Option (List String × List UInt8))) = [] := by
    simp
  refine ⟨y, hon, ?_⟩
  rw [hy, hnothing]
  rfl

theorem settles_of_noParent (hd : x.disk.IsConnected)
    (hhere : x.disk.find? x.disk.here = some .dir) (hrun : run.IsSound)
    (hps : IsBatch x.disk ps) (hnone : ∀ p ∈ ps, ".." ∉ p.names) :
    ∃ b st w?, Settles run c requested x ps b st w? := by
  by_cases hready : ∃ p ∈ ps, IsReady run c x.disk p
  · rcases hdirs : Edit.apply x.disk (.makeDirs c.output) with f | b
    · exact ⟨x.disk, settles_of_stuck hrun hps fun _ _ _ => ⟨f, hdirs⟩⟩
    · exact ⟨b, settles_of_made hd hhere hrun hps hnone hready hdirs⟩
  · exact ⟨x.disk, settles_of_stuck hrun hps fun p hp h => absurd ⟨p, hp, h⟩ hready⟩

theorem Settles.alike {st : Path → String} {w? : Path → Option (List String × List UInt8)}
    (h : Settles run c requested x ps b st w?) (hstems : (ps.map Path.stem).Nodup)
    (hqs : qs.Perm ps) : (b.stored (ps.filterMap w?)).Alike (b.stored (qs.filterMap w?)) := by
  refine Disk.stored_perm (hqs.filterMap w?).symm ?_ (fun w hw => ?_) b
  · refine List.pairwise_map.2 (List.pairwise_filterMap.2 ?_)
    exact (List.pairwise_map.1 hstems).imp_of_mem fun hp hq hstem v hv w hw =>
      h.apart _ hp _ hq hstem v w hv hw
  · obtain ⟨p, hp, hw⟩ := List.mem_filterMap.1 hw
    exact h.named p hp w hw

/-- A batch attempts every script once and never fails as a whole; it succeeds unless a script fails
or the requested one is blocked; and in any order it comes to the same and leaves the same file
system behind. -/
theorem compileAll_anyOrder (hd : x.disk.IsConnected)
    (hhere : x.disk.find? x.disk.here = some .dir) (hrun : run.IsSound) (hps : IsBatch x.disk ps)
    (hways : x.disk.entryAt? c.output = some .dir ∨ ∀ p ∈ ps, ".." ∉ p.names)
    (requested : Option String) : ∃ rs fine y,
      (compileAll run c requested ps).on x = (.ok fine, y) ∧
      Attempts run c x rs y ∧ rs.map Prod.fst = ps ∧
      (fine = false ↔ ∃ p o, (p, o) ∈ rs ∧ ((∃ message, o = .failed message) ∨
        (∃ report, o = .blocked report) ∧ requested = some p.stem)) ∧
      ∀ qs, qs.Perm ps → ∃ y', (compileAll run c requested qs).on x = (.ok fine, y') ∧
        y.disk.Alike y'.disk := by
  have hsettles : ∃ b st w?, Settles run c requested x ps b st w? := by
    rcases hways with hout | hnone
    · exact settles_of_outputDir hd hhere hrun hps hout
    · exact settles_of_noParent hd hhere hrun hps hnone
  obtain ⟨b, st, w?, h⟩ := hsettles
  obtain ⟨y, hon, hy⟩ := h.on ps (.refl ps)
  obtain ⟨rs, hrs, hpaths, hfine⟩ := compileAll_eq_ok hon
  refine ⟨rs, _, y, hon, hrs, hpaths, ?_, fun qs hqs => ?_⟩
  · rw [hfine]
    exact all_isFine_eq_false_iff rs
  · obtain ⟨y', hon', hy'⟩ := h.on qs hqs
    refine ⟨y', ?_, ?_⟩
    · rw [hon', hqs.all_eq]
    · rw [hy, hy']
      exact h.alike hps.stems hqs

/-! ## Two actions -/

/-- A compiler that makes an empty text of everything. -/
def blank : Runner := fun _ _ => .ok ""

theorem isSound_blank : blank.IsSound :=
  ⟨nofun, fun _ _ _ h => ⟨[], by cases h; rfl⟩⟩

/-- The context of a project with two actions. -/
def twoActions : Context where
  root := Sample.root
  output := Sample.root.child "dist"
  integrations :=
    let action (name : String) : Flow :=
      ⟨name, "action", none, false, false, [], [], "", [], []⟩
    [⟨"i", [], [action "a", action "b"], none⟩]
  models := []
  options := .standard

/-- The project with an empty script for each, and without an output directory. -/
def twoScripts : World where
  disk := {
    entries := [(["p"], .dir), (["p", "a.ts"], .file []), (["p", "b.ts"], .file [])]
    here := ["p"] }
  log := []

theorem isConnected_twoScripts : twoScripts.disk.IsConnected :=
  (Disk.isTree_of_entries (by decide) (by decide)).isConnected

theorem isBatch_twoScripts {p q : Path} (hp : p.IsProper) (hq : q.IsProper)
    (hstem : p.stem ≠ q.stem) (htext : twoScripts.disk.text? p = some "" ∨
      twoScripts.disk.text? p = none) (htext' : twoScripts.disk.text? q = some "" ∨
      twoScripts.disk.text? q = none) : IsBatch twoScripts.disk [p, q] := by
  refine ⟨by simp [hp, hq], by simpa using hstem, ?_⟩
  have hempty : ∃ bytes, Text.Utf8.encoded "" = .ok bytes := ⟨[], rfl⟩
  simp only [List.mem_cons, List.not_mem_nil, or_false]
  rintro r (rfl | rfl) source hsource
  · rcases htext with h | h <;> rw [h] at hsource <;> cases hsource
    exact hempty
  · rcases htext' with h | h <;> rw [h] at hsource <;> cases hsource
    exact hempty

theorem compileAll_anyOrder_twoScripts : ∃ rs fine y y',
    (compileAll blank twoActions none [Sample.root.child "a.ts", Sample.root.child "b.ts"]).on
      twoScripts = (.ok fine, y) ∧
    Attempts blank twoActions twoScripts rs y ∧
    (compileAll blank twoActions none [Sample.root.child "b.ts", Sample.root.child "a.ts"]).on
      twoScripts = (.ok fine, y') ∧
    y.disk.Alike y'.disk := by
  have hproper : ∀ n ∈ ["a.ts", "b.ts"], (Sample.root.child n).IsProper := by
    intro n hn
    have hnames : ∀ n ∈ ["a.ts", "b.ts"], "" ∉ (Sample.root.child n).names ∧
        ∀ m ∈ (Sample.root.child n).names, '/' ∉ m.toList := by decide
    exact ⟨(hnames n hn).1, (hnames n hn).2⟩
  obtain ⟨rs, fine, y, hon, hrs, -, -, hperm⟩ := compileAll_anyOrder (c := twoActions)
    isConnected_twoScripts rfl isSound_blank
    (isBatch_twoScripts (hproper "a.ts" (by simp)) (hproper "b.ts" (by simp)) (by decide)
      (.inl rfl) (.inl rfl)) (.inr (by decide)) none
  obtain ⟨y', hon', halike⟩ := hperm _ (.swap _ _ [])
  exact ⟨rs, fine, y, y', hon, hrs, hon', halike⟩

/-- Through an output directory that is not there yet, a script is found only after another one has
been compiled. -/
theorem not_anyOrder : ¬∀ (run : Runner) (c : Context) (requested : Option String) (x : World)
    (ps qs : List Path), x.disk.IsConnected → x.disk.find? x.disk.here = some .dir →
    run.IsSound → IsBatch x.disk ps → qs.Perm ps →
    ∃ fine y y', (compileAll run c requested ps).on x = (.ok fine, y) ∧
      (compileAll run c requested qs).on x = (.ok fine, y') := by
  intro h
  let p := (Sample.root.child "dist").join (Path.ofString "../b.ts")
  let q := Sample.root.child "a.ts"
  have hproper : ∀ r ∈ [p, q], "" ∉ r.names ∧ ∀ m ∈ r.names, '/' ∉ m.toList := by decide
  have hp := hproper p (by simp)
  have hq := hproper q (by simp)
  have hbatch : IsBatch twoScripts.disk [p, q] :=
    isBatch_twoScripts ⟨hp.1, hp.2⟩ ⟨hq.1, hq.2⟩ (by decide) (.inr rfl) (.inl rfl)
  obtain ⟨fine, y, y', hon, hon'⟩ := h blank twoActions none twoScripts [p, q] [q, p]
    isConnected_twoScripts rfl isSound_blank hbatch (.swap _ _ [])
  have hfirst : ((compileAll blank twoActions none [p, q]).on twoScripts).1.toOption =
      some false := by decide +kernel
  have hsecond : ((compileAll blank twoActions none [q, p]).on twoScripts).1.toOption =
      some true := by decide +kernel
  rw [hon] at hfirst
  rw [hon'] at hsecond
  simp only [Except.toOption, Option.some.injEq] at hfirst hsecond
  rw [hfirst] at hsecond
  cases hsecond

end Build
end FlowPipeline
