import FlowPipeline.Proofs.EventHandling
import FlowPipeline.Proofs.ScriptPaths

/-! # Compiled scripts on disk

Once the output directory is there, compiling a script changes at most the entry of its compiled
form. The entry is then up to date, unless it cannot be written.
-/

namespace FlowPipeline

/-- A context of a project at a plain path, with the output directory `dist`. -/
structure Context.IsPlain (c : Context) : Prop where
  root : c.root.IsPlain
  output : c.output = c.root.child "dist"

namespace Context.IsPlain

variable {c : Context} {n : String}

theorem names_output (h : c.IsPlain) : c.output.names = c.root.names ++ ["dist"] := by
  rw [h.output]
  rfl

theorem outputPlain (h : c.IsPlain) : c.output.IsPlain := by
  rw [h.output]
  exact h.root.child (by decide)

theorem outputOf (h : c.IsPlain) (hn : Path.IsName n) : (c.outputOf (c.root.child n)).IsPlain := by
  rw [c.outputOf_child c.root hn]
  exact h.outputPlain.child (Path.isName_js (Path.noSlash_stem c.root hn)).ne_parent

theorem parent_outputOf (hn : Path.IsName n) :
    (c.outputOf (c.root.child n)).parent = c.output := by
  rw [c.outputOf_child c.root hn, Path.parent_child]

theorem names_outputOf (h : c.IsPlain) (hn : Path.IsName n) :
    (c.outputOf (c.root.child n)).names =
      c.root.names ++ ["dist", (c.root.child n).stem ++ ".js"] := by
  rw [c.outputOf_child c.root hn]
  simp [Path.child, h.output]

end Context.IsPlain

namespace Build
open Work

variable {run : Runner} {c : Context} {script : Path} {x y : World}

/-- The compiled form of a script is that of its text, if the text passes and there may be a
file. -/
def Current (run : Runner) (c : Context) (script : Path) (d : Disk) : Prop :=
  ∀ source output, d.text? script = some source → Passes run c script source output →
    d.MayWrite (c.outputOf script) → d.Holds (c.outputOf script) output

theorem bytesOf_eq {s : String} {bytes : List UInt8} (h : Text.Utf8.encoded s = .ok bytes) :
    bytesOf s = bytes := by
  simp [bytesOf, h]

/-- What is done with the compiled form of a script that passes, if its directory is there. -/
theorem on_emit {p : Path} (output : String) (report : Lint.Report) {x : World}
    (hdir : x.disk.entryAt? p.parent = some .dir) :
    (do
      makeDirs p.parent
      writeText p output
      return .compiled p report : Work Outcome).on x =
      match x.disk.write p (bytesOf output) with
      | .ok d =>
        ((Text.Utf8.encoded output).map (fun _ => Outcome.compiled p report) |>.mapError .encoding,
          { x with
            disk := d
            history := x.history ++
              [(x.disk, .makeDirs p.parent), (x.disk, .write p (bytesOf output))] })
      | .error f =>
        (.error (.file f), { x with history := x.history ++ [(x.disk, .makeDirs p.parent)] }) := by
  have hdirs : (makeDirs p.parent).on x =
      (.ok (), { x with history := x.history ++ [(x.disk, .makeDirs p.parent)] }) := by
    rw [makeDirs, on_change]
    simp only [Edit.apply, Disk.makeDirs_of_entryAt? hdir]
  rw [on_bind_ok hdirs, on_bind, on_writeText]
  rcases x.disk.write p (bytesOf output) with f | d
  · rfl
  · rcases Text.Utf8.encoded output with e | bytes
    · simp [Except.map, Except.mapError]
    · simp [Except.map, Except.mapError]

/-- A script's own failures are outcomes. -/
def settled : Except Fault Outcome → Except Fault Outcome
  | .ok o => .ok o
  | .error e => if isOfScript e then .ok (.failed e.message) else .error e

theorem on_compileScript {flow : Flow} (hflow : c.flowOf? script = some flow)
    {r : Except Fault Outcome} (h : (compileFlow run c script flow.type).on x = (r, y)) :
    ∃ l, (compileScript run c script).on x = (settled r, { y with log := l }) := by
  unfold compileScript
  rw [hflow]
  simp only
  rw [on_bind_ok (on_outcome (compileFlow run c script flow.type) x), h]
  rcases r with e | o
  · cases he : isOfScript e with
    | true =>
      simp only [he, Bool.not_true, Bool.false_eq_true, if_false, settled, if_true]
      exact ⟨_, (on_bind_ok (on_log _ _ y)).trans rfl⟩
    | false =>
      simp only [he, Bool.not_false, if_true, settled, Bool.false_eq_true, if_false]
      exact ⟨y.log, on_bind_error rfl⟩
  · simp only [settled]
    split_ifs
    · exact ⟨_, (on_bind_ok (on_log _ _ y)).trans rfl⟩
    · exact ⟨y.log, rfl⟩

/-- A script that has a flow ends as compiling the flow ends. -/
theorem compileScript_settled {flow : Flow} (hflow : c.flowOf? script = some flow)
    {r r' : Except Fault Outcome} {z : World}
    (hon : (compileFlow run c script flow.type).on x = (r, z))
    (h : (compileScript run c script).on x = (r', y)) :
    r' = settled r ∧ y.disk = z.disk ∧ y.history = z.history := by
  obtain ⟨l, hl⟩ := on_compileScript hflow hon
  rw [h] at hl
  cases hl
  exact ⟨rfl, rfl, rfl⟩

/-- Compiling a script leaves the file system as it is or writes the compiled form. -/
theorem compileScript_cases (hdir : x.disk.entryAt? (c.outputOf script).parent = some .dir)
    {r : Except Fault Outcome} (h : (compileScript run c script).on x = (r, y)) :
    (y.disk = x.disk ∧ ∀ o, r = .ok o → ∀ source output, x.disk.text? script = some source →
      Passes run c script source output → ¬x.disk.MayWrite (c.outputOf script)) ∨
    ∃ source output, x.disk.text? script = some source ∧ Passes run c script source output ∧
      x.disk.write (c.outputOf script) (bytesOf output) = .ok y.disk ∧
      (x.disk, .write (c.outputOf script) (bytesOf output)) ∈ y.history ∧
      ∀ o, r = .ok o → ∃ bytes, Text.Utf8.encoded output = .ok bytes := by
  rcases hflow : c.flowOf? script with _ | flow
  · left
    have hreads : Reads (compileScript run c script) := by
      unfold compileScript
      rw [hflow]
      exact .bind (.log _ _) fun _ => .pure _
    refine ⟨?_, fun o _ source output _ hp => ?_⟩
    · exact hreads.disk_eq h
    · obtain ⟨⟨flow, report, hf, -⟩, -⟩ := hp
      rw [hflow] at hf
      cases hf
  rcases compileFlow_cases run hflow x with
    ⟨r', l, hf, hno⟩ | ⟨source, output, report, l, hsource, hpasses, hf⟩
  · left
    obtain ⟨-, hdisk, -⟩ := compileScript_settled hflow hf h
    exact ⟨hdisk, fun o _ source output hsource hp => absurd hp (hno source output hsource)⟩
  · have hemit := on_emit (x := { x with log := l }) output report hdir
    rw [← hf] at hemit
    rcases hw : x.disk.write (c.outputOf script) (bytesOf output) with f | d
    · left
      simp only [hw] at hemit
      obtain ⟨-, hdisk, -⟩ := compileScript_settled hflow hemit h
      refine ⟨hdisk, fun o _ source' output' _ _ hmay => ?_⟩
      obtain ⟨d', hd'⟩ := hmay.write (bytesOf output)
      rw [hw] at hd'
      cases hd'
    · right
      simp only [hw] at hemit
      obtain ⟨rfl, hdisk, hhistory⟩ := compileScript_settled hflow hemit h
      refine ⟨source, output, hsource, hpasses, by rw [hdisk, hw], by simp [hhistory], fun o ho => ?_⟩
      rcases henc : Text.Utf8.encoded output with e | bytes
      · rw [henc] at ho
        cases ho
      · exact ⟨bytes, rfl⟩

/-! ## Before scripts are compiled -/

section

variable {s : Settings}

theorem not_append_prefix {ns ms : List String} (h : ms ≠ []) : ¬ns ++ ms <+: ns := by
  intro hp
  have hlen := hp.length_le
  have hpos := List.length_pos_iff.2 h
  rw [List.length_append] at hlen
  omega

theorem isName_types : Path.IsName TypeDefinitions.fileName :=
  ⟨by decide, by decide, by decide, by decide⟩

theorem find?_of_isTypes (hroot : s.root.IsPlain) (hl : x.Leads (IsTypes s) y) {ns : List String}
    (hne : ns ≠ (s.root.child TypeDefinitions.fileName).names) :
    y.disk.find? ns = x.disk.find? ns := by
  obtain ⟨es, -, hreplay, hes⟩ := hl
  generalize x.disk = d at hreplay
  generalize y.disk = d' at hreplay
  induction hreplay with
  | nil => rfl
  | cons he _ ih =>
    obtain ⟨⟨bytes, hb⟩, hrest⟩ := List.forall_mem_cons.1 hes
    simp only at hb
    rw [hb] at he
    rw [ih hrest, Disk.find?_write (hroot.child isName_types.ne_parent) he, if_neg hne]

theorem agreesOff_of_isTypes (hroot : s.root.IsPlain) (hl : x.Leads (IsTypes s) y) :
    Disk.AgreesOff (s.root.child TypeDefinitions.fileName).names x.disk y.disk :=
  fun _ hns => find?_of_isTypes hroot hl fun he => hns (he ▸ List.prefix_refl _)

theorem root_of_isTypes (hroot : s.root.IsPlain) (hl : x.Leads (IsTypes s) y)
    (hdir : x.disk.entryAt? s.root = some .dir) : y.disk.entryAt? s.root = some .dir := by
  have hnot : ¬(s.root.child TypeDefinitions.fileName).names <+: s.root.names :=
    not_append_prefix (by simp)
  rw [((agreesOff_of_isTypes hroot hl).along hnot).entryAt? hroot, hdir]

theorem not_output_prefix_types (hs : s.output = s.root.child "dist") :
    ¬s.output.names <+: (s.root.child TypeDefinitions.fileName).names := by
  rw [hs]
  simp [Path.child, TypeDefinitions.fileName]

/-- The type definitions are not in the output directory. -/
theorem find?_output_of_isTypes (hroot : s.root.IsPlain) (hs : s.output = s.root.child "dist")
    (hl : x.Leads (IsTypes s) y) {ns : List String} (hin : s.output.names <+: ns) :
    y.disk.find? ns = x.disk.find? ns :=
  find?_of_isTypes hroot hl fun he => not_output_prefix_types hs (he ▸ hin)

theorem outputDir_of_isTypes (hroot : s.root.IsPlain) (hs : s.output = s.root.child "dist")
    (hl : x.Leads (IsTypes s) y) (hout : x.disk.entryAt? s.output = some .dir) :
    y.disk.entryAt? s.output = some .dir := by
  rw [hs] at hout ⊢
  have hnot : ¬(s.root.child TypeDefinitions.fileName).names <+: (s.root.child "dist").names := by
    simp [Path.child, TypeDefinitions.fileName]
  rw [((agreesOff_of_isTypes hroot hl).along hnot).entryAt? (hroot.child (by decide)), hout]

theorem names_of_isTypes (hroot : s.root.IsPlain) (hl : x.Leads (IsTypes s) y)
    (hnames : ∀ n, (x.disk.find? (s.root.names ++ [n])).isSome → Path.IsName n) :
    ∀ n, (y.disk.find? (s.root.names ++ [n])).isSome → Path.IsName n := by
  intro n hn
  by_cases he : n = TypeDefinitions.fileName
  · rw [he]
    exact isName_types
  · rw [find?_of_isTypes hroot hl] at hn
    · exact hnames n hn
    · simpa [Path.child] using he

theorem isPlain_root {d : Disk} {wishes : Wishes} (hd : d.IsConnected)
    (resolved : Settings.resolve d wishes = .ok s) : s.root.IsPlain := by
  rw [(Settings.resolve_eq_ok resolved).1]
  exact Disk.isPlain_resolve hd.here _

/-- A project whose scripts are about to be compiled: only the type definitions and the output
directory are new. -/
structure Ready (s : Settings) (d₀ d : Disk) : Prop where
  root : d.entryAt? s.root = some .dir
  output : d.entryAt? s.output = some .dir
  names : ∀ n, (d.find? (s.root.names ++ [n])).isSome → Path.IsName n
  same : ∀ ns, ns ≠ (s.root.child TypeDefinitions.fileName).names → ¬ns <+: s.output.names →
    d.find? ns = d₀.find? ns

theorem Ready.of_leads {w : World} {wishes : Wishes} (tree : w.disk.IsTree)
    (resolved : Settings.resolve w.disk wishes = .ok s) (hl : w.Leads (IsTypes s) x) {u : Unit}
    (hdirs : (makeDirs s.output).on x = (.ok u, y)) : Ready s w.disk y.disk := by
  have hplain := isPlain_root tree.isConnected resolved
  obtain ⟨-, hdir, hs⟩ := Settings.resolve_eq_ok resolved
  have hmade : x.disk.makeDirs s.output _ = .ok y.disk := on_change_eq_ok hdirs
  have hfind {ns : List String} (hns : ¬ns <+: s.output.names) :
      y.disk.find? ns = x.disk.find? ns :=
    Disk.find?_makeDirs (hs ▸ hplain.child (by decide)) hmade hns
  obtain ⟨hext, hout⟩ := Disk.makeDirs_extends hmade
  refine ⟨hext.entryAt? (root_of_isTypes hplain hl hdir), hout, fun n hn => ?_,
    fun ns hne hns => by rw [hfind hns, find?_of_isTypes hplain hl hne]⟩
  by_cases he : n = "dist"
  · rw [he]
    exact ⟨by decide, by decide, by decide, by decide⟩
  · rw [hfind] at hn
    · exact names_of_isTypes hplain hl (fun m hm => tree.names _ hm m (by simp)) n hn
    · rw [hs]
      simpa [Path.child] using he

end

/-! ## Scripts at the top level -/

section

variable {n n' : String} {d d' : Disk}

theorem output_not_prefix_script (hc : c.IsPlain) (hn : Path.IsName n) (n' : String) :
    ¬(c.outputOf (c.root.child n)).names <+: (c.root.child n').names := by
  rw [hc.names_outputOf hn]
  intro h
  have := h.length_le
  simp [Path.child] at this

theorem output_not_prefix_output (hc : c.IsPlain) (hn : Path.IsName n) (hn' : Path.IsName n')
    (h : (c.root.child n).stem ≠ (c.root.child n').stem) :
    ¬(c.outputOf (c.root.child n)).names <+: (c.outputOf (c.root.child n')).names := by
  rw [hc.names_outputOf hn, hc.names_outputOf hn']
  simpa using h

theorem Current.congr (hc : c.IsPlain) (hn : Path.IsName n)
    (h : Current run c (c.root.child n) d)
    (hs : d'.entryAt? (c.root.child n) = d.entryAt? (c.root.child n))
    (ho : Disk.AgreesAlong (c.outputOf (c.root.child n)) d d') :
    Current run c (c.root.child n) d' := by
  intro source output hsource hpasses hmay
  rw [Disk.text?_congr hs] at hsource
  rw [ho.mayWrite_iff (hc.outputOf hn)] at hmay
  obtain ⟨bytes, henc, hread⟩ := h source output hsource hpasses hmay
  exact ⟨bytes, henc, (ho.read_eq_ok_iff (hc.outputOf hn) bytes).2 hread⟩

theorem Current.frame {names : List String} (hc : c.IsPlain) (hn : Path.IsName n)
    (h : Current run c (c.root.child n) d) (hd : Disk.AgreesOff names d d')
    (hs : ¬names <+: (c.root.child n).names)
    (ho : ¬names <+: (c.outputOf (c.root.child n)).names) :
    Current run c (c.root.child n) d' :=
  h.congr hc hn ((hd.along hs).entryAt? (hc.root.child hn.ne_parent)) (hd.along ho)

theorem compileScript_agreesOff (hc : c.IsPlain) (hn : Path.IsName n)
    (hout : x.disk.entryAt? c.output = some .dir) {r : Except Fault Outcome}
    (h : (compileScript run c (c.root.child n)).on x = (r, y)) :
    Disk.AgreesOff (c.outputOf (c.root.child n)).names x.disk y.disk := by
  rw [← Context.IsPlain.parent_outputOf hn] at hout
  rcases compileScript_cases hout h with ⟨hd, -⟩ | ⟨_, output, -, -, hw, -⟩
  · rw [hd]
    exact .refl _ _
  · exact .of_write (hc.outputOf hn) hw

theorem compileScript_current (hc : c.IsPlain) (hn : Path.IsName n)
    (hout : x.disk.entryAt? c.output = some .dir) {o : Outcome}
    (h : (compileScript run c (c.root.child n)).on x = (.ok o, y)) :
    Current run c (c.root.child n) y.disk := by
  intro source output hsource hpasses hmay
  have hoff := compileScript_agreesOff hc hn hout h
  rw [Disk.text?_congr ((hoff.along (output_not_prefix_script hc hn n)).entryAt?
    (hc.root.child hn.ne_parent))] at hsource
  rw [← Context.IsPlain.parent_outputOf hn] at hout
  rcases compileScript_cases hout h with ⟨hd, hno⟩ | ⟨source', output', hs', hp', hw, -, henc⟩
  · rw [hd] at hmay
    exact absurd hmay (hno o rfl source output hsource hpasses)
  · rw [hsource, Option.some.injEq] at hs'
    subst hs'
    obtain rfl := hpasses.unique hp'
    obtain ⟨bytes, hbytes⟩ := henc o rfl
    rw [bytesOf_eq hbytes] at hw
    exact ⟨bytes, hbytes, Disk.read_write (hc.outputOf hn) hw⟩

end

/-! ## All scripts -/

theorem outputDir_of_agreesOff {d d' : Disk} {n : String} (hc : c.IsPlain) (hn : Path.IsName n)
    (h : Disk.AgreesOff (c.outputOf (c.root.child n)).names d d')
    (hout : d.entryAt? c.output = some .dir) : d'.entryAt? c.output = some .dir := by
  have hnot := output_not_prefix_script hc hn "dist"
  rw [← hc.output] at hnot
  rw [(h.along hnot).entryAt? hc.outputPlain, hout]

theorem compileAll_preserves {P : World → Prop} {requested : Option String} {ps : List Path}
    (hstep : ∀ p ∈ ps, ∀ x o y, P x → (compileScript run c p).on x = (.ok o, y) → P y) (hx : P x)
    {b : Bool} (h : (compileAll run c requested ps).on x = (.ok b, y)) : P y := by
  induction ps generalizing x b with
  | nil =>
    cases h
    exact hx
  | cons p ps ih =>
    obtain ⟨o, z, hs, h⟩ := on_bind_eq_ok h
    obtain ⟨b', z', hr, h⟩ := on_bind_eq_ok h
    cases h
    exact ih (fun q hq => hstep q (by simp [hq])) (hstep p (by simp) x o z hx hs) hr

/-- Compiling scripts leaves everything but the output directory as it is, and the directory
there. -/
theorem compileAll_agreesOff (hc : c.IsPlain) {requested : Option String} {ns : List String}
    (hns : ∀ n ∈ ns, Path.IsName n) (hout : x.disk.entryAt? c.output = some .dir) {b : Bool}
    (h : (compileAll run c requested (ns.map c.root.child)).on x = (.ok b, y)) :
    Disk.AgreesOff c.output.names x.disk y.disk ∧ y.disk.entryAt? c.output = some .dir := by
  refine compileAll_preserves (P := fun z =>
    Disk.AgreesOff c.output.names x.disk z.disk ∧ z.disk.entryAt? c.output = some .dir)
    (fun p hp z o z' hz hs => ?_) ⟨.refl _ _, hout⟩ h
  obtain ⟨n, hmem, rfl⟩ := List.mem_map.1 hp
  have hn := hns n hmem
  have hoff := compileScript_agreesOff hc hn hz.2 hs
  refine ⟨hz.1.trans (hoff.widen ?_), outputDir_of_agreesOff hc hn hoff hz.2⟩
  rw [hc.names_outputOf hn, hc.names_output]
  exact ⟨[(c.root.child n).stem ++ ".js"], by simp⟩

/-- Compiling scripts of other stems leaves a script up to date. -/
theorem compileAll_keeps (hc : c.IsPlain) {requested : Option String} {ns : List String}
    (hns : ∀ n ∈ ns, Path.IsName n) (hout : x.disk.entryAt? c.output = some .dir) {n : String}
    (hn : Path.IsName n) (hdiff : ∀ m ∈ ns, (c.root.child m).stem ≠ (c.root.child n).stem)
    (hcur : Current run c (c.root.child n) x.disk) {b : Bool}
    (h : (compileAll run c requested (ns.map c.root.child)).on x = (.ok b, y)) :
    Current run c (c.root.child n) y.disk := by
  refine (compileAll_preserves (P := fun z =>
    z.disk.entryAt? c.output = some .dir ∧ Current run c (c.root.child n) z.disk)
    (fun p hp z o z' hz hs => ?_) ⟨hout, hcur⟩ h).2
  obtain ⟨m, hmem, rfl⟩ := List.mem_map.1 hp
  have hm := hns m hmem
  have hoff := compileScript_agreesOff hc hm hz.1 hs
  exact ⟨outputDir_of_agreesOff hc hm hoff hz.1,
    hz.2.frame hc hn hoff (output_not_prefix_script hc hm n)
      (output_not_prefix_output hc hm hn (hdiff m hmem))⟩

/-- A script is up to date after all are compiled, if those that follow it have other stems. -/
theorem compileAll_current (hc : c.IsPlain) {requested : Option String} {ns : List String}
    (hns : ∀ n ∈ ns, Path.IsName n)
    (hpair : (ns.map c.root.child).Pairwise fun p q =>
      Watch.isScript p = true → p.stem = q.stem → p = q)
    (hout : x.disk.entryAt? c.output = some .dir) {b : Bool}
    (h : (compileAll run c requested (ns.map c.root.child)).on x = (.ok b, y)) {n : String}
    (hn : n ∈ ns) (hw : Watch.isScript (c.root.child n) = true) :
    Current run c (c.root.child n) y.disk := by
  induction ns generalizing x y b with
  | nil => cases hn
  | cons m ns ih =>
    have hns' : ∀ n ∈ ns, Path.IsName n := fun m hm => hns m (by simp [hm])
    obtain ⟨hhead, hpair'⟩ := List.pairwise_cons.1 hpair
    obtain ⟨o, z, hs, h⟩ := on_bind_eq_ok h
    obtain ⟨b', z', hr, h⟩ := on_bind_eq_ok h
    cases h
    have hm := hns m (by simp)
    have hz := outputDir_of_agreesOff hc hm (compileScript_agreesOff hc hm hout hs) hout
    by_cases hmem : n ∈ ns
    · exact ih hns' hpair' hz hr hmem
    -- none of the scripts that follow has the stem, so they leave the compiled form alone
    obtain rfl : n = m := by simpa [hmem] using hn
    refine compileAll_keeps hc hns' hz hm (fun m' hm' he => hmem ?_)
      (compileScript_current hc hm hout hs) hr
    have := congrArg Path.name (hhead (c.root.child m') (List.mem_map_of_mem hm') hw he.symm)
    simp only [Path.name_child] at this
    rwa [this]

/-- A file is as it was, or is the compiled form of one of the scripts. -/
def Accounted (run : Runner) (c : Context) (scripts : List Path) (d : Disk) (names : List String)
    (bytes : List UInt8) : Prop :=
  d.find? names = some (.file bytes) ∨ ∃ script ∈ scripts, ∃ source output,
    d.text? script = some source ∧ Passes run c script source output ∧
    names = (c.outputOf script).names ∧ Text.Utf8.encoded output = .ok bytes

/-- All files that are there when scripts have been compiled are accounted for. -/
theorem compileAll_accounted (hc : c.IsPlain) {requested : Option String} {ns : List String}
    (hns : ∀ n ∈ ns, Path.IsName n) (hlist : ∀ n ∈ ns, isListed n = true)
    (hout : x.disk.entryAt? c.output = some .dir) {b : Bool}
    (h : (compileAll run c requested (ns.map c.root.child)).on x = (.ok b, y)) :
    ∀ names bytes, y.disk.find? names = some (.file bytes) →
      Accounted run c (ns.map c.root.child) x.disk names bytes := by
  refine (compileAll_preserves (P := fun z =>
    (Disk.AgreesOff c.output.names x.disk z.disk ∧ z.disk.entryAt? c.output = some .dir) ∧
    ∀ names bytes, z.disk.find? names = some (.file bytes) →
      Accounted run c (ns.map c.root.child) x.disk names bytes)
    (fun p hp z o z' hz hs => ?_) ⟨⟨.refl _ _, hout⟩, fun _ _ => .inl⟩ h).2
  obtain ⟨n, hmem, rfl⟩ := List.mem_map.1 hp
  obtain ⟨⟨hoff, hdir⟩, hfiles⟩ := hz
  have hn := hns n hmem
  have hone := compileScript_agreesOff hc hn hdir hs
  have hinside : c.output.names <+: (c.outputOf (c.root.child n)).names := by
    rw [c.outputOf_child _ hn]
    exact List.prefix_append _ _
  refine ⟨⟨hoff.trans (hone.widen hinside), outputDir_of_agreesOff hc hn hone hdir⟩,
    fun names bytes hfile => ?_⟩
  rw [← Context.IsPlain.parent_outputOf hn] at hdir
  rcases compileScript_cases hdir hs with ⟨hd, -⟩ | ⟨source, output, hsource, hpasses, hw, -, henc⟩
  · exact hfiles names bytes (hd ▸ hfile)
  rw [Disk.find?_write (hc.outputOf hn) hw] at hfile
  split_ifs at hfile with hnames
  · obtain ⟨bytes', hbytes⟩ := henc o rfl
    rw [bytesOf_eq hbytes, Option.some.injEq, Entry.file.injEq] at hfile
    have hnot : ¬c.output.names <+: (c.root.child n).names := by
      have hdist : "dist" ≠ n := by
        rintro rfl
        exact absurd (hlist _ hmem) (by decide)
      rw [hc.names_output]
      simpa [Path.child] using hdist
    have hsame := Disk.text?_congr ((hoff.along hnot).entryAt? (hc.root.child hn.ne_parent))
    exact .inr ⟨_, hp, source, output, hsame ▸ hsource, hpasses, hnames, hfile ▸ hbytes⟩
  · exact hfiles names bytes hfile

end Build

/-! ## A small project -/

namespace Sample
open Build Work

/-- The manifest of a project with one action. -/
def manifest : String := "integrations:\n  i:\n    a:\n      type: action\n"

def root : Path := ⟨1, ["p"]⟩

def script : Path := root.child "a.ts"

def artifact : Path := (root.child "dist").child "a.js"

/-- A project with the source of the action, and with its compiled form if there is one. -/
def project (source : String) (compiled : Option String) : Disk where
  entries := [
    (["p"], .dir), (["p", "a.ts"], .file (bytesOf source)), (["p", "dist"], .dir),
    (["p", "models.ts"], .file []), (["p", "nango.yaml"], .file (bytesOf manifest))] ++
    (compiled.map fun s => (artifact.names, .file (bytesOf s))).toList
  here := ["p"]

/-- A world that nothing has been done in. -/
def fresh (source : String) (compiled : Option String) : World :=
  { disk := project source compiled, log := [] }

def wishes : Wishes := ⟨"dev", [], ⟨0, []⟩, none, none, false⟩

def settings : Settings where
  address := "https://api.nango.dev"
  secretKey := none
  tag := "dev"
  root := root
  output := root.child "dist"
  compilerOptions := none
  hostTypes := none
  debug := false

/-- A compiler that leaves a script as it is. -/
def echo : Runner := fun _ source => .ok source

theorem isTree (source : String) (compiled : Option String) : (project source compiled).IsTree := by
  have hnames : ∀ ns ∈ [["p"], ["p", "a.ts"], ["p", "dist"], ["p", "models.ts"],
      ["p", "nango.yaml"], ["p", "dist", "a.js"]], ∀ n ∈ ns, Path.IsName n := by decide
  refine Disk.isTree_of_entries (hnames ["p"] (by decide)) fun e he => ?_
  cases compiled with
  | none =>
    rw [project, Option.map_none, Option.toList_none, List.append_nil] at he
    simp only [List.mem_cons, List.not_mem_nil, or_false] at he
    rcases he with rfl | rfl | rfl | rfl | rfl
    all_goals exact ⟨hnames _ (by simp), rfl⟩
  | some s =>
    simp only [project, Option.map_some, Option.toList_some, List.cons_append, List.nil_append,
      List.mem_cons, List.not_mem_nil, or_false] at he
    rcases he with rfl | rfl | rfl | rfl | rfl | rfl
    all_goals exact ⟨hnames _ (by simp [artifact, root, Path.child]), rfl⟩

theorem resolve_eq (source : String) (compiled : Option String) :
    Settings.resolve (project source compiled) wishes = .ok settings := by
  cases compiled <;> rfl

theorem listed_eq (source : String) (compiled : Option String) :
    listed (project source compiled) root = [script] := by
  have hsorted : ["a.ts", "dist", "models.ts", "nango.yaml"].mergeSort (fun a b => decide (a ≤ b)) =
      ["a.ts", "dist", "models.ts", "nango.yaml"] := List.mergeSort_of_pairwise (by decide)
  have hlist : (project source compiled).list root =
      ["a.ts", "dist", "models.ts", "nango.yaml"] := by
    cases compiled with
    | none => exact hsorted
    | some s => exact hsorted
  rw [listed, hlist]
  rfl

theorem lint_empty (models : List String) (label : String) :
    ∃ report, Lint.lint "" "action" models label = .ok report ∧ report.errors = [] := by
  have hsites : (Script.parse "").toOption.map
      (fun t => (Lint.sites ⟨false, false⟩ t).isEmpty) = some true := by decide +kernel
  rcases hp : Script.parse "" with line | t
  · rw [hp] at hsites
    cases hsites
  · rw [hp] at hsites
    have hnone : Lint.sites ⟨false, false⟩ t = [] := by
      simpa [Except.toOption] using hsites
    have hencoded : Text.Utf8.encoded "" = .ok [] := rfl
    refine ⟨⟨label, models, []⟩, ?_, rfl⟩
    simp [Lint.lint, hp, hnone, hencoded, Except.mapError, bind, Except.bind, pure, Except.pure]

theorem lint_broken (models : List String) (label : String) :
    ∃ line, Lint.lint ")" "action" models label = .error (.malformed line) := by
  have hparse : (Script.parse ")").toOption.isSome = false := by decide +kernel
  rcases hp : Script.parse ")" with line | t
  · have hencoded : ∃ bytes, Text.Utf8.encoded ")" = .ok bytes := ⟨_, rfl⟩
    obtain ⟨bytes, hb⟩ := hencoded
    exact ⟨line, by simp [Lint.lint, hp, hb, Except.mapError, bind, Except.bind]⟩
  · rw [hp] at hparse
    cases hparse

/-- A context that the manifest gives. -/
structure IsContext (c : Context) : Prop where
  root : c.root = Sample.root
  output : c.output = Sample.root.child "dist"
  flow : ∃ flow, c.flowOf? script = some flow ∧ flow.type = "action"
  flows : ∃ flow, (c.integrations.flatMap fun i => i.flows.map fun f => (i.key, f)) =
    [("i", flow)] ∧ flow.name = "a" ∧ flow.type = "action" ∧ flow.unresolved = []

/-- The manifest has one flow, an action. -/
theorem normalize_manifest : ∃ m is l, Manifest.parse manifest = .ok m ∧
    m.normalize.run [] = (.ok is, l) ∧
    (∃ i flow, Integration.findFlow? is "a" = some (i, flow) ∧ flow.type = "action") ∧
    ∃ flow, (is.flatMap fun i => i.flows.map fun f => (i.key, f)) = [("i", flow)] ∧
      flow.name = "a" ∧ flow.type = "action" ∧ flow.unresolved = [] := by
  have hread : ((Manifest.parse manifest).toOption.bind fun m =>
      (m.normalize.run []).1.toOption).map (fun is =>
        ((Integration.findFlow? is "a").map fun f => f.2.type,
          (is.flatMap fun i => i.flows.map fun f => (i.key, f)).map fun kf =>
            kf.1 :: kf.2.name :: kf.2.type :: kf.2.unresolved)) =
      some (some "action", [["i", "a", "action"]]) := by
    decide +kernel
  obtain ⟨is, his, hnames⟩ := Option.map_eq_some_iff.1 hread
  obtain ⟨m, hm, his⟩ := Option.bind_eq_some_iff.1 his
  obtain ⟨hflow, hflows⟩ := Prod.mk.inj hnames
  obtain ⟨⟨i, flow⟩, hfind, htype⟩ := Option.map_eq_some_iff.1 hflow
  obtain ⟨⟨key, flow'⟩, hall, hkf⟩ := List.map_eq_singleton_iff.1 hflows
  simp only [List.cons.injEq] at hkf
  obtain ⟨rfl, hrest⟩ := hkf
  exact ⟨m, is, _, Except.eq_ok_of_toOption hm, Prod.ext (Except.eq_ok_of_toOption his) rfl,
    ⟨i, flow, hfind, htype⟩, flow', hall, hrest⟩

theorem prepare_fresh (source : String) (compiled : Option String)
    (options : Option CompilerOptions) : ∃ m c y, IsContext c ∧
      (prepare settings options false).on (fresh source compiled) = (.ok (m, c), y) ∧
      y.disk = project source compiled := by
  obtain ⟨m, is, l, hm, hn, ⟨i, flow, hfind, htype⟩, hall⟩ := normalize_manifest
  have hread : (readManifest root).on (fresh source compiled) = (.ok m, fresh source compiled) := by
    have hparse : (readManifest root).on (fresh source compiled) =
        ((Manifest.parse manifest).mapError .manifest, fresh source compiled) := by
      cases compiled <;> exact on_readManifest rfl rfl
    rw [hparse, hm]
    rfl
  have hnormal : (normalize m).on (fresh source compiled) =
      (.ok is, { fresh source compiled with log := l }) := by
    have hlog : (fresh source compiled).log = [] := rfl
    rw [on_normalize, hlog, hn]
    rfl
  have hintegrations : (readIntegrations settings.root).on (fresh source compiled) =
      (.ok (m, is),
        { fresh source compiled with log := l ++ Issue.log (Integration.issues is) }) :=
    (on_bind_ok hread).trans ((on_bind_ok hnormal).trans ((on_bind_ok (on_logAll _ _)).trans rfl))
  have htypes (l : Log) : (has (settings.root.child TypeDefinitions.fileName)).on
      { fresh source compiled with log := l } =
        (.ok true, { fresh source compiled with log := l }) := by
    cases compiled <;> rfl
  refine ⟨m, ⟨root, root.child "dist", is, Integration.modelNames is, options.getD .standard⟩,
    { fresh source compiled with log := l ++ Issue.log (Integration.issues is) },
    ⟨rfl, rfl, ⟨flow, ?_, htype⟩, hall⟩,
    (on_bind_ok hintegrations).trans ((on_bind_ok (htypes _)).trans ?_), rfl⟩
  · have hstem : script.stem = "a" := rfl
    rw [Context.flowOf?, hstem, hfind]
    rfl
  · cases options with
    | none => rfl
    | some o => rfl

theorem outputOf_script {c : Context} (hc : IsContext c) : c.outputOf script = artifact := by
  rw [Context.outputOf, hc.output]
  rfl

theorem passes_empty {c : Context} (hc : IsContext c) : Passes echo c script "" "" := by
  obtain ⟨flow, hflow, htype⟩ := hc.flow
  obtain ⟨report, hlint, herrors⟩ := lint_empty c.models script.toText
  exact ⟨⟨flow, report, hflow, htype ▸ hlint, herrors⟩, rfl⟩

theorem not_eligible_broken {c : Context} (hc : IsContext c) : ¬Eligible c script ")" := by
  rintro ⟨flow, report, hflow, hlint, -⟩
  obtain ⟨flow', hflow', htype⟩ := hc.flow
  rw [hflow', Option.some.injEq] at hflow
  subst hflow
  obtain ⟨line, hbroken⟩ := lint_broken c.models script.toText
  rw [htype, hbroken] at hlint
  cases hlint

/-- The first compilation writes the compiled form. -/
theorem compile_empty {c : Context} (hc : IsContext c) {x : World}
    (hx : x.disk = project "" none) : ∃ o y, (compileScript echo c script).on x = (.ok o, y) ∧
      y.disk = project "" (some "") ∧ (x.disk, .write artifact (bytesOf "")) ∈ y.history := by
  obtain ⟨flow, hflow, htype⟩ := hc.flow
  obtain ⟨report, hlint, herrors⟩ := lint_empty c.models script.toText
  have hsource : x.disk.text? script = some "" := by rw [hx]; rfl
  have hrun : echo (Compiler.command Compiler.program c.options script) "" = .ok "" := rfl
  have hon := on_compileFlow echo c flow.type hsource
  rw [htype, hlint] at hon
  simp only [herrors, if_true, hrun, outputOf_script hc] at hon
  have hdir : x.disk.entryAt? artifact.parent = some .dir := by rw [hx]; rfl
  have hwrite : x.disk.write artifact (bytesOf "") = .ok (project "" (some "")) := by rw [hx]; rfl
  have hemit := on_emit (x := { x with log := x.log ++ report.log }) "" report hdir
  simp only [hwrite] at hemit
  rw [hemit] at hon
  rw [← htype] at hon
  obtain ⟨l, hs⟩ := on_compileScript hflow hon
  exact ⟨_, _, hs, rfl, by simp⟩

/-- A script that cannot be parsed leaves the file system as it is. -/
theorem compile_broken {c : Context} (hc : IsContext c) {x : World} {compiled : Option String}
    (hx : x.disk = project ")" compiled) :
    ∃ o l, (compileScript echo c script).on x = (.ok o, { x with log := l }) := by
  obtain ⟨flow, hflow, htype⟩ := hc.flow
  obtain ⟨line, hlint⟩ := lint_broken c.models script.toText
  have hsource : x.disk.text? script = some ")" := by
    rw [hx]
    cases compiled <;> rfl
  have hon := on_compileFlow echo c flow.type hsource
  rw [htype, hlint, ← htype] at hon
  obtain ⟨l, hs⟩ := on_compileScript hflow hon
  exact ⟨_, l, hs⟩

theorem on_makeDirs_output {x : World} {source : String} {compiled : Option String}
    (hx : x.disk = project source compiled) :
    ∃ y, (makeDirs settings.output).on x = (.ok (), y) ∧ y.disk = project source compiled := by
  have hdir : x.disk.entryAt? settings.output = some .dir := by
    rw [hx]
    cases compiled <;> rfl
  refine ⟨{ x with history := x.history ++ [(x.disk, .makeDirs settings.output)] }, ?_, hx⟩
  rw [makeDirs, on_change]
  simp only [Edit.apply, Disk.makeDirs_of_entryAt? hdir]

/-- To compile all scripts is to compile the only one. -/
theorem compileAll_of_script {c : Context} {x y : World} {source : String}
    {compiled : Option String} {o : Outcome} (hx : x.disk = project source compiled)
    (h : (compileScript echo c script).on x = (.ok o, y)) :
    ∃ b, (compileAll echo c none (listed x.disk root)).on x = (.ok b, y) := by
  have hall : (compileAll echo c none [script]).on x =
      (.ok (o.isFine (none == some script.stem) && true), y) := (on_bind_ok h).trans rfl
  rw [← listed_eq source compiled, ← hx] at hall
  exact ⟨_, hall⟩

/-- To watch the project from the start comes to compiling its script. -/
theorem start_of_script (source : String) (compiled : Option String) :
    ∃ h y, IsContext h.context ∧ y.disk = project source compiled ∧
      ∀ o x, (compileScript echo h.context script).on y = (.ok o, x) →
        (Watch.start echo settings).on (fresh source compiled) = (.ok h, x) := by
  obtain ⟨m, c, y, hc, hprepare, hy⟩ := prepare_fresh source compiled (some .standard)
  have hopened : (Watch.opened settings).on (fresh source compiled) =
      (.ok ⟨settings, some .standard, c⟩, y) :=
    (on_bind_ok rfl).trans ((on_bind_ok hprepare).trans rfl)
  have hmapped : (mapFault asBuild (Watch.opened settings)).on (fresh source compiled) =
      (.ok ⟨settings, some .standard, c⟩, y) := by
    rw [on_mapFault, hopened]
    rfl
  obtain ⟨z, hdirs, hz⟩ := on_makeDirs_output hy
  obtain ⟨l, hlog⟩ : ∃ l, (log .debug ("Watching " ++ settings.root.toText ++ " for *.ts and " ++
      manifestName)).on z = (.ok (), { z with log := l }) := ⟨_, on_log _ _ _⟩
  refine ⟨⟨settings, some .standard, c⟩, { z with log := l }, hc, hz, fun o x ho => ?_⟩
  obtain ⟨b, hall⟩ := compileAll_of_script (x := { z with log := l }) hz ho
  have hscripts : (scripts root).on { z with log := l } =
      (.ok (listed z.disk root), { z with log := l }) := rfl
  have hexisting : (Watch.Handler.compileExisting echo ⟨settings, some .standard, c⟩).on
      { z with log := l } = (.ok ⟨⟩, x) := by
    rw [← hc.root] at hscripts hall
    exact (on_bind_ok hscripts).trans ((on_bind_ok hall).trans rfl)
  exact (on_bind_ok hmapped).trans ((on_bind_ok hdirs).trans ((on_bind_ok hlog).trans
    ((on_bind_ok hexisting).trans rfl)))

end Sample
end FlowPipeline
