import FlowPipeline.Proofs.ProjectInputs
import FlowPipeline.Proofs.ScriptBatches
import Mathlib.Data.List.Sort

/-! # What a build leaves as it was

A build writes the type definitions, if there are none, makes the output directory and writes the
compiled forms of scripts. If it tells its user that it cannot be completed, it has written no more
than the type definitions. Nothing of this changes which scripts the project has.
-/

namespace FlowPipeline

namespace Disk

variable {d b : Disk} {p root : Path} {ns dir : List String} {n : String} {e : Entry}

theorem keys_put (ns : List String) (e : Entry) (es : List (List String × Entry)) :
    (put ns e es).map Prod.fst =
      es.map Prod.fst ++ if ns ∈ es.map Prod.fst then [] else [ns] := by
  induction es with
  | nil => rfl
  | cons f es ih =>
    obtain ⟨k, f⟩ := f
    by_cases hk : k = ns
    · simp [put, hk]
    · have hne : ¬ns = k := fun h => hk h.symm
      simp only [put, if_neg hk, List.map_cons, ih, List.mem_cons, hne, false_or, List.cons_append]

/-- The name of what is right in a directory. -/
def childName? (dir ns : List String) : Option String :=
  if ns.dropLast = dir ∧ ns ≠ [] then ns.getLast? else none

theorem childName?_eq_some (h : childName? dir ns = some n) : ns = dir ++ [n] := by
  unfold childName? at h
  split_ifs at h with hc
  obtain ⟨ms, hms⟩ := List.getLast?_eq_some_iff.1 h
  rw [← hc.1, hms, List.dropLast_concat]

theorem list_eq (hl : d.locate p = .ok dir) (hdir : d.find? dir = some .dir) :
    d.list p = ((d.entries.map Prod.fst).filterMap (childName? dir)).mergeSort
      fun a b => decide (a ≤ b) := by
  simp only [list, hl, hdir, if_true, List.filterMap_map]
  rfl

theorem filter_mergeSort (l : List String) (q : String → Bool) :
    (l.mergeSort fun a b => decide (a ≤ b)).filter q =
      (l.filter q).mergeSort fun a b => decide (a ≤ b) := by
  refine List.Perm.eq_of_pairwise (fun _ _ _ _ => String.le_antisymm)
    ((Build.pairwise_mergeSort l).filter q) (Build.pairwise_mergeSort _) ?_
  exact ((List.mergeSort_perm l _).filter q).trans (List.mergeSort_perm _ _).symm

/-- A directory that is not there, in one that is, is made alone. -/
theorem makeDirs_child {depth : Nat} (hroot : d.entryAt? root = some .dir)
    (h : d.makeDirs (root.child n) (depth + 1) = .ok b) :
    b = d ∨ ∃ ns, d.locate (root.child n) = .ok ns ∧ d.find? ns = none ∧ b = d.set ns .dir := by
  have hmade : b = d ∨ d.makeDir (root.child n) = .ok b := by
    rcases makeDirs_cases h with hmade | ⟨e, hparent, hmade⟩ | ⟨-, rfl⟩
    · exact .inr hmade
    · rw [Path.parent_child] at hparent
      rcases depth with _ | depth
      · cases hparent
      · rw [makeDirs_of_entryAt? hroot] at hparent
        cases hparent
        exact .inr hmade
    · exact .inl rfl
  rcases hmade with rfl | hmade
  · exact .inl rfl
  · obtain ⟨ns, hl, -, hf, rfl⟩ := makeDir_eq_ok hmade
    exact .inr ⟨ns, hl, hf, rfl⟩

end Disk

namespace Build
open Work

variable {run : Runner} {c : Context} {s : Settings} {script : Option String} {matching : Bool}
  {d b : Disk} {x y : World} {p : Path} {ns : List String} {e : Entry}

/-! ## The scripts of a project -/

/-- An entry that is no script changes no listing. -/
theorem listed_set {root : Path} (hroot : root.IsPlain) (hdir : d.entryAt? root = some .dir)
    (hdir' : (d.set ns e).entryAt? root = some .dir)
    (hns : ∀ n, ns = root.names ++ [n] → isListed n = false) :
    listed (d.set ns e) root = listed d root := by
  have hlist {d : Disk} (hdir : d.entryAt? root = some .dir) : (d.list root).filter isListed =
      (((d.entries.map Prod.fst).filterMap (Disk.childName? root.names)).filter isListed).mergeSort
        fun a b => decide (a ≤ b) := by
    obtain ⟨ms, hl, hf⟩ := Disk.entryAt?_eq_some_iff.1 hdir
    obtain ⟨rfl, -⟩ := (Disk.locate_eq_ok_iff hroot ms).1 hl
    rw [Disk.list_eq hl hf, Disk.filter_mergeSort]
  have hkeys : (d.set ns e).entries.map Prod.fst = _ := Disk.keys_put ns e d.entries
  rw [listed, listed, hlist hdir, hlist hdir', hkeys, List.filterMap_append, List.filter_append]
  suffices hnone : (List.filterMap (Disk.childName? root.names)
      (if ns ∈ d.entries.map Prod.fst then [] else [ns])).filter isListed = [] by
    rw [hnone, List.append_nil]
  split_ifs
  · rfl
  · rcases hname : Disk.childName? root.names ns with _ | n
    · simp [hname]
    · simp [hname, hns n (Disk.childName?_eq_some hname)]

/-- A script by a path whose last name ends in `.ts`. -/
def IsSource (p : Path) : Prop := ∃ l n, p.names = l ++ [n ++ ".ts"] ∧ '/' ∉ n.toList

theorem IsSource.noSlash (h : IsSource p) : '/' ∉ p.name.toList := by
  obtain ⟨l, n, hnames, hslash⟩ := h
  rw [Disk.name_of_append hnames, String.toList_append]
  simpa using hslash

theorem IsSource.not_isCompiled (h : IsSource p) (hl : d.locate p = .ok ns) : ¬IsCompiled ns := by
  obtain ⟨l, n, hnames, -⟩ := h
  obtain ⟨m, rfl⟩ := Disk.locate_append_eq_ok hnames (Path.append_ne n (by decide)) hl
  exact not_isCompiled_append (fun k => Path.append_ne_append n k (by decide) (by decide)) m

theorem isSource_scriptOf (root : Path) (flow : String) : IsSource (scriptOf root flow) := by
  obtain ⟨l, n, hn⟩ := Path.names_ofString_append flow ".ts" (by decide) (by decide)
  have hslash : '/' ∉ n.toList := by
    have hproper := (Path.isProper_ofString (flow ++ ".ts")).noSlash (n ++ ".ts") (by simp [hn])
    rw [String.toList_append, List.mem_append, not_or] at hproper
    exact hproper.1
  unfold scriptOf Path.join
  split_ifs
  · exact ⟨l, n, hn, hslash⟩
  · exact ⟨root.names ++ l, n, by simp [hn], hslash⟩

theorem isSource_of_listed {root : Path} (hplain : root.IsPlain)
    (hdir : d.entryAt? root = some .dir)
    (hnames : ∀ n, (d.find? (root.names ++ [n])).isSome → Path.IsName n)
    (hp : p ∈ listed d root) : IsSource p := by
  obtain ⟨n, hn, hlisted, rfl⟩ := mem_listed_iff.1 hp
  have hslash := (hnames n ((Disk.mem_list_iff hplain hdir).1 hn)).noSlash
  obtain ⟨⟨m, rfl⟩, -⟩ := isListed_iff.1 hlisted
  rw [String.toList_append, List.mem_append, not_or] at hslash
  exact ⟨root.names, m, rfl, hslash.1⟩

/-- The scripts that a build is to compile. -/
def selected (d : Disk) (root : Path) : Option String → List Path
  | none => listed d root
  | some flow => [scriptOf root flow]

theorem wanted_eq_ok {root : Path} {ps : List Path}
    (h : (wanted root script).on x = (.ok ps, y)) :
    y = x ∧ ps = selected x.disk root script ∧
      ∀ flow, script = some flow → x.disk.has (scriptOf root flow) = .ok true := by
  cases script with
  | none =>
    cases h
    exact ⟨rfl, rfl, nofun⟩
  | some flow =>
    obtain ⟨there, z, hhas, h⟩ := on_bind_eq_ok h
    obtain ⟨hthere, rfl⟩ := on_has_eq_ok hhas
    cases there with
    | false =>
      obtain ⟨_, _, ht, -⟩ := on_bind_eq_ok h
      cases ht
    | true =>
      cases h
      exact ⟨rfl, rfl, fun _ hflow => by cases hflow; exact hthere⟩

/-! ## Before scripts are compiled -/

/-- The context with the options, which are read last. -/
def finish (s : Settings) (options : Option CompilerOptions) (m : Manifest)
    (is : List Integration) : Work (Manifest × Context) := do
  let options ← optionsOr s options
  return (m, ⟨s.root, s.output, is, Integration.modelNames is, options⟩)

theorem reads_finish (s : Settings) (options : Option CompilerOptions) (m : Manifest)
    (is : List Integration) : Reads (finish s options m is) :=
  .bind (reads_optionsOr s options) fun _ => .pure _

/-- The declarations of the host, if there is a text of them. -/
def hostText (s : Settings) (d : Disk) : Option String := s.hostTypes.bind d.text?

theorem on_hostTypes_eq_ok {host : Option String} (h : (hostTypes s).on x = (.ok host, y)) :
    host = hostText s x.disk ∧ y = x := by
  unfold hostTypes at h
  unfold hostText
  split at h
  · next hnone =>
    cases h
    rw [hnone]
    exact ⟨rfl, rfl⟩
  · next p hp =>
    obtain ⟨text, hread, rfl⟩ := on_map_eq_ok h
    obtain ⟨htext, rfl⟩ := on_readText_eq_ok hread
    rw [hp, Option.bind_some, htext]
    exact ⟨rfl, rfl⟩

theorem writeTypes_cases {m : Manifest} {is : List Integration} {r : Except Fault Path}
    (h : (writeTypes s m is).on x = (r, y)) :
    (y.disk = x.disk ∧ ∃ f, r = .error f) ∨
    ∃ text, TypeDefinitions.render m.models is (hostText s x.disk) = .ok text ∧
      x.disk.write (s.root.child TypeDefinitions.fileName) (bytesOf text) = .ok y.disk ∧
      r = ((Text.Utf8.encoded text).map fun _ =>
        s.root.child TypeDefinitions.fileName).mapError .encoding := by
  rcases on_bind_cases h with ⟨f, hhost, rfl⟩ | ⟨host, z, hhost, hon⟩
  · exact .inl ⟨(reads_hostTypes s).disk_eq hhost, f, rfl⟩
  obtain ⟨rfl, rfl⟩ := on_hostTypes_eq_ok hhost
  rcases on_bind_cases hon with ⟨f, hrender, rfl⟩ | ⟨text, w, hrender, hon'⟩
  · exact .inl ⟨(Reads.ofExcept _ _).disk_eq hrender, f, rfl⟩
  obtain ⟨hrender, rfl⟩ := on_ofExcept_eq_ok hrender
  obtain ⟨r', hwrite, rfl⟩ := on_bind_pure_cases hon'
  rcases on_writeText_cases hwrite with ⟨rfl, f, -, rfl⟩ | ⟨hw, rfl⟩
  · exact .inl ⟨rfl, _, rfl⟩
  · refine .inr ⟨text, hrender, hw, ?_⟩
    cases Text.Utf8.encoded text <;> rfl

/-- Preparing a build changes nothing, or writes the type definitions where there were none. Then
all that follows the writing is to read the options. -/
theorem prepare_cases {options : Option CompilerOptions} {r : Except Fault (Manifest × Context)}
    (h : (prepare s options false).on x = (r, y)) :
    (y.disk = x.disk ∧ ((∃ f, r = .error f) ∨
      x.disk.has (s.root.child TypeDefinitions.fileName) = .ok true)) ∨
    x.disk.has (s.root.child TypeDefinitions.fileName) = .ok false ∧ ∃ m is z text,
      (readIntegrations s.root).on x = (.ok (m, is), z) ∧
      TypeDefinitions.render m.models is (hostText s x.disk) = .ok text ∧
      x.disk.write (s.root.child TypeDefinitions.fileName) (bytesOf text) = .ok y.disk ∧
      ((∃ e, Text.Utf8.encoded text = .error e ∧ r = .error (.encoding e)) ∨
        ∃ z', z'.disk = y.disk ∧ (finish s options m is).on z' = (r, y)) := by
  rcases on_bind_cases h with ⟨f, hread, rfl⟩ | ⟨⟨m, is⟩, z, hread, hon⟩
  · exact .inl ⟨(reads_readIntegrations s.root).disk_eq hread, .inl ⟨f, rfl⟩⟩
  have hz := (reads_readIntegrations s.root).disk_eq hread
  rcases on_bind_cases hon with ⟨f, hhas, rfl⟩ | ⟨there, z', hhas, hon'⟩
  · exact .inl ⟨((Reads.has _).disk_eq hhas).trans hz, .inl ⟨f, rfl⟩⟩
  obtain ⟨hhas, rfl⟩ := on_has_eq_ok hhas
  rw [hz] at hhas
  cases there with
  | true => exact .inl ⟨((reads_finish s options m is).disk_eq hon').trans hz, .inr hhas⟩
  | false =>
    rcases on_bind_cases hon' with ⟨f, hwrite, rfl⟩ | ⟨p, w, hwrite, hfinish⟩
    · rcases writeTypes_cases hwrite with ⟨hdisk, -⟩ | ⟨text, hrender, hw, hr⟩
      · exact .inl ⟨hdisk.trans hz, .inl ⟨f, rfl⟩⟩
      · rcases hbytes : Text.Utf8.encoded text with e | bytes <;> rw [hbytes] at hr <;> cases hr
        rw [hz] at hrender hw
        exact .inr ⟨hhas, m, is, _, text, hread, hrender, hw, .inl ⟨e, hbytes, rfl⟩⟩
    · rw [on_bind_ok (on_log _ _ w)] at hfinish
      have hy := (reads_finish s options m is).disk_eq hfinish
      rcases writeTypes_cases hwrite with ⟨-, f, hr⟩ | ⟨text, hrender, hw, -⟩
      · cases hr
      · rw [hz] at hrender hw
        exact .inr ⟨hhas, m, is, _, text, hread, hrender, hy ▸ hw, .inr ⟨_, hy.symm, hfinish⟩⟩

/-- The scripts to compile, once the build is prepared. -/
def chosen (s : Settings) (script : Option String) (matching : Bool) (m : Manifest) (c : Context) :
    Work (Manifest × Context × List Path) := do
  let ps ← wanted s.root script
  if matching then
    if let some e := mismatch? c.integrations (← scripts s.root) then throw (.compilation e)
  return (m, c, ps)

theorem reads_chosen (s : Settings) (script : Option String) (matching : Bool) (m : Manifest)
    (c : Context) : Reads (chosen s script matching m c) := by
  refine .bind (reads_wanted _ _) fun ps => .ite ?_ (.pure _)
  refine .bind (reads_scripts _) fun all => ?_
  split
  · exact .bind (.throw _) fun _ => .pure _
  · exact .pure _

theorem plan_cases {r : Except Fault (Manifest × Context × List Path)}
    (h : (plan s script matching).on x = (r, y)) :
    (∃ f, (prepare s none false).on x = (.error f, y) ∧ r = .error f) ∨
    ∃ m c z, (prepare s none false).on x = (.ok (m, c), z) ∧
      (chosen s script matching m c).on z = (r, y) ∧ y.disk = z.disk := by
  rcases on_bind_cases h with hprepare | ⟨⟨m, c⟩, z, hprepare, hchosen⟩
  · exact .inl hprepare
  · exact .inr ⟨m, c, z, hprepare, hchosen, (reads_chosen s script matching m c).disk_eq hchosen⟩

/-- The type definitions of a project that has none. -/
def IsNewTypes (s : Settings) (d : Disk) (ns : List String) : Prop :=
  ns = (s.root.child TypeDefinitions.fileName).names ∧ d.find? ns = none

/-- No more than new type definitions has been written. -/
def OnlyTypes (s : Settings) (d d' : Disk) : Prop :=
  d' = d ∨ ∃ bytes, d' = d.set (s.root.child TypeDefinitions.fileName).names (.file bytes) ∧
    IsNewTypes s d (s.root.child TypeDefinitions.fileName).names

theorem OnlyTypes.frame (h : OnlyTypes s d b) (hne : b.find? ns ≠ d.find? ns) :
    IsNewTypes s d ns := by
  rcases h with rfl | ⟨bytes, rfl, hnew⟩
  · exact absurd rfl hne
  · rw [Disk.find?_set (by simp [Path.child])] at hne
    split_ifs at hne with heq
    · exact heq ▸ hnew
    · exact absurd rfl hne

theorem OnlyTypes.extends (h : OnlyTypes s d b) : d.Extends b := by
  rcases h with rfl | ⟨bytes, rfl, -, hnone⟩
  · exact .refl _
  · refine ⟨rfl, fun ns e he => ?_⟩
    rw [Disk.find?_set (by simp [Path.child]), if_neg, he]
    rintro rfl
    rw [hnone] at he
    cases he

theorem prepare_onlyTypes (hroot : s.root.IsPlain) {options : Option CompilerOptions}
    {r : Except Fault (Manifest × Context)} (h : (prepare s options false).on x = (r, y)) :
    OnlyTypes s x.disk y.disk := by
  rcases prepare_cases h with ⟨hdisk, -⟩ | ⟨hhas, -, -, -, text, -, -, hw, -⟩
  · exact .inl hdisk
  · have hplain := hroot.child isName_types.ne_parent
    obtain ⟨⟨ns, hl, -⟩, hset⟩ := (Disk.write_eq_ok_iff hplain).1 hw
    obtain ⟨rfl, -⟩ := (Disk.locate_eq_ok_iff hplain ns).1 hl
    refine .inr ⟨_, hset, rfl, ?_⟩
    rcases hf : x.disk.find? (s.root.child TypeDefinitions.fileName).names with _ | e
    · rfl
    · have hthere := Disk.entryAt?_eq_some_iff.2 ⟨_, hl, hf⟩
      have hnone := Disk.has_eq_ok_iff hhas
      rw [hthere] at hnone
      cases hnone

theorem plan_onlyTypes (hroot : s.root.IsPlain)
    {r : Except Fault (Manifest × Context × List Path)}
    (h : (plan s script matching).on x = (r, y)) : OnlyTypes s x.disk y.disk := by
  rcases plan_cases h with ⟨f, hprepare, -⟩ | ⟨m, c, z, hprepare, -, hdisk⟩
  · exact prepare_onlyTypes hroot hprepare
  · rw [hdisk]
    exact prepare_onlyTypes hroot hprepare

/-! ## The parts of a build -/

theorem compile_cases {r : Except Fault (Manifest × Context × Bool)}
    (h : (compile run s script matching).on x = (r, y)) :
    (∃ f, (plan s script matching).on x = (.error f, y) ∧ r = .error (asBuild f)) ∨
    ∃ m c ps z, (plan s script matching).on x = (.ok (m, c, ps), z) ∧
      ((∃ f, Edit.apply z.disk (.makeDirs s.output) = .error f ∧ y.disk = z.disk ∧
          r = .error (.file f)) ∨
        ∃ w r', Edit.apply z.disk (.makeDirs s.output) = .ok w.disk ∧
          (compileAll run c script ps).on w = (r', y) ∧ r = r'.map fun fine => (m, c, fine)) := by
  rcases on_bind_cases h with ⟨f, hmapped, rfl⟩ | ⟨⟨m, c, ps⟩, z, hmapped, hon⟩
  · rcases on_mapFault_cases hmapped with ⟨f', hplan, hf⟩ | ⟨_, -, hr⟩
    · cases hf
      exact .inl ⟨f', hplan, rfl⟩
    · cases hr
  refine .inr ⟨m, c, ps, z, on_mapFault_eq_ok hmapped, ?_⟩
  rcases on_bind_cases hon with ⟨f, hdirs, rfl⟩ | ⟨_, w, hdirs, hrest⟩
  · rcases on_change_cases hdirs with ⟨f', hmade, rfl, hf⟩ | ⟨-, hr⟩
    · cases hf
      exact .inl ⟨f', hmade, rfl, rfl⟩
    · cases hr
  · obtain ⟨r', hall, hr⟩ := on_bind_pure_cases hrest
    exact .inr ⟨w, r', on_change_eq_ok hdirs, hall, hr⟩

/-! ## Scripts that are compiled -/

theorem isCompiled_of_written? {w : List String × List UInt8} (h : written? run c d p = some w) :
    IsCompiled w.1 := by
  obtain ⟨-, -, -, htarget, -⟩ := written?_eq_some_iff.1 h
  exact isCompiled_of_locate (Disk.target?_eq_some_iff.1 htarget).1

theorem compiled_of_written? {w : List String × List UInt8} (h : written? run c d p = some w)
    {o : Outcome} (ho : verdict run c d p = .ok o.name) :
    ∃ output report, o = .compiled output report := by
  obtain ⟨report, output, hdraft, htarget, -⟩ := written?_eq_some_iff.1 h
  simp only [verdict, hdraft, htarget, Option.isSome_some, if_true] at ho
  rcases hbytes : Text.Utf8.encoded output with e | bytes <;> rw [hbytes] at ho
  · cases ho
  · exact o.name_eq_compiled_iff.1 (Except.ok.inj ho).symm

/-- Attempts of sources come to what each comes to on the file system that they start from. -/
theorem Attempts.spec {rs : List (Path × Outcome)} (h : Attempts run c x rs y)
    (hout : b.entryAt? c.output = some .dir) (hrs : ∀ p ∈ rs.map Prod.fst, IsSource p)
    (hlevel : b.Level IsCompiled x.disk) :
    (∀ p o, (p, o) ∈ rs → verdict run c b p = .ok o.name) ∧
      y.disk = x.disk.stored ((rs.map Prod.fst).filterMap (written? run c b)) := by
  induction h with
  | nil => exact ⟨nofun, rfl⟩
  | @cons x z y p o rs hs _ ih =>
    obtain ⟨hp, hrs⟩ := List.forall_mem_cons.1 hrs
    have hparent := c.parent_outputOf hp.noSlash
    obtain ⟨hdisk, hverdict⟩ := compileScript_spec
      (hparent ▸ (hlevel.entryAt?_dir_iff c.output).2 hout) hs
    obtain ⟨hv, hw⟩ := verdict_of_level run c hlevel fun _ hl =>
      hp.not_isCompiled hl
    rw [hv] at hverdict
    rw [hw] at hdisk
    obtain ⟨hverdicts, hrest⟩ := ih hrs <| by
      rw [hdisk]
      refine (level_stored hlevel p).mono ?_
      rintro ns (hns | ⟨w, hwritten, rfl⟩)
      · exact hns
      · exact isCompiled_of_written? hwritten
    refine ⟨fun q o' hq => ?_, ?_⟩
    · rcases List.mem_cons.1 hq with heq | hq
      · cases heq
        exact hverdict.symm
      · exact hverdicts q o' hq
    · rw [hrest, hdisk, ← Disk.stored_append, List.map_cons, List.filterMap_cons]
      cases written? run c b p <;> rfl

/-! ## The frame of a build -/

/-- The names of the compiled form of a script. -/
def artifactNames (s : Settings) (p : Path) : List String := s.output.names ++ [p.stem ++ ".js"]

theorem names_written? (hplain : c.output.IsPlain) (hp : '/' ∉ p.name.toList)
    {w : List String × List UInt8} (h : written? run c d p = some w) :
    w.1 = c.output.names ++ [p.stem ++ ".js"] := by
  obtain ⟨-, -, -, htarget, -⟩ := written?_eq_some_iff.1 h
  have hl := (Disk.target?_eq_some_iff.1 htarget).1
  rw [c.outputOf_eq hp, Disk.locate_eq_ok_iff (hplain.child (Path.append_js_ne _ (by decide)))]
    at hl
  exact hl.1

theorem artifactNames_of_written? (hroot : s.root.IsPlain) (hs : s.output = s.root.child "dist")
    (hoc : c.output = s.output) (hp : IsSource p) {w : List String × List UInt8}
    (h : written? run c d p = some w) : w.1 = artifactNames s p := by
  have hplain : c.output.IsPlain := by
    rw [hoc, hs]
    exact hroot.child (by decide)
  rw [names_written? hplain hp.noSlash h, hoc]
  rfl

/-- Scripts at the top level that are compiled to the same file differ only if one of them is
`.ts`. -/
theorem eq_of_stem_eq {root q : Path} (hp : p ∈ listed d root) (hq : q ∈ listed d root)
    (hstem : p.stem = q.stem) (hne : p.stem ≠ ".ts") : p = q := by
  obtain ⟨n, -, hn, rfl⟩ := mem_listed_iff.1 hp
  obtain ⟨n', -, hn', rfl⟩ := mem_listed_iff.1 hq
  have hname := (eq_stem_append (p := root) (by simp [hn]) hne).2
  have hname' := (eq_stem_append (p := root) (by simp [hn']) (hstem ▸ hne)).2
  rw [hname, hname', hstem]

/-- What a build that comes to an end leaves behind. The compiled form of a script that has not been
compiled is as it was, but for the one that `.ts` shares with `.ts.ts`. -/
structure Leaves (s : Settings) (script : Option String) (d d' : Disk)
    (rs : List (Path × Outcome)) : Prop where
  attempted : rs.map Prod.fst = selected d s.root script
  differs : ∀ ns, d'.find? ns ≠ d.find? ns → IsNewTypes s d ns ∨
    (ns = s.output.names ∧ d.find? ns = none ∧ d'.find? ns = some .dir) ∨
    ∃ p output report, (p, .compiled output report) ∈ rs ∧ ns = artifactNames s p
  keeps : ∀ p o, (p, o) ∈ rs → (∀ output report, o ≠ .compiled output report) →
    d'.find? (artifactNames s p) = d.find? (artifactNames s p) ∨
      script = none ∧ p.stem = ".ts" ∧ ∃ q output report, (q, .compiled output report) ∈ rs ∧
        q ≠ p ∧ q.stem = ".ts"

theorem Leaves.of_differs {rs : List (Path × Outcome)}
    (hattempted : rs.map Prod.fst = selected d s.root script)
    (hsame : ∀ p o o', (p, o) ∈ rs → (p, o') ∈ rs → o.name = o'.name)
    (hs : s.output = s.root.child "dist")
    (hdiffers : ∀ ns, b.find? ns ≠ d.find? ns → IsNewTypes s d ns ∨
      (ns = s.output.names ∧ d.find? ns = none ∧ b.find? ns = some .dir) ∨
      ∃ p output report, (p, .compiled output report) ∈ rs ∧ ns = artifactNames s p) :
    Leaves s script d b rs := by
  refine ⟨hattempted, hdiffers, fun p o hp hnot => ?_⟩
  by_cases heq : b.find? (artifactNames s p) = d.find? (artifactNames s p)
  · exact .inl heq
  right
  rcases hdiffers _ heq with ⟨htypes, -⟩ | ⟨hdir, -⟩ | ⟨q, output, report, hq, hnames⟩
  · have hlen := congrArg List.length htypes
    simp [artifactNames, hs, Path.child] at hlen
  · have hlen := congrArg List.length hdir
    simp [artifactNames] at hlen
  have hlast : p.stem ++ ".js" = q.stem ++ ".js" := by simpa [artifactNames] using hnames
  have hstem : p.stem = q.stem := (String.append_left_inj ".js").1 hlast
  have hne : q ≠ p := by
    rintro rfl
    have hname := hsame q _ _ hp hq
    obtain ⟨output', report', rfl⟩ := o.name_eq_compiled_iff.1 hname
    exact hnot output' report' rfl
  have hmem : p ∈ selected d s.root script ∧ q ∈ selected d s.root script := by
    rw [← hattempted]
    exact ⟨List.mem_map_of_mem (f := Prod.fst) hp, List.mem_map_of_mem (f := Prod.fst) hq⟩
  cases script with
  | some flow =>
    simp only [selected, List.mem_singleton] at hmem
    exact absurd (hmem.2.trans hmem.1.symm) hne
  | none =>
    have hts : p.stem = ".ts" := by
      by_contra hts
      exact hne (eq_of_stem_eq hmem.1 hmem.2 hstem hts).symm
    exact ⟨rfl, hts, q, output, report, hq, hne, hstem ▸ hts⟩

/-- The scripts are the same before and after the type definitions are written. -/
theorem OnlyTypes.selected_eq (h : OnlyTypes s d b) (hroot : s.root.IsPlain)
    (hdir : d.entryAt? s.root = some .dir) (script : Option String) :
    selected b s.root script = selected d s.root script := by
  have hdir' := h.extends.entryAt? hdir
  cases script with
  | some flow => rfl
  | none =>
    rcases h with rfl | ⟨bytes, rfl, -⟩
    · rfl
    · refine listed_set hroot hdir hdir' fun n hn => ?_
      have hname : TypeDefinitions.fileName = n := by simpa [Path.child] using hn
      rw [← hname]
      decide

theorem isSource_of_selected {wishes : Wishes} (tree : d.IsTree)
    (resolved : Settings.resolve d wishes = .ok s) (hp : p ∈ selected d s.root script) :
    IsSource p := by
  cases script with
  | none =>
    exact isSource_of_listed (isPlain_root tree.isConnected resolved)
      (Settings.resolve_eq_ok resolved).2.1 (fun n hn => tree.names _ hn n (by simp)) hp
  | some flow =>
    rw [selected, List.mem_singleton] at hp
    rw [hp]
    exact isSource_scriptOf s.root flow

/-- Of a build that has been planned: the output directory, and the scripts that it is about. -/
theorem plan_selected {wishes : Wishes} (tree : x.disk.IsTree)
    (resolved : Settings.resolve x.disk wishes = .ok s) {m : Manifest}
    (h : (plan s script matching).on x = (.ok (m, c, ps), y)) :
    c.output = s.output ∧ ps = selected x.disk s.root script ∧ ∀ p ∈ ps, IsSource p := by
  have hroot := isPlain_root tree.isConnected resolved
  obtain ⟨-, hdir, -⟩ := Settings.resolve_eq_ok resolved
  have htypes := plan_onlyTypes hroot h
  obtain ⟨z, hprepare, hwanted⟩ := plan_eq_ok h
  obtain ⟨rfl, hps, -⟩ := wanted_eq_ok hwanted
  obtain ⟨-, hoc, -⟩ := prepare_eq_ok hprepare
  rw [htypes.selected_eq hroot hdir] at hps
  exact ⟨hoc, hps, fun p hp => isSource_of_selected tree resolved (hps ▸ hp)⟩

/-- What differs once the output directory has been made and files have been written: the type
definitions, the output directory and these files. -/
theorem OnlyTypes.differs (h : OnlyTypes s d b) (hroot : s.root.IsPlain)
    (hs : s.output = s.root.child "dist") (hdir : d.entryAt? s.root = some .dir)
    (hmade : b.makeDirs s.output (s.output.names.length + 1) = .ok d')
    {ws : List (List String × List UInt8)} (hws : ∀ w ∈ ws, w.1 ≠ [])
    (hne : (d'.stored ws).find? ns ≠ d.find? ns) : IsNewTypes s d ns ∨
      (ns = s.output.names ∧ d.find? ns = none ∧ (d'.stored ws).find? ns = some .dir) ∨
      ∃ w ∈ ws, ns = w.1 := by
  rcases Disk.find?_stored_cases hws d' ns with hsame | ⟨w, hw, rfl, -⟩
  · rw [hsame] at hne ⊢
    rw [hs] at hmade
    rcases Disk.makeDirs_child (h.extends.entryAt? hdir) hmade with rfl | ⟨ms, hl, hnone, rfl⟩
    · exact .inl (h.frame hne)
    · obtain ⟨rfl, -⟩ := (Disk.locate_eq_ok_iff (hroot.child (by decide)) ms).1 hl
      rw [Disk.find?_set (by simp [Path.child])] at hne ⊢
      split_ifs at hne ⊢ with heq
      · right; left
        refine ⟨hs ▸ heq, ?_, rfl⟩
        -- The directory is none of the type definitions, so that it was not there at the start.
        by_contra hthere
        have hnew : IsNewTypes s d ns :=
          h.frame (by rw [heq, hnone, ← heq]; exact Ne.symm hthere)
        have hname := heq.symm.trans hnew.1
        simp [Path.child, TypeDefinitions.fileName] at hname
      · exact .inl (h.frame hne)
  · exact .inr (.inr ⟨w, hw, rfl⟩)

/-- A build that its user is told cannot be completed has written no more than type definitions that
were not there, unless the compiler has told so itself. A build that comes to an end has written no
more than that, the output directory and the compiled forms of the scripts that it has compiled. -/
theorem compile_frame {wishes : Wishes} (tree : x.disk.IsTree)
    (resolved : Settings.resolve x.disk wishes = .ok s)
    {r : Except Fault (Manifest × Context × Bool)}
    (h : (compile run s script matching).on x = (r, y)) :
    (∀ message, r = .error (.build message) →
      (∃ command source, run command source = .error (.build message)) ∨
        ∀ ns, y.disk.find? ns ≠ x.disk.find? ns → IsNewTypes s x.disk ns) ∧
    ∀ m c fine, r = .ok (m, c, fine) → ∃ rs w, Attempts run c w rs y ∧
      fine = (rs.all fun r => r.2.isFine (script == some r.1.stem)) ∧
      Leaves s script x.disk y.disk rs := by
  have hroot := isPlain_root tree.isConnected resolved
  obtain ⟨-, hdir, hs⟩ := Settings.resolve_eq_ok resolved
  rcases compile_cases h with ⟨f, hplan, rfl⟩ | ⟨m, c, ps, z, hplan, hrest⟩
  · exact ⟨fun _ _ => .inr fun _ => (plan_onlyTypes hroot hplan).frame, nofun⟩
  rcases hrest with ⟨f, -, -, rfl⟩ | ⟨w, r', hmade, hall, rfl⟩
  · exact ⟨nofun, nofun⟩
  refine ⟨fun message hr => .inl ?_, fun m' c' fine hr => ?_⟩
  · rcases r' with f | fine
    · cases hr
      cases faults_compileAll run c script ps w _ _ hall with
      | runner _ hrun _ => exact ⟨_, _, hrun⟩
    · cases hr
  rcases r' with f | fine
  · cases hr
  cases hr
  obtain ⟨hoc, hps, hsource⟩ := plan_selected tree resolved hplan
  obtain ⟨rs, hrs, hpaths, hfine⟩ := compileAll_eq_ok hall
  obtain ⟨-, hout⟩ := Disk.makeDirs_extends hmade
  obtain ⟨hverdicts, hdisk⟩ := hrs.spec (hoc ▸ hout) (hpaths ▸ hsource) (.refl IsCompiled w.disk)
  rw [hpaths] at hdisk
  refine ⟨rs, w, hrs, hfine,
    .of_differs (hpaths.trans hps) (fun p o o' ho ho' => ?_) hs fun ns hne => ?_⟩
  · exact Except.ok.inj ((hverdicts p o ho).symm.trans (hverdicts p o' ho'))
  have hnil : ∀ v ∈ ps.filterMap (written? run c w.disk), v.1 ≠ [] := by
    intro v hv
    obtain ⟨p, -, hw⟩ := List.mem_filterMap.1 hv
    exact ne_nil_of_written? hw
  rw [hdisk] at hne ⊢
  rcases (plan_onlyTypes hroot hplan).differs hroot hs hdir hmade hnil hne with
    htypes | hmade | ⟨v, hv, rfl⟩
  · exact .inl htypes
  · exact .inr (.inl hmade)
  · obtain ⟨p, hp, hw⟩ := List.mem_filterMap.1 hv
    obtain ⟨⟨p, o⟩, ho, rfl⟩ := List.mem_map.1 (hpaths ▸ hp)
    obtain ⟨output, report, rfl⟩ := compiled_of_written? hw (hverdicts p o ho)
    exact .inr (.inr ⟨p, output, report, ho,
      artifactNames_of_written? hroot hs hoc (hsource p hp) hw⟩)

theorem compile_frame_broken : ∃ m c y,
    (compile Sample.echo Sample.settings (some "a") false).on (Sample.fresh ")" (some "")) =
      (.ok (m, c, false), y) ∧
    y.disk.find? Sample.artifact.names = some (.file []) := by
  have hfine : ((compile Sample.echo Sample.settings (some "a") false).on
      (Sample.fresh ")" (some ""))).1.toOption.map (fun r => r.2.2) = some false := by
    decide +kernel
  obtain ⟨⟨m, c, _⟩, y, hon, rfl⟩ := on_eq_ok_of_map hfine
  obtain ⟨rs, w, -, hall, hleaves⟩ :=
    (compile_frame (Sample.isTree ")" (some "")) (Sample.resolve_eq ")" (some "")) hon).2 m c _ rfl
  obtain ⟨p, o, ho, hnot⟩ := (all_isFine_eq_false_iff rs).1 hall.symm
  have hp : p = Sample.script := by
    have hmem : p ∈ selected (Sample.project ")" (some "")) Sample.root (some "a") :=
      hleaves.attempted ▸ List.mem_map_of_mem (f := Prod.fst) ho
    exact (List.mem_singleton.1 hmem).trans (by decide)
  subst hp
  have hcompiled : ∀ output report, o ≠ .compiled output report := by
    rintro output report rfl
    rcases hnot with ⟨_, h⟩ | ⟨⟨_, h⟩, -⟩ <;> cases h
  rcases hleaves.keeps Sample.script o ho hcompiled with hkept | ⟨hnone, -⟩
  · exact ⟨m, c, y, hon, hkept⟩
  · cases hnone

/-- A project with the scripts `.ts` and `.ts.ts`, of which the second one cannot be parsed. -/
def sharedStem : World where
  disk := {
    entries := [
      (["p"], .dir), (["p", ".ts"], .file []), (["p", ".ts.ts"], .file (bytesOf ")")),
      (["p", "dist"], .dir), (["p", "dist", ".ts.js"], .file (bytesOf "old")),
      (["p", "models.ts"], .file []),
      (["p", "nango.yaml"],
        .file (bytesOf "integrations:\n  i:\n    .ts:\n      type: action\n"))]
    here := ["p"] }
  log := []

theorem listed_sharedStem : listed sharedStem.disk Sample.root =
    [Sample.root.child ".ts", Sample.root.child ".ts.ts"] := by
  have hlist : sharedStem.disk.list Sample.root =
      [".ts", ".ts.ts", "dist", "models.ts", "nango.yaml"] :=
    List.mergeSort_of_pairwise (by decide)
  rw [listed, hlist]
  rfl

/-- To build the project is to compile one script after the other. -/
def both : Work (Manifest × Context × Outcome × Outcome) := do
  let (m, c) ← prepare Sample.settings none false
  makeDirs Sample.settings.output
  let o ← compileScript blank c (Sample.root.child ".ts")
  let o' ← compileScript blank c (Sample.root.child ".ts.ts")
  return (m, c, o, o')

/-- The compiled form of `.ts` is written over that of `.ts.ts`, although the latter fails. -/
theorem not_keeps : sharedStem.disk.IsTree ∧
    Settings.resolve sharedStem.disk Sample.wishes = .ok Sample.settings ∧
    ∃ m c y w rs message,
      (compile blank Sample.settings none false).on sharedStem = (.ok (m, c, false), y) ∧
      Attempts blank c w rs y ∧
      rs.map Prod.fst = selected sharedStem.disk Sample.settings.root none ∧
      (Sample.root.child ".ts.ts", .failed message) ∈ rs ∧
      y.disk.find? (artifactNames Sample.settings (Sample.root.child ".ts.ts")) ≠
        sharedStem.disk.find? (artifactNames Sample.settings (Sample.root.child ".ts.ts")) := by
  refine ⟨Disk.isTree_of_entries (by decide) (by decide), rfl, ?_⟩
  have hnames : (both.on sharedStem).1.toOption.map (fun r => (r.2.2.1.name, r.2.2.2.name)) =
      some ("compiled", "failed") := by decide +kernel
  have hfile : (both.on sharedStem).2.disk.find? ["p", "dist", ".ts.js"] = some (.file []) := by
    decide +kernel
  obtain ⟨⟨m, c, o, o'⟩, y, hboth, hstatus⟩ := on_eq_ok_of_map hnames
  obtain ⟨hcompiled, hfailed⟩ := Prod.mk.inj hstatus
  rw [hboth] at hfile
  obtain ⟨⟨m', c'⟩, z, hprepare, hrest⟩ := on_bind_eq_ok hboth
  obtain ⟨_, w, hdirs, hrest⟩ := on_bind_eq_ok hrest
  obtain ⟨o₁, w', hfirst, hrest⟩ := on_bind_eq_ok hrest
  obtain ⟨o₂, w'', hsecond, hrest⟩ := on_bind_eq_ok hrest
  cases hrest
  have hz : z.disk = sharedStem.disk := by
    rcases prepare_cases hprepare with ⟨hdisk, -⟩ | ⟨hhas, -⟩
    · exact hdisk
    · cases hhas
  have hrs : Attempts blank c w
      [(Sample.root.child ".ts", o), (Sample.root.child ".ts.ts", o')] y :=
    .cons hfirst (.cons hsecond (.nil y))
  have hplan : (mapFault asBuild (plan Sample.settings none false)).on sharedStem =
      (.ok (m, c, [Sample.root.child ".ts", Sample.root.child ".ts.ts"]), z) := by
    have hscripts : (scripts Sample.root).on z =
        (.ok [Sample.root.child ".ts", Sample.root.child ".ts.ts"], z) := by
      rw [← listed_sharedStem, ← hz]
      rfl
    rw [on_mapFault, show (plan Sample.settings none false).on sharedStem = _ from
      (on_bind_ok hprepare).trans ((on_bind_ok hscripts).trans rfl)]
    rfl
  obtain ⟨message, rfl⟩ := o'.name_eq_failed_iff.1 hfailed
  have hall : (compileAll blank c none
      [Sample.root.child ".ts", Sample.root.child ".ts.ts"]).on w = (.ok false, y) := by
    refine (on_bind_ok hfirst).trans ((on_bind_ok ((on_bind_ok hsecond).trans rfl)).trans ?_)
    rw [on_pure]
    simp [Outcome.isFine]
  refine ⟨m, c, y, w, _, message, ?_, hrs, ?_, by simp, ?_⟩
  · exact (on_bind_ok hplan).trans ((on_bind_ok hdirs).trans ((on_bind_ok hall).trans rfl))
  · exact listed_sharedStem.symm
  · have hnames : artifactNames Sample.settings (Sample.root.child ".ts.ts") =
        ["p", "dist", ".ts.js"] := by decide
    rw [hnames, hfile]
    decide

end Build
end FlowPipeline
