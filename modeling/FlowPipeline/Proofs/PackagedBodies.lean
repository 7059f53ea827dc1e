import FlowPipeline.Deployment
import FlowPipeline.Proofs.Artifacts
import FlowPipeline.Proofs.Packaging
import FlowPipeline.Proofs.Utf8RoundTrip

/-! # What is deployed

A deployment packages what is in the output directory after all scripts have been compiled. The
compiled script of a package is that of its source if the source passes. If it does not, what was
there before is deployed beside it.
-/

namespace FlowPipeline
open Work Build

theorem Disk.text?_of_holds {d : Disk} {p : Path} {s : String} (h : d.Holds p s) :
    d.text? p = some (Text.withUnixLines s) := by
  obtain ⟨bytes, henc, hread⟩ := h
  exact text?_eq_some_iff.2
    ⟨bytes, s, read_eq_ok_iff.1 hread, Text.Utf8.decode_of_encoded henc, rfl⟩

variable {run : Runner} {s : Settings} {x y : World}

/-! ## From the compilation to the packages -/

theorem Build.compile_eq_ok {m : Manifest} {c : Context} {fine : Bool}
    (h : (compile run s none false).on x = (.ok (m, c, fine), y)) :
    ∃ z z', (prepare s none false).on x = (.ok (m, c), z) ∧
      (makeDirs s.output).on z = (.ok (), z') ∧
      (compileAll run c none (listed z.disk s.root)).on z' = (.ok fine, y) := by
  obtain ⟨⟨m', c', ps⟩, z, hplan, h⟩ := on_bind_eq_ok h
  obtain ⟨_, z', hdirs, h⟩ := on_bind_eq_ok h
  obtain ⟨b, z'', hall, hend⟩ := on_bind_eq_ok h
  cases hend
  obtain ⟨z₀, hprepare, hwanted⟩ := plan_eq_ok (on_mapFault_eq_ok hplan)
  cases hwanted
  exact ⟨z, z', hprepare, hdirs, hall⟩

theorem Deployment.ofProject_eq_ok {version : String} {wanted : Selection} {now : Moment}
    {dep : Deployment} {fine : Bool}
    (h : (ofProject run s version wanted now).on x = (.ok (dep, fine), y)) :
    ∃ m c z, (compile run s none false).on x = (.ok (m, c, fine), z) ∧ y.disk = z.disk ∧
      ∀ p ∈ dep.packages, p.IsOf s.root s.output z.disk := by
  have hend {m : Manifest} {c : Context} {b : Bool} {z : World} (h : (do
      return (← ofCompiled s version wanted now m c.integrations, b)).on z =
        (.ok (dep, fine), y)) :
      b = fine ∧ y.disk = z.disk ∧ ∀ p ∈ dep.packages, p.IsOf s.root s.output z.disk := by
    obtain ⟨dep', z', hdep, h⟩ := on_bind_eq_ok h
    cases h
    exact ⟨rfl, ofCompiled_eq_ok hdep⟩
  obtain ⟨⟨m, c, b⟩, z, hcompile, h⟩ := on_bind_eq_ok h
  cases b with
  | true =>
    obtain ⟨rfl, hd, hps⟩ := hend h
    exact ⟨m, c, z, hcompile, hd, hps⟩
  | false =>
    obtain ⟨_, z', hlog, h⟩ := on_bind_eq_ok h
    rw [on_log] at hlog
    obtain ⟨-, hz⟩ := Prod.mk.inj hlog
    have hz : z'.disk = z.disk := by rw [← hz]
    obtain ⟨rfl, hd, hps⟩ := hend h
    rw [hz] at hd hps
    exact ⟨m, c, z, hcompile, hd, hps⟩

/-! ## What a compilation leaves -/

theorem Build.ne_types_of_isListed {n : String} (h : isListed n = true) :
    n ≠ TypeDefinitions.fileName := by
  rintro rfl
  exact absurd h (by decide)

theorem Build.Ready.not_prefix_of_file {d₀ d : Disk} (hr : Ready s d₀ d) (hout : s.output.IsPlain)
    {names : List String} {bytes : List UInt8} (h : d.find? names = some (.file bytes)) :
    ¬names <+: s.output.names := by
  intro hp
  obtain ⟨-, hdirs, hd⟩ := (Disk.entryAt?_eq_some_iff_of_plain hout).1 hr.output
  by_cases he : names = s.output.names
  · rw [he, hd] at h
    cases h
  · rw [hdirs names hp he] at h
    cases h

theorem Build.Accounted.of_ready {d₀ d : Disk} {c : Context} {wishes : Wishes} (tree : d₀.IsTree)
    (resolved : Settings.resolve d₀ wishes = .ok s) (hr : Ready s d₀ d) {ps : List Path}
    {names : List String} {bytes : List UInt8}
    (hps : ∀ p ∈ ps, p ∈ listed d₀ s.root)
    (hne : names ≠ (s.root.child TypeDefinitions.fileName).names)
    (h : Accounted run c ps d names bytes) :
    Accounted run c (listed d₀ s.root) d₀ names bytes := by
  have hroot := isPlain_root tree.isConnected resolved
  obtain ⟨-, hdir, hs⟩ := Settings.resolve_eq_ok resolved
  have hout : s.output.IsPlain := hs ▸ hroot.child (by decide)
  rcases h with hfile | ⟨script, hmem, source, output, hsource, hrest⟩
  · left
    rw [← hr.same names hne (hr.not_prefix_of_file hout hfile)]
    exact hfile
  · right
    refine ⟨script, hps script hmem, source, output, ?_, hrest⟩
    obtain ⟨n, hn, hlist, rfl⟩ := mem_listed_iff.1 (hps script hmem)
    have hname := tree.names _ ((Disk.mem_list_iff hroot hdir).1 hn) n (by simp)
    have hsame : d.find? (s.root.names ++ [n]) = d₀.find? (s.root.names ++ [n]) := by
      refine hr.same _ ?_ ?_
      · simpa [Path.child] using ne_types_of_isListed hlist
      · have hdist : n ≠ "dist" := by
          rintro rfl
          exact absurd hlist (by decide)
        rw [hs]
        simpa [Path.child] using hdist
    have halong := Disk.AgreesAlong.child hroot hdir hr.root hsame
    rw [← hsource]
    exact (Disk.text?_congr (halong.entryAt? (hroot.child hname.ne_parent))).symm

/-- When a project has been compiled, every script that is listed and watched is up to date, and
every file but the type definitions is accounted for. -/
theorem Build.compile_leaves {wishes : Wishes} (tree : x.disk.IsTree)
    (resolved : Settings.resolve x.disk wishes = .ok s) {m : Manifest} {c : Context} {fine : Bool}
    (h : (compile run s none false).on x = (.ok (m, c, fine), y)) :
    ∃ z, (prepare s none false).on x = (.ok (m, c), z) ∧
      (∀ script ∈ listed x.disk s.root, Watch.isScript script = true →
        Current run c script y.disk) ∧
      ∀ names bytes, names ≠ (s.root.child TypeDefinitions.fileName).names →
        y.disk.find? names = some (.file bytes) →
        Accounted run c (listed x.disk s.root) x.disk names bytes := by
  have hroot := isPlain_root tree.isConnected resolved
  obtain ⟨-, hdir, hs⟩ := Settings.resolve_eq_ok resolved
  obtain ⟨z, z', hprepare, hdirs, hall⟩ := compile_eq_ok h
  have hl := leads_prepare s none false x
  rw [hprepare] at hl
  have hready := Ready.of_leads tree resolved hl hdirs
  obtain ⟨hcr, hco, -⟩ := prepare_eq_ok hprepare
  have hc : c.IsPlain := ⟨hcr ▸ hroot, by rw [hco, hs, hcr]⟩
  rw [← hcr] at hall
  have hmem {n : String} (hn : isListed n = true) :
      n ∈ z.disk.list c.root ↔ n ∈ x.disk.list s.root := by
    rw [hcr, Disk.mem_list_iff hroot (root_of_isTypes hroot hl hdir), Disk.mem_list_iff hroot hdir,
      find?_of_isTypes hroot hl]
    simpa [Path.child] using ne_types_of_isListed hn
  have hns : ∀ n ∈ (z.disk.list c.root).filter isListed, Path.IsName n := by
    intro n hn
    obtain ⟨hn, hlist⟩ := List.mem_filter.1 hn
    exact tree.names _ ((Disk.mem_list_iff hroot hdir).1 ((hmem hlist).1 hn)) n (by simp)
  have hout : z'.disk.entryAt? c.output = some .dir := hco ▸ hready.output
  refine ⟨z, hprepare, fun script hscript hw => ?_, fun names bytes hne hfile => ?_⟩
  · obtain ⟨n, hn, hlist, rfl⟩ := mem_listed_iff.1 hscript
    have hn' := List.mem_filter.2 ⟨(hmem hlist).2 hn, hlist⟩
    rw [← hcr] at hw ⊢
    exact compileAll_current hc hns (listed_pairwise z.disk c.root) hout hall hn' hw
  · have hlist : ∀ n ∈ (z.disk.list c.root).filter isListed, isListed n = true :=
      fun n hn => (List.mem_filter.1 hn).2
    have hfrom := compileAll_accounted hc hns hlist hout hall names bytes hfile
    refine hfrom.of_ready tree resolved hready (fun p hp => ?_) hne
    obtain ⟨n, hn, rfl⟩ := List.mem_map.1 hp
    obtain ⟨hn, hl⟩ := List.mem_filter.1 hn
    exact mem_listed_iff.2 ⟨n, (hmem hl).1 hn, hl, by rw [hcr]⟩

/-! ## Where compiled scripts are read from -/

/-- A file that a flow's compiled script is read from is not the one of the type definitions. -/
theorem Disk.ne_types_of_locate {d : Disk} {output root : Path} {n : String} {names : List String}
    (h : d.locate (output.join (Path.ofString (n ++ ".js"))) = .ok names) :
    names ≠ (root.child TypeDefinitions.fileName).names := by
  rintro rfl
  exact Build.not_isCompiled_types root (Build.isCompiled_of_locate h)

/-! ## Deployments of the small project -/

namespace Sample

/-- The time of a deployment. -/
def now : Moment := ⟨⟨2024, 1, 1⟩, 0, 0, 0, 0, none⟩

/-- To compile the project comes to compiling its script. -/
theorem compile_of_script (source : String) (compiled : Option String) :
    ∃ m c y, IsContext c ∧ y.disk = project source compiled ∧
      (∃ z, (prepare settings none false).on (fresh source compiled) = (.ok (m, c), z)) ∧
      ∀ o x, (compileScript echo c script).on y = (.ok o, x) →
        ∃ fine, (compile echo settings none false).on (fresh source compiled) =
          (.ok (m, c, fine), x) := by
  obtain ⟨m, c, y, hc, hprepare, hy⟩ := prepare_fresh source compiled none
  have hplan : (plan settings none false).on (fresh source compiled) =
      (.ok (m, c, listed y.disk root), y) :=
    (on_bind_ok hprepare).trans ((on_bind_ok rfl).trans rfl)
  have hmapped : (mapFault asBuild (plan settings none false)).on (fresh source compiled) =
      (.ok (m, c, listed y.disk root), y) := by
    rw [on_mapFault, hplan]
    rfl
  obtain ⟨z, hdirs, hz⟩ := on_makeDirs_output hy
  refine ⟨m, c, z, hc, hz, ⟨y, hprepare⟩, fun o x ho => ?_⟩
  obtain ⟨fine, hall⟩ := compileAll_of_script hz ho
  rw [hz, ← hy] at hall
  exact ⟨fine, (on_bind_ok hmapped).trans ((on_bind_ok hdirs).trans ((on_bind_ok hall).trans rfl))⟩

theorem package_of_texts {c : Context} (hc : IsContext c) {x : World} {js ts : String}
    (hjs : x.disk.text? artifact = some js) (hts : x.disk.text? script = some ts)
    (version : String) (now : Moment) (m : Manifest) : ∃ dep p z,
      (Deployment.ofCompiled settings version ⟨none, none⟩ now m c.integrations).on x =
        (.ok dep, z) ∧ dep.packages = [p] ∧ p.flow.name = "a" ∧ p.compiled = js ∧
          p.source = some ts := by
  obtain ⟨flow, hflows, hname, htype, hunresolved⟩ := hc.flows
  have hobstacle : Obstacle.ofFlow? flow now = none := by
    simp [Obstacle.ofFlow?, Flow.kind?, htype, hunresolved]
  have hp : settings.output.join (Path.ofString (flow.name ++ ".js")) = artifact := by
    rw [hname]
    rfl
  have hq : root.join (Path.ofString (flow.name ++ ".ts")) = script := by
    rw [hname]
    rfl
  obtain ⟨l, hscript⟩ := Package.on_ofScript version "i" (hp ▸ hjs) (hq ▸ hts)
  have hkind : flow.kind?.isNone = false := by simp [Flow.kind?, htype]
  have hflow : (Package.ofFlow root settings.output version now "i" flow).on x =
      (.ok (.ok ⟨"i", flow, version, js, some ts⟩), { x with log := l }) := by
    unfold Package.ofFlow
    simp only [hkind, Bool.false_eq_true, if_false, hobstacle]
    exact hscript
  have hwanted : (c.integrations.flatMap fun i =>
      (Selection.flows ⟨none, none⟩ i).map fun f => (i.key, f)) = [("i", flow)] := hflows
  have hall : (Package.all root settings.output version ⟨none, none⟩ now c.integrations).on x =
      (.ok (some [⟨"i", flow, version, js, some ts⟩]), { x with log := l }) := by
    rw [Package.all, hwanted]
    exact (on_bind_ok hflow).trans ((on_bind_ok rfl).trans rfl)
  exact ⟨_, _, _, (on_bind_ok hall).trans rfl, rfl, hname, rfl, rfl⟩

/-- To deploy the project comes to compiling its script and to packaging what there is then. -/
theorem deploy_of_script (source : String) (compiled : Option String) (version : String)
    (now : Moment) : ∃ c y, IsContext c ∧ y.disk = project source compiled ∧
      (∃ m z, (prepare settings none false).on (fresh source compiled) = (.ok (m, c), z)) ∧
      ∀ o x js ts, (compileScript echo c script).on y = (.ok o, x) →
        x.disk.text? artifact = some js → x.disk.text? script = some ts →
        ∃ dep fine p z, (Deployment.ofProject echo settings version ⟨none, none⟩ now).on
          (fresh source compiled) = (.ok (dep, fine), z) ∧ dep.packages = [p] ∧
          p.flow.name = "a" ∧ p.compiled = js ∧ p.source = some ts := by
  obtain ⟨m, c, y, hc, hy, ⟨z, hprepare⟩, hcompile⟩ := compile_of_script source compiled
  refine ⟨c, y, hc, hy, ⟨m, z, hprepare⟩, fun o x js ts ho hjs hts => ?_⟩
  obtain ⟨fine, hx⟩ := hcompile o x ho
  cases fine with
  | true =>
    obtain ⟨dep, p, w, hdep, hp⟩ := package_of_texts hc hjs hts version now m
    exact ⟨dep, true, p, w, (on_bind_ok hx).trans ((on_bind_ok hdep).trans rfl), hp⟩
  | false =>
    obtain ⟨l, hlog⟩ : ∃ l, (log .warning
        "Some scripts did not compile; packaging what is available.").on x =
          (.ok (), { x with log := l }) := ⟨_, on_log _ _ _⟩
    obtain ⟨dep, p, w, hdep, hp⟩ :=
      package_of_texts hc (x := { x with log := l }) hjs hts version now m
    exact ⟨dep, false, p, w,
      (on_bind_ok hx).trans ((on_bind_ok hlog).trans ((on_bind_ok hdep).trans rfl)), hp⟩

end Sample

/-! ## The compiled script of a package -/

/-- Of each package that is deployed with a source, the compiled script is that of the source if the
source passes as a script of the flow's name. In any case it is what its file held before, or the
compiled form of a script. -/
theorem Deployment.compiled_of_source {wishes : Wishes} (tree : x.disk.IsTree)
    (resolved : Settings.resolve x.disk wishes = .ok s) {version : String} {wanted : Selection}
    {now : Moment} {dep : Deployment} {fine : Bool}
    (h : (ofProject run s version wanted now).on x = (.ok (dep, fine), y)) :
    ∃ m c z, (prepare s none false).on x = (.ok (m, c), z) ∧
      ∀ p ∈ dep.packages, ∀ source, p.source = some source →
        (∀ script ∈ listed x.disk s.root,
          script = s.root.join (Path.ofString (p.flow.name ++ ".ts")) →
          script.stem = p.flow.name → Eligible c script source → ∀ output,
          run (Compiler.command Compiler.program c.options script) source = .ok output →
          p.compiled = Text.withUnixLines output) ∧
        ∃ names bytes text,
          y.disk.locate (s.output.join (Path.ofString (p.flow.name ++ ".js"))) = .ok names ∧
          y.disk.find? names = some (.file bytes) ∧ Text.Utf8.decode bytes = .ok text ∧
          p.compiled = Text.withUnixLines text ∧
          Accounted run c (listed x.disk s.root) x.disk names bytes := by
  obtain ⟨m, c, w, hcompile, hy, hps⟩ := ofProject_eq_ok h
  obtain ⟨z, hprepare, hcurrent, hfiles⟩ := compile_leaves tree resolved hcompile
  refine ⟨m, c, z, hprepare, fun p hp source hsource => ?_⟩
  rw [hy]
  have hco := (prepare_eq_ok hprepare).2.1
  have hof := hps p hp
  obtain ⟨bytes, text, hentry, hdecode, htext⟩ := Disk.text?_eq_some_iff.1 hof.compiled
  refine ⟨fun script hl hpath hstem heligible output hrun => ?_, ?_⟩
  · have hartifact : c.outputOf script = s.output.join (Path.ofString (p.flow.name ++ ".js")) := by
      rw [Context.outputOf, hco, hstem]
    have hw := isScript_of_flow hl hpath hstem
    have hsource' := hof.source source hsource
    rw [← hpath] at hsource'
    have hmay : w.disk.MayWrite (c.outputOf script) := by
      rw [hartifact]
      exact Disk.mayWrite_of_file hentry
    have hholds := hcurrent script hl hw source output hsource' ⟨heligible, hrun⟩ hmay
    rw [hartifact] at hholds
    have hcompiled := hof.compiled
    rw [Disk.text?_of_holds hholds, Option.some.injEq] at hcompiled
    exact hcompiled.symm
  · obtain ⟨names, hlocate, hfind⟩ := Disk.entryAt?_eq_some_iff.1 hentry
    exact ⟨names, bytes, text, hlocate, hfind, hdecode, htext,
      hfiles names bytes (Disk.ne_types_of_locate hlocate) hfind⟩

open Sample

/-- A project whose script has not been compiled yet is deployed with what its script is compiled
to. -/
theorem Deployment.compiled_of_source_new : ∃ dep fine y,
    (ofProject echo settings "" ⟨none, none⟩ now).on (fresh "" none) = (.ok (dep, fine), y) ∧
      ∃ p ∈ dep.packages, p.source = some "" ∧ p.compiled = Text.withUnixLines "" := by
  obtain ⟨c, y, hc, hy, ⟨m, z, hprepare⟩, hdeploy⟩ := deploy_of_script "" none "" now
  obtain ⟨o, x, ho, hx, -⟩ := compile_empty hc hy
  obtain ⟨dep, fine, p, w, hon, hps, hname, -, hsource⟩ :=
    hdeploy o x "" "" ho (by rw [hx]; rfl) (by rw [hx]; rfl)
  have hp : p ∈ dep.packages := by simp [hps]
  obtain ⟨m', c', z', hprepare', hall⟩ :=
    Deployment.compiled_of_source (isTree "" none) (resolve_eq "" none) hon
  rw [hprepare] at hprepare'
  cases hprepare'
  have hl : script ∈ listed (fresh "" none).disk settings.root :=
    listed_eq "" none ▸ List.mem_singleton_self script
  have hpath : script = settings.root.join (Path.ofString (p.flow.name ++ ".ts")) := by
    rw [hname]
    rfl
  have hpasses := passes_empty hc
  exact ⟨dep, fine, w, hon, p, hp, hsource, (hall p hp "" hsource).1 script hl hpath
    (by rw [hname]; rfl) hpasses.eligible "" hpasses.compiles⟩

/-- The compiled script of a package need not be that of its source. -/
theorem Deployment.not_compiled_of_source : ¬∀ (run : Runner) (s : Settings) (wishes : Wishes)
    (x y : World) (version : String) (wanted : Selection) (now : Moment) (dep : Deployment)
    (fine : Bool), x.disk.IsTree → Settings.resolve x.disk wishes = .ok s →
    (ofProject run s version wanted now).on x = (.ok (dep, fine), y) →
    ∀ p ∈ dep.packages, ∀ source, p.source = some source →
      ∃ m c z, (prepare s none false).on x = (.ok (m, c), z) ∧ ∃ script output,
        script = s.root.join (Path.ofString (p.flow.name ++ ".ts")) ∧ Eligible c script source ∧
        run (Compiler.command Compiler.program c.options script) source = .ok output ∧
        p.compiled = Text.withUnixLines output := by
  intro hall
  obtain ⟨c, y, hc, hy, ⟨m, z, hprepare⟩, hdeploy⟩ := deploy_of_script ")" (some "old") "" now
  obtain ⟨o, l, ho⟩ := compile_broken hc hy
  obtain ⟨dep, fine, p, w, hon, hps, hname, -, hsource⟩ :=
    hdeploy o _ "old" ")" ho (by rw [hy]; rfl) (by rw [hy]; rfl)
  obtain ⟨m', c', z', hprepare', script', output, hpath, heligible, -⟩ :=
    hall echo settings wishes _ w "" ⟨none, none⟩ now dep fine (isTree ")" (some "old"))
      (resolve_eq ")" (some "old")) hon p (by simp [hps]) ")" hsource
  rw [hprepare] at hprepare'
  cases hprepare'
  rw [hname] at hpath
  subst hpath
  exact not_eligible_broken hc heligible

end FlowPipeline
