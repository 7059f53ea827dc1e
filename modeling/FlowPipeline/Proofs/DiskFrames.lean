import FlowPipeline.Proofs.WorkRuns

/-! # What changes leave as it was

In a file system whose entries are in directories, a change from the root takes no directory away,
so that paths go on leading where they led. It leaves all files as they were, but for the one whose
names it is aimed at. This holds also of paths with `..`, which lead to the names that they are
resolved to, if they lead anywhere.
-/

namespace FlowPipeline

namespace Disk

/-! ## Where paths lead -/

/-- The names are those of the root, or of an entry in a directory. -/
def Inside (d : Disk) (ns : List String) : Prop :=
  ns = [] ∨ ∃ m n, ns = m ++ [n] ∧ d.find? m = some .dir

namespace IsConnected

variable {d : Disk} {dir names ns : List String} {p : Path}

theorem inside (h : d.IsConnected) (hs : (d.find? ns).isSome) : Inside d ns := by
  rcases List.eq_nil_or_concat ns with rfl | ⟨m, n, rfl⟩
  · exact .inl rfl
  · exact .inr ⟨m, n, List.concat_eq_append, h.parents m n (by simpa using hs)⟩

theorem dropLast (h : d.IsConnected) (hdir : d.find? ns = some .dir) :
    d.find? ns.dropLast = some .dir := by
  have hs : (d.find? ns).isSome = true := by simp [hdir]
  rcases h.inside hs with rfl | ⟨m, n, rfl, hm⟩
  · rfl
  · simpa using hm

theorem inside_step (h : d.IsConnected) (hdir : d.find? dir = some .dir) (name : String) :
    Inside d (step dir name) := by
  rw [step]
  split_ifs
  · exact h.inside (by simp [h.dropLast hdir])
  · exact .inr ⟨dir, name, rfl, hdir⟩

/-- What is walked to is in a directory, be it there or not. -/
theorem inside_of_walk (h : d.IsConnected) (hdir : d.find? dir = some .dir)
    (hw : d.walk dir names = .ok ns) : Inside d ns := by
  induction names generalizing dir with
  | nil =>
    cases hw
    exact h.inside (by simp [hdir])
  | cons name names ih =>
    rw [walk] at hw
    split_ifs at hw
    · cases hw
      exact h.inside_step hdir name
    · split at hw
      · cases hw
      · cases hw
      · exact ih ‹_› hw

theorem inside_of_locate (h : d.IsConnected) (hp : p.isAbsolute = true)
    (hl : d.locate p = .ok ns) : Inside d ns := by
  rw [locate, hp, if_pos rfl] at hl
  split_ifs at hl
  exact h.inside_of_walk rfl hl

end IsConnected

theorem walk_eq {d : Disk} {dir names ns : List String} (h : d.walk dir names = .ok ns) :
    ns = names.foldl step dir := by
  induction names generalizing dir with
  | nil =>
    cases h
    rfl
  | cons name names ih =>
    rw [walk] at h
    split_ifs at h with hlong hlast
    · rw [List.isEmpty_iff.1 hlast]
      cases h
      rfl
    · split at h
      · cases h
      · cases h
      · exact ih h

/-- A path that leads anywhere leads to the names that it is resolved to. -/
theorem locate_eq {d : Disk} {p : Path} {ns : List String} (h : d.locate p = .ok ns) :
    ns = (d.resolve p).names := by
  unfold locate at h
  by_cases hlong : longestPath < p.toText.utf8ByteSize
  · rw [if_pos hlong] at h
    cases h
  · rw [if_neg hlong] at h
    exact walk_eq h

/-- A path that ends in a name other than `..` is resolved to names that end in it. -/
theorem resolve_append (d : Disk) {p : Path} {l : List String} {n : String}
    (hp : p.names = l ++ [n]) (hn : n ≠ "..") : ∃ m, (d.resolve p).names = m ++ [n] := by
  simp only [resolve, hp, List.foldl_append, List.foldl_cons, List.foldl_nil, step, if_neg hn]
  exact ⟨_, rfl⟩

/-- The file of a path is the same in both file systems, or there is none in either. A path with
`..` may lead to its file in the second one only, as there can be more directories on the way. -/
structure KeepsFile (d d' : Disk) (p : Path) : Prop where
  file : ∀ bytes, d'.find? (d.resolve p).names = some (.file bytes) ↔
    d.find? (d.resolve p).names = some (.file bytes)
  read : ∀ bytes, d.read p = .ok bytes → d'.read p = .ok bytes
  read_iff : p.IsPlain → ∀ bytes, d'.read p = .ok bytes ↔ d.read p = .ok bytes

theorem KeepsFile.refl (d : Disk) (p : Path) : KeepsFile d d p :=
  ⟨fun _ => Iff.rfl, fun _ h => h, fun _ _ => Iff.rfl⟩

/-! ## Frames -/

/-- The second file system is connected, has the directories of the first one, and the same files
but for those of some names. -/
structure Spares (aims : List String → Prop) (d d' : Disk) : Prop extends KeepsDirs d d' where
  connected : d'.IsConnected
  files : ∀ ns, ¬aims ns → ∀ bytes,
    d'.find? ns = some (.file bytes) ↔ d.find? ns = some (.file bytes)

namespace Spares

variable {aims aims' : List String → Prop} {d d' d'' : Disk} {p : Path}

theorem refl (h : d.IsConnected) : Spares aims d d :=
  ⟨⟨rfl, fun _ hns => hns⟩, h, fun _ _ _ => Iff.rfl⟩

theorem trans (h : Spares aims d d') (h' : Spares aims d' d'') : Spares aims d d'' where
  here := h'.here.trans h.here
  dirs ns hns := h'.dirs ns (h.dirs ns hns)
  connected := h'.connected
  files ns hns bytes := (h'.files ns hns bytes).trans (h.files ns hns bytes)

theorem mono (h : Spares aims d d') (haims : ∀ ns, aims ns → aims' ns) : Spares aims' d d' where
  toKeepsDirs := h.toKeepsDirs
  connected := h.connected
  files ns hns := h.files ns (mt (haims ns) hns)

/-- A file is kept if no change is aimed at it. -/
theorem keepsFile (h : Spares aims d d') (hd : d.IsConnected) (hp : ¬aims (d.resolve p).names) :
    KeepsFile d d' p := by
  refine ⟨h.files _ hp, fun bytes hr => ?_, fun hplain bytes => ?_⟩
  · rw [read_eq_ok_iff, Disk.entryAt?_eq_some_iff] at hr ⊢
    obtain ⟨ns, hl, hf⟩ := hr
    rw [← locate_eq hl] at hp
    exact ⟨ns, h.toKeepsDirs.locate hl, (h.files ns hp bytes).2 hf⟩
  · rw [read_eq_ok_iff, read_eq_ok_iff, h.connected.entryAt?_eq_some_iff hplain,
      hd.entryAt?_eq_some_iff hplain]
    rw [d.resolve_of_isPlain hplain] at hp
    rw [h.files _ hp]

theorem keepsFile_of_isPlain (h : Spares aims d d') (hd : d.IsConnected) (hplain : p.IsPlain)
    (hp : ¬aims p.names) : KeepsFile d d' p := by
  refine h.keepsFile hd ?_
  rwa [d.resolve_of_isPlain hplain]

end Spares

/-! ## Changes -/

variable {d d' : Disk} {p : Path} {bytes : List UInt8}

/-- An entry that is put in a directory, where no directory stands. -/
theorem spares_set (h : d.IsConnected) {ns : List String} (hin : Inside d ns)
    (hdir : d.find? ns ≠ some .dir) (e : Entry) : Spares (· = ns) d (d.set ns e) := by
  have hne : ns ≠ [] := fun hnil => hdir (hnil ▸ rfl)
  have hdirs (l : List String) (hl : d.find? l = some .dir) : (d.set ns e).find? l = some .dir := by
    rw [find?_set hne, if_neg, hl]
    rintro rfl
    exact hdir hl
  refine ⟨⟨rfl, hdirs⟩, ⟨h.here, fun l n hs => ?_⟩, fun l hl bytes => ?_⟩
  · rw [find?_set hne] at hs
    split_ifs at hs with heq
    · -- The new entry is in its directory, every other one in the old one.
      obtain ⟨m, n', hm, hdirm⟩ := hin.resolve_left hne
      rw [hm] at heq
      obtain rfl : l = m := (List.append_inj' heq rfl).1
      exact hdirs l hdirm
    · exact hdirs l (h.parents l n hs)
  · rw [find?_set hne, if_neg hl]

theorem spares_write (h : d.IsConnected) (hp : p.isAbsolute = true)
    (hw : d.write p bytes = .ok d') : Spares (fun ns => d.locate p = .ok ns) d d' := by
  obtain ⟨ns, hl, hdir, rfl⟩ := write_eq_ok hw
  exact (spares_set h (h.inside_of_locate hp hl) hdir _).mono fun _ heq => heq ▸ hl

theorem spares_makeDir (h : d.IsConnected) (hp : p.isAbsolute = true)
    (hm : d.makeDir p = .ok d') : Spares (fun _ => False) d d' := by
  obtain ⟨ns, hl, hne, hf, rfl⟩ := makeDir_eq_ok hm
  have hset := spares_set h (h.inside_of_locate hp hl) (by simp [hf]) .dir
  refine ⟨hset.toKeepsDirs, hset.connected, fun l _ bytes => ?_⟩
  by_cases heq : l = ns
  · -- Neither before nor after there is a file.
    rw [find?_set hne, if_pos heq, heq, hf]
    exact iff_of_false nofun nofun
  · exact hset.files l heq bytes

theorem spares_makeDirs (h : d.IsConnected) (hp : p.isAbsolute = true) {depth : Nat}
    (hm : d.makeDirs p depth = .ok d') : Spares (fun _ => False) d d' := by
  induction depth generalizing d p d' with
  | zero => cases hm
  | succ depth ih =>
    rcases makeDirs_cases hm with hmade | ⟨e, hparent, hmade⟩ | ⟨-, rfl⟩
    · exact spares_makeDir h hp hmade
    · have hspares : Spares (fun _ => False) d e := ih (p := p.parent) h hp hparent
      exact hspares.trans (spares_makeDir hspares.connected hp hmade)
    · exact .refl h

theorem spares_remove (h : d.IsConnected) (hr : d.remove p = .ok d') :
    Spares (fun ns => d.locate p = .ok ns) d d' := by
  obtain ⟨ns, bytes, hl, hne, hf, rfl⟩ := remove_eq_ok hr
  -- As a file stands there, nothing is below.
  have hfind (l : List String) (hl : l ≠ ns) : (d.erase ns).find? l = d.find? l := by
    rw [find?_erase hne]
    split_ifs with hprefix
    · rcases hnone : d.find? l with _ | e
      · rfl
      · have hdir := h.dir_of_prefix hprefix (Ne.symm hl) (by simp [hnone])
        rw [hf] at hdir
        cases hdir
    · rfl
  have hdirs (l : List String) (hdir : d.find? l = some .dir) :
      (d.erase ns).find? l = some .dir := by
    have hne' : l ≠ ns := by
      rintro rfl
      rw [hf] at hdir
      cases hdir
    rw [hfind l hne', hdir]
  refine ⟨⟨rfl, hdirs⟩, ⟨h.here, fun l n hs => ?_⟩, fun l hl' bytes => ?_⟩
  · by_cases heq : l ++ [n] = ns
    · rw [find?_erase hne, if_pos (heq ▸ List.prefix_refl _)] at hs
      cases hs
    · rw [hfind _ heq] at hs
      exact hdirs l (h.parents l n hs)
  · rw [hfind l fun heq => hl' (heq ▸ hl)]

end Disk

/-- A change starts from the root, and is aimed at none but some names. Making directories is aimed
at nothing. -/
def Edit.IsAimed (aims : List String → Prop) (d : Disk) : Edit → Prop
  | .write p _ | .remove p => p.isAbsolute = true ∧ ∀ ns, d.locate p = .ok ns → aims ns
  | .makeDirs p => p.isAbsolute = true

theorem Edit.IsAimed.mono {aims aims' : List String → Prop} {d : Disk} {e : Edit}
    (h : e.IsAimed aims d) (haims : ∀ ns, aims ns → aims' ns) : e.IsAimed aims' d := by
  cases e with
  | write p bytes => exact ⟨h.1, fun ns hl => haims ns (h.2 ns hl)⟩
  | makeDirs p => exact h
  | remove p => exact ⟨h.1, fun ns hl => haims ns (h.2 ns hl)⟩

theorem Edit.IsAimed.spares {aims : List String → Prop} {d d' : Disk} {e : Edit}
    (he : e.IsAimed aims d) (h : d.IsConnected) (ha : e.apply d = .ok d') : d.Spares aims d' := by
  cases e with
  | write p bytes => exact (Disk.spares_write h he.1 ha).mono he.2
  | makeDirs p => exact (Disk.spares_makeDirs h he ha).mono fun _ hf => hf.elim
  | remove p => exact (Disk.spares_remove h ha).mono he.2

theorem Replay.spares {aims : List String → Prop} {d d' : Disk} {es : List (Disk × Edit)}
    (hr : Replay d es d') (h : d.IsConnected) (he : ∀ c ∈ es, c.2.IsAimed aims c.1) :
    d.Spares aims d' := by
  induction hr with
  | nil => exact .refl h
  | cons ha _ ih =>
    obtain ⟨hfirst, hrest⟩ := List.forall_mem_cons.1 he
    have hspares := hfirst.spares h ha
    exact hspares.trans (ih hspares.connected hrest)

/-- Changes that are aimed at none but some names leave all other files as they were. -/
theorem World.Leads.spares {aims : List String → Prop} {x y : World}
    (h : x.Leads (fun d e => e.IsAimed aims d) y) (hx : x.disk.IsConnected) :
    x.disk.Spares aims y.disk := by
  obtain ⟨es, -, hreplay, haimed⟩ := h
  exact hreplay.spares hx haimed

end FlowPipeline
