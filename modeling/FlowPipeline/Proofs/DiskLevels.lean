import FlowPipeline.Proofs.DiskFrames

/-! # File systems with the same directories

A file that is written where no directory stands leaves all directories as they are. Every path then
leads where it led, even one with `..`, and a text changes only if it is what is written. Of the
files that are written one after another, the last one of each name counts, so that it makes no
difference to write them all again, or to write files of different names in another order.
-/

namespace FlowPipeline.Disk

/-- Two file systems have the same directories, and the same entries but for those of some names. -/
structure Level (aims : List String → Prop) (d d' : Disk) : Prop where
  here : d'.here = d.here
  dirs : ∀ ns, d'.find? ns = some .dir ↔ d.find? ns = some .dir
  rest : ∀ ns, ¬aims ns → d'.find? ns = d.find? ns

/-- The names of the file that can be written at a path. -/
def target? (d : Disk) (p : Path) : Option (List String) :=
  match d.locate p with
  | .ok ns => if d.find? ns = some .dir then none else some ns
  | .error _ => none

section

variable {d : Disk} {p : Path} {ns : List String}

theorem target?_eq_some_iff :
    d.target? p = some ns ↔ d.locate p = .ok ns ∧ d.find? ns ≠ some .dir := by
  unfold target?
  rcases hl : d.locate p with f | ms
  · simp
  · by_cases hdir : d.find? ms = some .dir
    · simp only [hdir, if_true, Except.ok.injEq]
      refine iff_of_false nofun ?_
      rintro ⟨rfl, hnot⟩
      exact hnot hdir
    · simp only [hdir, if_false, Option.some.injEq, Except.ok.injEq]
      exact ⟨fun h => ⟨h, h ▸ hdir⟩, fun h => h.1⟩

theorem write_of_target? (h : d.target? p = some ns) (bytes : List UInt8) :
    d.write p bytes = .ok (d.set ns (.file bytes)) := by
  obtain ⟨hl, hdir⟩ := target?_eq_some_iff.1 h
  simp only [write, hl]

theorem write_of_target?_eq_none (h : d.target? p = none) (bytes : List UInt8) :
    ∃ f, d.write p bytes = .error f := by
  unfold target? at h
  rcases hl : d.locate p with f | ms
  · exact ⟨⟨f, p.toText⟩, by simp only [write, hl]⟩
  · simp only [hl] at h
    split_ifs at h with hdir
    exact ⟨⟨.isDirectory, p.toText⟩, by simp only [write, hl, hdir]⟩

theorem ne_nil_of_not_dir (h : d.find? ns ≠ some .dir) : ns ≠ [] := fun hnil => h (hnil ▸ rfl)

end

namespace Level

variable {aims aims' : List String → Prop} {d d' d'' : Disk} {p : Path} {ns : List String}

theorem refl (aims : List String → Prop) (d : Disk) : Level aims d d :=
  ⟨rfl, fun _ => Iff.rfl, fun _ _ => rfl⟩

theorem mono (h : Level aims d d') (haims : ∀ ns, aims ns → aims' ns) : Level aims' d d' :=
  ⟨h.here, h.dirs, fun ns hns => h.rest ns (mt (haims ns) hns)⟩

theorem keepsDirs (h : Level aims d d') : KeepsDirs d d' := ⟨h.here, fun ns => (h.dirs ns).2⟩

theorem symm (h : Level aims d d') : Level aims d' d :=
  ⟨h.here.symm, fun ns => (h.dirs ns).symm, fun ns hns => (h.rest ns hns).symm⟩

/-- A file is written where no directory stands. -/
theorem set (h : Level aims d d') (hdir : d.find? ns ≠ some .dir) (hns : aims ns)
    (bytes : List UInt8) : Level aims d (d'.set ns (.file bytes)) := by
  have hne := ne_nil_of_not_dir hdir
  refine ⟨h.here, fun ms => ?_, fun ms hms => ?_⟩
  · rw [find?_set hne]
    split_ifs with heq
    · rw [heq]
      exact iff_of_false nofun hdir
    · exact h.dirs ms
  · rw [find?_set hne, if_neg]
    · exact h.rest ms hms
    · rintro rfl
      exact hms hns

theorem locate_eq_ok_iff (h : Level aims d d') (p : Path) (ns : List String) :
    d'.locate p = .ok ns ↔ d.locate p = .ok ns :=
  ⟨h.symm.keepsDirs.locate, h.keepsDirs.locate⟩

theorem target? (h : Level aims d d') (p : Path) : d'.target? p = d.target? p := by
  refine Option.ext fun ns => ?_
  rw [target?_eq_some_iff, target?_eq_some_iff, h.locate_eq_ok_iff, ne_eq, h.dirs]

theorem entryAt?_dir_iff (h : Level aims d d') (p : Path) :
    d'.entryAt? p = some .dir ↔ d.entryAt? p = some .dir := by
  simp only [entryAt?_eq_some_iff, h.locate_eq_ok_iff, h.dirs]

/-- What stands at a path that leads to none of the names is the same. -/
theorem entryAt? (h : Level aims d d') (hp : ∀ ns, d.locate p = .ok ns → ¬aims ns) :
    d'.entryAt? p = d.entryAt? p := by
  refine Option.ext fun e => ?_
  rw [entryAt?_eq_some_iff, entryAt?_eq_some_iff]
  refine exists_congr fun ns => ?_
  rw [h.locate_eq_ok_iff]
  refine and_congr_right fun hl => ?_
  rw [h.rest ns (hp ns hl)]

theorem text? (h : Level aims d d') (hp : ∀ ns, d.locate p = .ok ns → ¬aims ns) :
    d'.text? p = d.text? p :=
  text?_congr (h.entryAt? hp)

end Level

/-! ## Files written one after another -/

/-- The file system after files have been written, each at its names. -/
def stored (d : Disk) (ws : List (List String × List UInt8)) : Disk :=
  ws.foldl (fun d w => d.set w.1 (.file w.2)) d

theorem stored_append (d : Disk) (ws ws' : List (List String × List UInt8)) :
    d.stored (ws ++ ws') = (d.stored ws).stored ws' :=
  List.foldl_append

/-- The last file of the names counts. -/
theorem find?_stored {ws : List (List String × List UInt8)} (hws : ∀ w ∈ ws, w.1 ≠ []) (d : Disk)
    (ns : List String) :
    (d.stored ws).find? ns = ((ws.reverse.lookup ns).map Entry.file).or (d.find? ns) := by
  induction ws using List.reverseRecOn with
  | nil => rfl
  | append_singleton ws w ih =>
    have hlast : w.1 ≠ [] := hws w (by simp)
    have hset : d.stored (ws ++ [w]) = (d.stored ws).set w.1 (.file w.2) := stored_append d ws [w]
    rw [hset, find?_set hlast, ih fun v hv => hws v (by simp [hv]), List.reverse_append,
      List.reverse_singleton, List.singleton_append]
    by_cases heq : ns = w.1
    · have hb : (ns == w.1) = true := by simpa using heq
      rw [if_pos heq, List.lookup_cons, hb]
      rfl
    · have hb : (ns == w.1) = false := by simpa using heq
      rw [if_neg heq, List.lookup_cons, hb]

theorem mem_of_lookup {α β : Type} [BEq α] [LawfulBEq α] {l : List (α × β)} {a : α} {v : β}
    (h : l.lookup a = some v) : (a, v) ∈ l := by
  induction l with
  | nil => cases h
  | cons w l ih =>
    obtain ⟨k, v'⟩ := w
    by_cases hk : a = k
    · subst hk
      simp only [List.lookup_cons, BEq.rfl, Option.some.injEq] at h
      simp [h]
    · have hb : (a == k) = false := by simpa using hk
      simp only [List.lookup_cons, hb] at h
      exact List.mem_cons_of_mem _ (ih h)

theorem find?_stored_cases {ws : List (List String × List UInt8)} (hws : ∀ w ∈ ws, w.1 ≠ [])
    (d : Disk) (ns : List String) : (d.stored ws).find? ns = d.find? ns ∨
      ∃ w ∈ ws, w.1 = ns ∧ (d.stored ws).find? ns = some (.file w.2) := by
  rw [find?_stored hws]
  rcases hl : ws.reverse.lookup ns with _ | bytes
  · exact .inl rfl
  · exact .inr ⟨(ns, bytes), List.mem_reverse.1 (mem_of_lookup hl), rfl, rfl⟩

theorem Level.stored {aims : List String → Prop} {d d' : Disk} (h : Level aims d d')
    {ws : List (List String × List UInt8)}
    (hws : ∀ w ∈ ws, d.find? w.1 ≠ some .dir ∧ aims w.1) : Level aims d (d'.stored ws) := by
  induction ws generalizing d' with
  | nil => exact h
  | cons w ws ih =>
    obtain ⟨⟨hdir, hw⟩, hws⟩ := List.forall_mem_cons.1 hws
    exact ih (h.set hdir hw w.2) hws

/-- Two file systems have the same entries. -/
structure Alike (d d' : Disk) : Prop where
  here : d'.here = d.here
  find? : ∀ ns, d'.find? ns = d.find? ns

namespace Alike

variable {d d' d'' : Disk}

theorem refl (d : Disk) : Alike d d := ⟨rfl, fun _ => rfl⟩

theorem symm (h : Alike d d') : Alike d' d := ⟨h.here.symm, fun ns => (h.find? ns).symm⟩

theorem trans (h : Alike d d') (h' : Alike d' d'') : Alike d d'' :=
  ⟨h'.here.trans h.here, fun ns => (h'.find? ns).trans (h.find? ns)⟩

end Alike

section

variable {ws ws' : List (List String × List UInt8)}

@[simp] theorem here_stored (d : Disk) (ws : List (List String × List UInt8)) :
    (d.stored ws).here = d.here := by
  induction ws generalizing d with
  | nil => rfl
  | cons w ws ih => exact (ih (d.set w.1 (.file w.2))).trans rfl

/-- Nothing changes when the same files are written again. -/
theorem stored_stored (hws : ∀ w ∈ ws, w.1 ≠ []) (d : Disk) :
    Alike (d.stored ws) ((d.stored ws).stored ws) := by
  refine ⟨by simp, fun ns => ?_⟩
  rw [find?_stored hws, find?_stored hws]
  cases ws.reverse.lookup ns <;> rfl

theorem lookup_perm {α β : Type} [BEq α] [LawfulBEq α] {l l' : List (α × β)} (h : l.Perm l')
    (hkeys : (l.map Prod.fst).Nodup) (a : α) : l.lookup a = l'.lookup a := by
  induction h with
  | nil => rfl
  | cons x _ ih =>
    rw [List.map_cons, List.nodup_cons] at hkeys
    rw [List.lookup_cons, List.lookup_cons, ih hkeys.2]
  | swap x y l =>
    obtain ⟨k, v⟩ := x
    obtain ⟨k', v'⟩ := y
    have hne : k' ≠ k := by
      rintro rfl
      simp at hkeys
    by_cases hk : a = k
    · have hk' : (a == k') = false := by simpa [hk] using Ne.symm hne
      simp only [List.lookup_cons, hk']
    · have hb : (a == k) = false := by simpa using hk
      simp only [List.lookup_cons, hb]
  | trans h _ ih ih' => exact (ih hkeys).trans (ih' ((h.map Prod.fst).nodup_iff.1 hkeys))

/-- Files of different names can be written in any order. -/
theorem stored_perm (h : ws.Perm ws') (hkeys : (ws.map Prod.fst).Nodup)
    (hws : ∀ w ∈ ws, w.1 ≠ []) (d : Disk) : Alike (d.stored ws) (d.stored ws') := by
  refine ⟨by simp, fun ns => ?_⟩
  have hws' : ∀ w ∈ ws', w.1 ≠ [] := fun w hw => hws w (h.mem_iff.2 hw)
  have hreverse : ws.reverse.Perm ws'.reverse :=
    (List.reverse_perm ws).trans (h.trans (List.reverse_perm ws').symm)
  have hnodup : (ws.reverse.map Prod.fst).Nodup := by
    rw [List.map_reverse, (List.reverse_perm _).nodup_iff]
    exact hkeys
  rw [find?_stored hws, find?_stored hws', lookup_perm hreverse hnodup]

end

/-! ## What a path leads to by its last name -/

/-- A path leads to a directory, or to something of its last name. -/
def LeadsByName (d : Disk) (p : Path) : Prop :=
  ∀ ns, d.locate p = .ok ns → d.find? ns ≠ some .dir → ∃ l m, p.names = l ++ [p.name] ∧
    ns = m ++ [p.name]

theorem name_of_append {p : Path} {l : List String} {n : String} (h : p.names = l ++ [n]) :
    p.name = n := by
  simp [Path.name, h, List.getLastD_eq_getLast?]

theorem locate_nil {d : Disk} {p : Path} {ns : List String} (hhere : d.find? d.here = some .dir)
    (hp : p.names = []) (hl : d.locate p = .ok ns) : d.find? ns = some .dir := by
  unfold locate at hl
  rw [hp] at hl
  split_ifs at hl <;> cases hl
  · rfl
  · exact hhere

/-- Only a path that ends in `..` may lead to a file of another name. -/
theorem leadsByName_of_parent {d : Disk} {p : Path} (hhere : d.find? d.here = some .dir)
    (hp : ∀ l ns, p.names = l ++ [".."] → d.locate p = .ok ns → d.find? ns = some .dir) :
    d.LeadsByName p := by
  intro ns hl hdir
  rcases List.eq_nil_or_concat p.names with hnil | ⟨l, n, hn⟩
  · exact absurd (locate_nil hhere hnil hl) hdir
  · rw [List.concat_eq_append] at hn
    have hne : n ≠ ".." := by
      rintro rfl
      exact hdir (hp l ns hn hl)
    obtain ⟨m, hm⟩ := locate_append_eq_ok hn hne hl
    rw [name_of_append hn]
    exact ⟨l, m, hn, hm⟩

theorem leadsByName_of_noParent {d : Disk} {p : Path} (hhere : d.find? d.here = some .dir)
    (hp : ".." ∉ p.names) : d.LeadsByName p :=
  leadsByName_of_parent hhere fun l _ hn => absurd (by simp [hn]) hp

/-- A walk that ends in `..` comes to a directory. -/
theorem IsConnected.dir_of_walk_parent {d : Disk} (h : d.IsConnected) {dir l ns : List String}
    (hdir : d.find? dir = some .dir) (hw : d.walk dir (l ++ [".."]) = .ok ns) :
    d.find? ns = some .dir := by
  induction l generalizing dir with
  | nil =>
    simp only [List.nil_append, walk, List.isEmpty_nil, if_true, step] at hw
    split_ifs at hw
    cases hw
    exact h.dropLast hdir
  | cons k l ih =>
    have hne : (l ++ [".."]).isEmpty = false := by simp
    simp only [List.cons_append, walk, hne, Bool.false_eq_true, if_false] at hw
    split_ifs at hw
    split at hw
    · cases hw
    · cases hw
    · exact ih ‹_› hw

theorem IsConnected.leadsByName {d : Disk} (h : d.IsConnected)
    (hhere : d.find? d.here = some .dir) (p : Path) : d.LeadsByName p := by
  refine leadsByName_of_parent hhere fun l ns hn hl => ?_
  unfold locate at hl
  rw [hn] at hl
  split_ifs at hl
  · exact h.dir_of_walk_parent rfl hl
  · exact h.dir_of_walk_parent hhere hl

/-! ## Directories that are made -/

theorem find?_of_makeDir_file {d d' : Disk} {p : Path} (h : d.makeDir p = .ok d')
    {ns : List String} {bytes : List UInt8} (hf : d'.find? ns = some (.file bytes)) :
    d.find? ns = some (.file bytes) := by
  obtain ⟨ms, -, hne, -, rfl⟩ := makeDir_eq_ok h
  rw [find?_set hne] at hf
  split_ifs at hf
  · cases hf
  · exact hf

/-- A file that is there when directories have been made was there before. -/
theorem find?_of_makeDirs_file {d d' : Disk} {p : Path} {depth : Nat}
    (h : d.makeDirs p depth = .ok d') {ns : List String} {bytes : List UInt8}
    (hf : d'.find? ns = some (.file bytes)) : d.find? ns = some (.file bytes) := by
  induction depth generalizing d p d' with
  | zero => cases h
  | succ depth ih =>
    rcases makeDirs_cases h with hmade | ⟨e, hparent, hmade⟩ | ⟨-, rfl⟩
    · exact find?_of_makeDir_file hmade hf
    · exact ih (p := p.parent) hparent (find?_of_makeDir_file hmade hf)
    · exact hf

/-- Without `..`, a path leads to a file only along directories that were there before. -/
theorem text?_makeDirs {d d' : Disk} {p q : Path} {depth : Nat} (hd : d.IsConnected)
    (h : d.makeDirs q depth = .ok d') (hp : ".." ∉ p.names) : d'.text? p = d.text? p := by
  have hext := (makeDirs_extends h).1
  refine Option.ext fun s => ⟨fun hs => ?_, hext.text?⟩
  obtain ⟨bytes, t, he, ht, rfl⟩ := text?_eq_some_iff.1 hs
  obtain ⟨ns, hl, hf⟩ := entryAt?_eq_some_iff.1 he
  have hfile := find?_of_makeDirs_file h hf
  refine text?_eq_some_iff.2 ⟨bytes, t, entryAt?_eq_some_iff.2 ⟨ns, ?_, hfile⟩, ht, rfl⟩
  unfold locate at hl ⊢
  rw [hext.here] at hl
  split_ifs at hl ⊢ <;>
  · rw [walk_eq_ok_iff _ _ hp] at hl ⊢
    obtain ⟨rfl, hshort, -⟩ := hl
    refine ⟨rfl, hshort, fun l hprefix _ hne => ?_⟩
    refine hd.dir_of_prefix ((List.prefix_append_right_inj _).2 hprefix) ?_ (by rw [hfile]; rfl)
    exact fun heq => hne (List.append_cancel_left heq)

end FlowPipeline.Disk
