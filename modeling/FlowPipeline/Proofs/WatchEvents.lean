import FlowPipeline.Proofs.DiskEntries
import FlowPipeline.Watch
import Mathlib.Data.List.Forall2

/-! # Events from reports

A watcher reports changes of paths below the project. Those that are accepted are of scripts and of
the manifest at the top level, and each of these paths gives one event, whose kind tells whether
there is still something.
-/

namespace FlowPipeline

/-- The path of names below a directory. -/
def Path.below (p : Path) (ns : List String) : Path := ⟨p.slashes, p.names ++ ns⟩

namespace Watch

/-- What a watcher of a directory reports when the file system has changed. -/
structure Reports (root : Path) (d d' : Disk) (changes : List (Change × Path)) : Prop where
  below : ∀ c ∈ changes, ∃ ns, (∀ n ∈ ns, Path.IsName n) ∧ c.2 = root.below ns
  /-- No script and no manifest at the top level has changed without being reported. -/
  complete : ∀ n, Path.IsName n → (isManifest (root.child n) || isScript (root.child n)) = true →
    d'.entryAt? (root.child n) ≠ d.entryAt? (root.child n) → root.child n ∈ changes.map Prod.snd

theorem accepts_child (d : Disk) {root : Path} {n : String}
    (h : (isManifest (root.child n) || isScript (root.child n)) = true) :
    accepts d root (root.child n) = true := by
  rw [accepts, Path.parent_child, h]
  simp

theorem child_of_accepts {d : Disk} {root : Path} (hroot : root.IsPlain) {ns : List String}
    (hns : ∀ n ∈ ns, Path.IsName n) (h : accepts d root (root.below ns) = true) :
    ∃ n, Path.IsName n ∧ root.below ns = root.child n ∧
      (isManifest (root.child n) || isScript (root.child n)) = true := by
  simp only [accepts, Bool.and_eq_true, beq_iff_eq] at h
  obtain ⟨hres, hkind⟩ := h
  have hplain : (root.below ns).IsPlain := by
    refine ⟨hroot.absolute, ?_⟩
    simp only [Path.below, List.mem_append, not_or]
    exact ⟨hroot.noParent, fun hm => (hns _ hm).ne_parent rfl⟩
  rw [d.resolve_of_isPlain hplain.parent, d.resolve_of_isPlain hroot] at hres
  have hnames : (root.names ++ ns).dropLast = root.names := (Path.mk.inj hres).2
  have hlen := congrArg List.length hnames
  simp only [List.length_dropLast, List.length_append] at hlen
  rcases ns with _ | ⟨n, _ | ⟨m, ns⟩⟩
  · have hnil : root.names = [] := List.eq_nil_of_length_eq_zero (by simp at hlen; omega)
    have hname : (root.below []).name = "" := by simp [Path.below, Path.name, hnil]
    rw [isManifest, isScript, Path.suffix, hname] at hkind
    exact absurd hkind (by decide)
  · exact ⟨n, hns n (by simp), rfl, hkind⟩
  · simp at hlen

/-- The paths of a report that are acted upon. -/
theorem Reports.child {root : Path} (hroot : root.IsPlain) {d d' : Disk}
    {changes : List (Change × Path)} (h : Reports root d d' changes) {p : Path}
    (hp : p ∈ (changes.filter fun c => accepts d' root c.2).map Prod.snd) :
    ∃ n, Path.IsName n ∧ p = root.child n ∧
      (isManifest (root.child n) || isScript (root.child n)) = true := by
  obtain ⟨c, hc, rfl⟩ := List.mem_map.1 hp
  obtain ⟨hmem, hacc⟩ := List.mem_filter.1 hc
  obtain ⟨ns, hns, hpath⟩ := h.below c hmem
  rw [hpath] at hacc ⊢
  exact child_of_accepts hroot hns hacc

/-! ## One event for each path -/

theorem kindOf_eq_ok {d : Disk} {p : Path} {changes : List Change} {k : EventKind}
    (h : kindOf d p changes = .ok k) : k = .removed ↔ d.entryAt? p = none := by
  obtain ⟨b, hb, h⟩ := Except.eq_ok_of_bind h
  have hsome := Disk.has_eq_ok_iff hb
  cases b with
  | false =>
    cases h
    simpa using hsome.symm
  | true =>
    have hne : k ≠ .removed := by
      simp only [Bool.not_true, Bool.false_eq_true, if_false] at h
      split_ifs at h <;> cases h <;> simp
    have : d.entryAt? p ≠ none := fun hn => by simp [hn] at hsome
    simp [hne, this]

theorem forall₂_of_mapM {ε α β : Type} {f : α → Except ε β} {as : List α} {bs : List β}
    (h : as.mapM f = .ok bs) : List.Forall₂ (fun a b => f a = .ok b) as bs := by
  induction as generalizing bs with
  | nil =>
    cases h
    exact .nil
  | cons a as ih =>
    rw [List.mapM_cons] at h
    obtain ⟨b, hb, h⟩ := Except.eq_ok_of_bind h
    obtain ⟨bs', hbs, h⟩ := Except.eq_ok_of_bind h
    cases h
    exact .cons hb (ih hbs)

theorem nodup_eraseDups {α : Type} [BEq α] [LawfulBEq α] (as : List α) : as.eraseDups.Nodup := by
  generalize hn : as.length = n
  induction n using Nat.strongRecOn generalizing as with
  | ind n ih =>
    cases as with
    | nil => simp
    | cons a as =>
      rw [List.eraseDups_cons, List.nodup_cons]
      refine ⟨by simp [List.mem_eraseDups], ih _ ?_ _ rfl⟩
      have := List.length_filter_le (fun b => !b == a) as
      simp only [List.length_cons] at hn
      omega

/-- Events are for the paths that have changed, one for each. -/
theorem events_eq_ok {d : Disk} {changes : List (Change × Path)} {es : List Event}
    (h : events d changes = .ok es) :
    (es.map Event.path).Perm (changes.map Prod.snd).eraseDups ∧
      ∀ e ∈ es, e.kind = .removed ↔ d.entryAt? e.path = none := by
  obtain ⟨fs, hfs, h⟩ := Except.eq_ok_of_bind h
  cases h
  have hall : List.Forall₂ (fun p e => e.path = p ∧ (e.kind = .removed ↔ d.entryAt? p = none))
      (changes.map Prod.snd).eraseDups fs := by
    refine (forall₂_of_mapM hfs).imp fun p e he => ?_
    obtain ⟨k, hk, he⟩ := Except.eq_ok_of_bind he
    cases he
    exact ⟨rfl, kindOf_eq_ok hk⟩
  generalize (changes.map Prod.snd).eraseDups = ps at hall
  have hpaths : fs.map Event.path = ps ∧
      ∀ e ∈ fs, e.kind = .removed ↔ d.entryAt? e.path = none := by
    clear hfs h
    induction hall with
    | nil => simp
    | cons he _ ih =>
      obtain ⟨rfl, hkind⟩ := he
      exact ⟨by rw [List.map_cons, ih.1], List.forall_mem_cons.2 ⟨hkind, ih.2⟩⟩
  refine ⟨?_, fun e he => hpaths.2 e (List.mem_mergeSort.1 he)⟩
  rw [← hpaths.1]
  exact (List.mergeSort_perm fs Event.le).map _

theorem nodup_paths {d : Disk} {changes : List (Change × Path)} {es : List Event}
    (h : events d changes = .ok es) : (es.map Event.path).Nodup :=
  (events_eq_ok h).1.nodup_iff.2 (nodup_eraseDups _)

theorem mem_paths_iff {d : Disk} {changes : List (Change × Path)} {es : List Event}
    (h : events d changes = .ok es) (p : Path) :
    p ∈ es.map Event.path ↔ p ∈ changes.map Prod.snd := by
  rw [(events_eq_ok h).1.mem_iff, List.mem_eraseDups]

end Watch
end FlowPipeline
