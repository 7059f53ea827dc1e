import FlowPipeline.Disk
import FlowPipeline.Proofs.Results
import FlowPipeline.Text.Newline
import FlowPipeline.Text.Utf8
import Mathlib.Data.List.Induction
import Mathlib.Tactic.Common

/-! # Entries of the file system

What an operation on the file system does to each entry, and which entries decide where a path
leads. A path from the root without `..` leads to its own names, so that what stands at it depends
on the entries of these names and of those in front of them only.
-/

namespace FlowPipeline

/-- Whether a text can name an entry of a directory. -/
structure Path.IsName (n : String) : Prop where
  ne_empty : n ≠ ""
  ne_dot : n ≠ "."
  ne_parent : n ≠ ".."
  noSlash : '/' ∉ n.toList

/-- A path from the root without `..`. -/
structure Path.IsPlain (p : Path) : Prop where
  absolute : p.isAbsolute = true
  noParent : ".." ∉ p.names

theorem Path.IsPlain.child {p : Path} (h : p.IsPlain) {n : String} (hn : n ≠ "..") :
    (p.child n).IsPlain := by
  refine ⟨h.absolute, ?_⟩
  simp only [Path.child, List.mem_append, List.mem_singleton, not_or]
  exact ⟨h.noParent, fun he => hn he.symm⟩

theorem Path.IsPlain.parent {p : Path} (h : p.IsPlain) : p.parent.IsPlain :=
  ⟨h.absolute, fun hm => h.noParent ((List.dropLast_sublist _).subset hm)⟩

@[simp] theorem Path.parent_child (p : Path) (n : String) : (p.child n).parent = p := by
  simp [Path.parent, Path.child]

@[simp] theorem Path.name_child (p : Path) (n : String) : (p.child n).name = n := by
  simp [Path.name, Path.child, List.getLastD_eq_getLast?]

namespace Disk

@[simp] theorem find?_nil (d : Disk) : d.find? [] = some .dir := rfl

theorem find?_of_ne {d : Disk} {ns : List String} (h : ns ≠ []) :
    d.find? ns = d.entries.lookup ns := by
  simp [find?, h]

theorem lookup_cons_of_ne {ns n : List String} (h : ns ≠ n) (e : Entry)
    (es : List (List String × Entry)) : ((n, e) :: es).lookup ns = es.lookup ns := by
  have hb : (ns == n) = false := by simpa using h
  simp only [List.lookup_cons, hb]

theorem lookup_put (names ns : List String) (e : Entry) (es : List (List String × Entry)) :
    (put names e es).lookup ns = if ns = names then some e else es.lookup ns := by
  induction es with
  | nil =>
    by_cases h : ns = names
    · simp [put, h]
    · simp [put, lookup_cons_of_ne h, h]
  | cons f es ih =>
    obtain ⟨n, f⟩ := f
    by_cases hn : n = names
    · subst hn
      by_cases h : ns = n
      · simp [put, h]
      · simp [put, lookup_cons_of_ne h, h]
    · by_cases h : ns = n
      · subst h
        simp [put, hn]
      · simp [put, hn, lookup_cons_of_ne h, ih]

theorem find?_set {d : Disk} {names : List String} (h : names ≠ []) (e : Entry)
    (ns : List String) : (d.set names e).find? ns = if ns = names then some e else d.find? ns := by
  by_cases hs : ns = []
  · subst hs
    simp [Ne.symm h]
  · simp [find?_of_ne hs, set, lookup_put]

theorem lookup_filter (q : List String → Bool) (ns : List String)
    (es : List (List String × Entry)) :
    (es.filter fun e => q e.1).lookup ns = if q ns then es.lookup ns else none := by
  induction es with
  | nil => simp
  | cons f es ih =>
    obtain ⟨n, f⟩ := f
    by_cases h : ns = n
    · subst h
      by_cases hq : q ns <;> simp [hq, ih]
    · rw [lookup_cons_of_ne h]
      cases hq : q n with
      | true => simp only [List.filter_cons, hq, if_true, lookup_cons_of_ne h, ih]
      | false => simp only [List.filter_cons, hq, Bool.false_eq_true, if_false, ih]

theorem find?_erase {d : Disk} {names : List String} (h : names ≠ []) (ns : List String) :
    (d.erase names).find? ns = if names <+: ns then none else d.find? ns := by
  by_cases hs : ns = []
  · subst hs
    simp [h]
  · rw [find?_of_ne hs, find?_of_ne hs]
    show (List.filter _ _).lookup ns = _
    rw [lookup_filter fun n => !names.isPrefixOf n]
    by_cases hp : names <+: ns
    · have : names.isPrefixOf ns = true := List.isPrefixOf_iff_prefix.2 hp
      simp [hp, this]
    · have : names.isPrefixOf ns = false := by
        rw [Bool.eq_false_iff]
        exact fun ht => hp (List.isPrefixOf_iff_prefix.1 ht)
      simp [hp, this]

/-! ## Where plain paths lead -/

/-- Whether the names of a path, and the path itself, are short enough. -/
def Fits (p : Path) : Prop :=
  p.toText.utf8ByteSize ≤ longestPath ∧ ∀ n ∈ p.names, n.utf8ByteSize ≤ longestName

theorem walk_cons_eq_ok_iff (d : Disk) {n : String} {names : List String} (hn : n ≠ "..")
    (hne : names ≠ []) (dir ns : List String) :
    d.walk dir (n :: names) = .ok ns ↔
      n.utf8ByteSize ≤ longestName ∧ d.find? (dir ++ [n]) = some .dir ∧
        d.walk (dir ++ [n]) names = .ok ns := by
  have hemp : names.isEmpty = false := by simpa using hne
  have hstep : step dir n = dir ++ [n] := by simp [step, hn]
  by_cases hlong : longestName < n.utf8ByteSize
  · simp [walk, hlong, Nat.not_le.2 hlong]
  · rw [walk, if_neg hlong, hemp, hstep]
    have hshort : n.utf8ByteSize ≤ longestName := Nat.not_lt.1 hlong
    rcases d.find? (dir ++ [n]) with _ | ⟨_⟩ | ⟨_⟩ <;> simp [hshort]

/-- What holds of all that is in front of a list with a head. -/
theorem forall_inFront_cons_iff {α : Type} {P : List α → Prop} {a : α} {as : List α}
    (hne : as ≠ []) :
    (∀ l, l <+: a :: as → l ≠ [] → l ≠ a :: as → P l) ↔
      P [a] ∧ ∀ l, l <+: as → l ≠ [] → l ≠ as → P (a :: l) := by
  constructor
  · intro h
    refine ⟨h [a] ⟨as, rfl⟩ (by simp) (by simpa using Ne.symm hne), fun l hl _ h2 => ?_⟩
    exact h (a :: l) (List.cons_prefix_cons.2 ⟨rfl, hl⟩) (by simp) (by simpa using h2)
  · rintro ⟨ha, h⟩ l hl h1 h2
    rcases List.prefix_cons_iff.1 hl with rfl | ⟨t, rfl, ht⟩
    · exact absurd rfl h1
    · by_cases hnil : t = []
      · rw [hnil]
        exact ha
      · exact h t ht hnil fun he => h2 (by rw [he])

theorem walk_eq_ok_iff (d : Disk) (names : List String) (hn : ".." ∉ names) (dir ns : List String) :
    d.walk dir names = .ok ns ↔
      ns = dir ++ names ∧ (∀ n ∈ names, n.utf8ByteSize ≤ longestName) ∧
        ∀ l, l <+: names → l ≠ [] → l ≠ names → d.find? (dir ++ l) = some .dir := by
  induction names generalizing dir with
  | nil =>
    simp only [walk, List.append_nil]
    constructor
    · rintro ⟨⟩
      exact ⟨rfl, by simp, fun l hl h => absurd (List.prefix_nil.1 hl) h⟩
    · rintro ⟨rfl, -⟩
      rfl
  | cons n names ih =>
    have hne : n ≠ ".." := fun h => hn (by simp [h])
    have hns : ".." ∉ names := fun h => hn (List.mem_cons_of_mem _ h)
    by_cases hnil : names = []
    · subst hnil
      have hfront (l : List String) (hl : l <+: [n]) (h1 : l ≠ []) : l = [n] := by
        rcases List.prefix_cons_iff.1 hl with rfl | ⟨t, rfl, ht⟩
        · exact absurd rfl h1
        · rw [List.prefix_nil.1 ht]
      by_cases hlong : longestName < n.utf8ByteSize
      · simp [walk, hlong, Nat.not_le.2 hlong]
      · simp only [walk, hlong, if_false, List.isEmpty_nil, if_true, step, if_neg hne]
        constructor
        · rintro ⟨⟩
          exact ⟨rfl, by simpa using hlong, fun l hl h1 h2 => absurd (hfront l hl h1) h2⟩
        · rintro ⟨rfl, -⟩
          rfl
    · rw [walk_cons_eq_ok_iff d hne hnil, ih hns, forall_inFront_cons_iff hnil]
      simp only [List.forall_mem_cons, List.append_assoc, List.singleton_append]
      constructor
      · rintro ⟨hlength, hd, rfl, hs, hp⟩
        exact ⟨rfl, ⟨hlength, hs⟩, hd, hp⟩
      · rintro ⟨rfl, ⟨hlength, hs⟩, hd, hp⟩
        exact ⟨hlength, hd, rfl, hs, hp⟩

/-- A plain path leads to its names if it is short enough and all in front of them are
directories. -/
theorem locate_eq_ok_iff {d : Disk} {p : Path} (hp : p.IsPlain) (ns : List String) :
    d.locate p = .ok ns ↔ ns = p.names ∧ Fits p ∧
      ∀ l, l <+: p.names → l ≠ p.names → d.find? l = some .dir := by
  rw [locate, hp.absolute]
  by_cases hlong : longestPath < p.toText.utf8ByteSize
  · simp only [hlong, if_true, Fits]
    constructor
    · intro h
      cases h
    · rintro ⟨-, ⟨h, -⟩, -⟩
      omega
  · simp only [hlong, if_false, if_true, walk_eq_ok_iff d p.names hp.noParent, Fits,
      List.nil_append]
    constructor
    · rintro ⟨rfl, hs, h⟩
      refine ⟨rfl, ⟨by omega, hs⟩, fun l hl hne => ?_⟩
      by_cases hnil : l = []
      · subst hnil
        rfl
      · exact h l hl hnil hne
    · rintro ⟨rfl, ⟨-, hs⟩, h⟩
      exact ⟨rfl, hs, fun l hl _ hne => h l hl hne⟩

/-- A path leads to something of its last name. -/
theorem walk_append_eq_ok {d : Disk} {dir l ns : List String} {n : String} (hn : n ≠ "..")
    (h : d.walk dir (l ++ [n]) = .ok ns) : ∃ m, ns = m ++ [n] := by
  induction l generalizing dir with
  | nil =>
    simp only [List.nil_append, walk, List.isEmpty_nil, if_true] at h
    split_ifs at h
    cases h
    exact ⟨dir, if_neg hn⟩
  | cons k l ih =>
    have hne : (l ++ [n]).isEmpty = false := by simp
    simp only [List.cons_append, walk, hne, Bool.false_eq_true, if_false] at h
    split_ifs at h
    split at h
    · cases h
    · cases h
    · exact ih h

theorem locate_append_eq_ok {d : Disk} {p : Path} {l ns : List String} {n : String}
    (hp : p.names = l ++ [n]) (hn : n ≠ "..") (h : d.locate p = .ok ns) : ∃ m, ns = m ++ [n] := by
  unfold locate at h
  split_ifs at h
  all_goals
    rw [hp] at h
    exact walk_append_eq_ok hn h

/-- A path that has been resolved is plain. -/
theorem isPlain_resolve {d : Disk} (h : ".." ∉ d.here) (p : Path) : (d.resolve p).IsPlain := by
  refine ⟨rfl, ?_⟩
  have hfold (dir ns : List String) (hd : ".." ∉ dir) : ".." ∉ ns.foldl step dir := by
    induction ns generalizing dir with
    | nil => exact hd
    | cons n ns ih =>
      refine ih _ ?_
      rw [step]
      split_ifs with hn
      · exact fun hm => hd ((List.dropLast_sublist _).subset hm)
      · simpa using ⟨hd, Ne.symm hn⟩
  refine hfold _ _ ?_
  split_ifs
  · simp
  · exact h

theorem resolve_of_isPlain (d : Disk) {p : Path} (hp : p.IsPlain) :
    d.resolve p = ⟨1, p.names⟩ := by
  have hfold (dir ns : List String) (h : ".." ∉ ns) : ns.foldl step dir = dir ++ ns := by
    induction ns generalizing dir with
    | nil => simp
    | cons n ns ih =>
      simp only [List.mem_cons, not_or] at h
      rw [List.foldl_cons, ih _ h.2, step, if_neg (Ne.symm h.1)]
      simp
  simp [resolve, hp.absolute, hfold [] p.names hp.noParent]

theorem resolve_child (d : Disk) (p : Path) {n : String} (h : n ≠ "..") :
    (d.resolve (p.child n)).names = (d.resolve p).names ++ [n] := by
  simp [resolve, Path.child, Path.isAbsolute, List.foldl_append, step, h]

/-- What stands at a path. -/
def entryAt? (d : Disk) (p : Path) : Option Entry := (d.entry p).toOption

theorem entryAt?_eq_some_iff {d : Disk} {p : Path} {e : Entry} :
    d.entryAt? p = some e ↔ ∃ ns, d.locate p = .ok ns ∧ d.find? ns = some e := by
  unfold entryAt? entry
  rcases h : d.locate p with f | ns
  · simp [bind, Except.bind, Except.toOption]
  · rcases h' : d.find? ns with _ | e' <;>
      simp [h', bind, Except.bind, Except.toOption, pure, Except.pure, throw, throwThe,
        MonadExceptOf.throw]

theorem entryAt?_eq_some_iff_of_plain {d : Disk} {p : Path} (hp : p.IsPlain) {e : Entry} :
    d.entryAt? p = some e ↔ Fits p ∧
      (∀ l, l <+: p.names → l ≠ p.names → d.find? l = some .dir) ∧ d.find? p.names = some e := by
  rw [entryAt?_eq_some_iff]
  constructor
  · rintro ⟨ns, hl, he⟩
    obtain ⟨rfl, hf, hd⟩ := (locate_eq_ok_iff hp ns).1 hl
    exact ⟨hf, hd, he⟩
  · rintro ⟨hf, hd, he⟩
    exact ⟨p.names, (locate_eq_ok_iff hp _).2 ⟨rfl, hf, hd⟩, he⟩

theorem entry_eq_ok_iff {d : Disk} {p : Path} {e : Entry} :
    d.entry p = .ok e ↔ d.entryAt? p = some e := by
  unfold entryAt?
  cases d.entry p <;> simp [Except.toOption]

theorem read_eq_ok_iff {d : Disk} {p : Path} {bytes : List UInt8} :
    d.read p = .ok bytes ↔ d.entryAt? p = some (.file bytes) := by
  rw [← entry_eq_ok_iff, read]
  rcases h : d.entry p with f | ⟨_⟩ | ⟨_⟩ <;> simp

theorem isDir_of_entryAt? {d : Disk} {p : Path} (h : d.entryAt? p = some .dir) :
    d.isDir p = .ok true := by
  simp [isDir, leadsTo, entry_eq_ok_iff.2 h]

theorem entryAt?_of_isDir {d : Disk} {p : Path} (h : d.isDir p = .ok true) :
    d.entryAt? p = some .dir := by
  unfold isDir leadsTo at h
  rcases he : d.entry p with f | e
  · cases f <;> simp [he] at h
  · cases e <;> simp [he] at h
    exact entry_eq_ok_iff.1 he

theorem has_eq_ok_iff {d : Disk} {p : Path} {b : Bool} (h : d.has p = .ok b) :
    b = (d.entryAt? p).isSome := by
  unfold has leadsTo at h
  unfold entryAt?
  rcases he : d.entry p with f | e
  · cases f <;> simp_all [Except.toOption]
  · simp_all [Except.toOption]

/-- The text of a file, with line feeds for all line ends. -/
def text? (d : Disk) (p : Path) : Option String := do
  let bytes ← (d.read p).toOption
  let text ← (Text.Utf8.decode bytes).toOption
  return Text.withUnixLines text

theorem text?_eq_some_iff {d : Disk} {p : Path} {s : String} :
    d.text? p = some s ↔ ∃ bytes t, d.entryAt? p = some (.file bytes) ∧
      Text.Utf8.decode bytes = .ok t ∧ s = Text.withUnixLines t := by
  constructor
  · intro h
    rcases hr : d.read p with f | bytes
    · simp [text?, hr, Except.toOption] at h
    rcases hd : Text.Utf8.decode bytes with f | t
    · simp [text?, hr, hd, Except.toOption] at h
    · simp only [text?, hr, hd, Except.toOption, Option.bind_eq_bind, Option.bind_some,
        Option.pure_def, Option.some.injEq] at h
      exact ⟨bytes, t, read_eq_ok_iff.1 hr, hd, h.symm⟩
  · rintro ⟨bytes, t, he, hd, rfl⟩
    simp [text?, read_eq_ok_iff.2 he, hd, Except.toOption]

/-- What stands at two paths tells whether the texts are the same. -/
theorem text?_congr {d d' : Disk} {p : Path} (h : d'.entryAt? p = d.entryAt? p) :
    d'.text? p = d.text? p := by
  refine Option.ext fun s => ?_
  rw [text?_eq_some_iff, text?_eq_some_iff, h]

theorem entryAt?_of_text? {d : Disk} {p : Path} {s : String} (h : d.text? p = some s) :
    ∃ bytes, d.entryAt? p = some (.file bytes) := by
  obtain ⟨bytes, -, he, -⟩ := text?_eq_some_iff.1 h
  exact ⟨bytes, he⟩

theorem has_of_entryAt? {d : Disk} {p : Path} {e : Entry} (h : d.entryAt? p = some e) :
    d.has p = .ok true := by
  simp [has, leadsTo, entry_eq_ok_iff.2 h]

theorem has_eq_true_iff {d : Disk} {p : Path} :
    d.has p = .ok true ↔ ∃ e, d.entryAt? p = some e := by
  refine ⟨fun h => ?_, fun ⟨e, he⟩ => has_of_entryAt? he⟩
  exact Option.isSome_iff_exists.1 (has_eq_ok_iff h).symm

theorem has_of_text? {d : Disk} {p : Path} {s : String} (h : d.text? p = some s) :
    d.has p = .ok true := by
  obtain ⟨bytes, he⟩ := entryAt?_of_text? h
  exact has_of_entryAt? he

/-! ## Operations -/

/-- Whether a file can be written at a path. -/
def MayWrite (d : Disk) (p : Path) : Prop :=
  ∃ ns, d.locate p = .ok ns ∧ d.find? ns ≠ some .dir

theorem mayWrite_of_file {d : Disk} {p : Path} {bytes : List UInt8}
    (h : d.entryAt? p = some (.file bytes)) : d.MayWrite p := by
  obtain ⟨ns, hl, hf⟩ := entryAt?_eq_some_iff.1 h
  exact ⟨ns, hl, by simp [hf]⟩

theorem MayWrite.write {d : Disk} {p : Path} (h : d.MayWrite p) (bytes : List UInt8) :
    ∃ d', d.write p bytes = .ok d' := by
  obtain ⟨ns, hl, hd⟩ := h
  refine ⟨d.set ns (.file bytes), ?_⟩
  simp only [Disk.write, hl]

theorem write_eq_ok {d d' : Disk} {p : Path} {bytes : List UInt8} (h : d.write p bytes = .ok d') :
    ∃ ns, d.locate p = .ok ns ∧ d.find? ns ≠ some .dir ∧ d' = d.set ns (.file bytes) := by
  unfold Disk.write at h
  rcases hl : d.locate p with f | ns
  · rw [hl] at h
    cases h
  · simp only [hl] at h
    rcases hf : d.find? ns with _ | ⟨_⟩ | ⟨_⟩ <;> rw [hf] at h <;> cases h
    · exact ⟨ns, rfl, by simp [hf], rfl⟩
    · exact ⟨ns, rfl, by simp [hf], rfl⟩

theorem write_eq_ok_iff {d d' : Disk} {p : Path} (hp : p.IsPlain) {bytes : List UInt8} :
    d.write p bytes = .ok d' ↔ d.MayWrite p ∧ d' = d.set p.names (.file bytes) := by
  unfold Disk.write
  rcases hl : d.locate p with f | ns
  · simp [MayWrite, hl]
  · obtain ⟨rfl, -⟩ := (locate_eq_ok_iff hp ns).1 hl
    simp only [MayWrite, hl]
    rcases h : d.find? p.names with _ | ⟨_⟩ | ⟨_⟩ <;> simp [h, eq_comm]

theorem MayWrite.names_ne_nil {d : Disk} {p : Path} (hp : p.IsPlain) (h : d.MayWrite p) :
    p.names ≠ [] := by
  obtain ⟨ns, hl, hd⟩ := h
  obtain ⟨rfl, -⟩ := (locate_eq_ok_iff hp ns).1 hl
  intro hn
  rw [hn] at hd
  exact hd rfl

theorem find?_write {d d' : Disk} {p : Path} (hp : p.IsPlain) {bytes : List UInt8}
    (h : d.write p bytes = .ok d') (ns : List String) :
    d'.find? ns = if ns = p.names then some (.file bytes) else d.find? ns := by
  obtain ⟨hm, rfl⟩ := (write_eq_ok_iff hp).1 h
  exact find?_set (hm.names_ne_nil hp) _ ns

theorem read_write {d d' : Disk} {p : Path} (hp : p.IsPlain) {bytes : List UInt8}
    (h : d.write p bytes = .ok d') : d'.read p = .ok bytes := by
  obtain ⟨⟨ns, hl, -⟩, -⟩ := (write_eq_ok_iff hp).1 h
  obtain ⟨rfl, hf, hdirs⟩ := (locate_eq_ok_iff hp ns).1 hl
  rw [read_eq_ok_iff, entryAt?_eq_some_iff_of_plain hp]
  refine ⟨hf, fun l hl hne => ?_, ?_⟩
  · rw [find?_write hp h, if_neg hne]
    exact hdirs l hl hne
  · rw [find?_write hp h, if_pos rfl]

/-- Only a file is removed. -/
theorem remove_eq_ok {d d' : Disk} {p : Path} (h : d.remove p = .ok d') :
    ∃ ns bytes, d.locate p = .ok ns ∧ ns ≠ [] ∧ d.find? ns = some (.file bytes) ∧
      d' = d.erase ns := by
  unfold remove at h
  rcases hl : d.locate p with f | ns
  · rw [hl] at h
    cases h
  · simp only [hl] at h
    rcases hf : d.find? ns with _ | ⟨_⟩ | ⟨bytes⟩ <;> rw [hf] at h <;> cases h
    refine ⟨ns, bytes, rfl, ?_, hf, rfl⟩
    rintro rfl
    cases hf

theorem remove_eq_ok_iff {d d' : Disk} {p : Path} (hp : p.IsPlain) :
    d.remove p = .ok d' ↔
      (∃ bytes, d.entryAt? p = some (.file bytes)) ∧ d' = d.erase p.names := by
  unfold remove
  rcases hl : d.locate p with f | ns
  · simp [entryAt?_eq_some_iff, hl]
  · obtain ⟨rfl, -⟩ := (locate_eq_ok_iff hp ns).1 hl
    simp only [entryAt?_eq_some_iff, hl]
    rcases h : d.find? p.names with _ | ⟨_⟩ | ⟨_⟩ <;> simp [h, eq_comm]

theorem find?_remove {d d' : Disk} {p : Path} (hp : p.IsPlain) (h : d.remove p = .ok d')
    (ns : List String) : d'.find? ns = if p.names <+: ns then none else d.find? ns := by
  obtain ⟨⟨bytes, hb⟩, rfl⟩ := (remove_eq_ok_iff hp).1 h
  obtain ⟨-, -, hf⟩ := (entryAt?_eq_some_iff_of_plain hp).1 hb
  refine find?_erase (fun hn => ?_) ns
  simp [hn] at hf

/-! ## Making directories -/

/-- The second file system has the directories of the first one. -/
structure KeepsDirs (d d' : Disk) : Prop where
  here : d'.here = d.here
  dirs : ∀ ns, d.find? ns = some .dir → d'.find? ns = some .dir

theorem KeepsDirs.walk {d d' : Disk} (h : KeepsDirs d d') {dir names ns : List String}
    (hw : d.walk dir names = .ok ns) : d'.walk dir names = .ok ns := by
  induction names generalizing dir with
  | nil => exact hw
  | cons n names ih =>
    rw [Disk.walk] at hw ⊢
    split_ifs at hw ⊢
    · exact hw
    · split at hw
      · cases hw
      · cases hw
      · rw [h.dirs _ ‹_›]
        exact ih hw

/-- A path goes on leading where it led. -/
theorem KeepsDirs.locate {d d' : Disk} (h : KeepsDirs d d') {p : Path} {ns : List String}
    (hl : d.locate p = .ok ns) : d'.locate p = .ok ns := by
  rw [Disk.locate] at hl ⊢
  split_ifs at hl ⊢
  · exact h.walk hl
  · rw [h.here]
    exact h.walk hl

/-- The second file system holds all that the first one does. -/
structure Extends (d d' : Disk) : Prop where
  here : d'.here = d.here
  find? : ∀ ns e, d.find? ns = some e → d'.find? ns = some e

theorem Extends.refl (d : Disk) : Extends d d := ⟨rfl, fun _ _ h => h⟩

theorem Extends.trans {d d' d'' : Disk} (h : Extends d d') (h' : Extends d' d'') :
    Extends d d'' :=
  ⟨h'.here.trans h.here, fun ns e he => h'.find? ns e (h.find? ns e he)⟩

theorem Extends.keepsDirs {d d' : Disk} (h : Extends d d') : KeepsDirs d d' :=
  ⟨h.here, fun ns hns => h.find? ns .dir hns⟩

theorem Extends.entryAt? {d d' : Disk} (h : Extends d d') {p : Path} {e : Entry}
    (he : d.entryAt? p = some e) : d'.entryAt? p = some e := by
  obtain ⟨ns, hl, hf⟩ := entryAt?_eq_some_iff.1 he
  exact entryAt?_eq_some_iff.2 ⟨ns, h.keepsDirs.locate hl, h.find? ns e hf⟩

theorem Extends.text? {d d' : Disk} (h : Extends d d') {p : Path} {s : String}
    (hs : d.text? p = some s) : d'.text? p = some s := by
  obtain ⟨bytes, t, he, hd, rfl⟩ := text?_eq_some_iff.1 hs
  exact text?_eq_some_iff.2 ⟨bytes, t, h.entryAt? he, hd, rfl⟩

/-- A directory is made only where there is nothing. -/
theorem makeDir_eq_ok {d d' : Disk} {p : Path} (h : d.makeDir p = .ok d') :
    ∃ ns, d.locate p = .ok ns ∧ ns ≠ [] ∧ d.find? ns = none ∧ d' = d.set ns .dir := by
  unfold makeDir at h
  rcases hl : d.locate p with f | ns
  · rw [hl] at h
    cases h
  · simp only [hl] at h
    rcases hf : d.find? ns with _ | e <;> rw [hf] at h <;> cases h
    refine ⟨ns, rfl, ?_, hf, rfl⟩
    rintro rfl
    cases hf

theorem find?_makeDir {d d' : Disk} {p : Path} (hp : p.IsPlain) (h : d.makeDir p = .ok d') :
    d.find? p.names = none ∧
      ∀ ns, d'.find? ns = if ns = p.names then some .dir else d.find? ns := by
  obtain ⟨ns, hl, hn, hf, rfl⟩ := makeDir_eq_ok h
  obtain ⟨rfl, -⟩ := (locate_eq_ok_iff hp ns).1 hl
  exact ⟨hf, find?_set hn _⟩

theorem makeDir_extends {d d' : Disk} {p : Path} (h : d.makeDir p = .ok d') :
    Extends d d' ∧ d'.entryAt? p = some .dir := by
  obtain ⟨ns, hl, hn, hf, rfl⟩ := makeDir_eq_ok h
  have hx : Extends d (d.set ns .dir) := by
    refine ⟨rfl, fun ms e he => ?_⟩
    rw [find?_set hn, if_neg, he]
    rintro rfl
    rw [hf] at he
    cases he
  refine ⟨hx, entryAt?_eq_some_iff.2 ⟨ns, hx.keepsDirs.locate hl, ?_⟩⟩
  rw [find?_set hn, if_pos rfl]

/-- A directory is made, made after those that it is in, or there already. -/
theorem makeDirs_cases {d d' : Disk} {p : Path} {depth : Nat}
    (h : d.makeDirs p (depth + 1) = .ok d') :
    d.makeDir p = .ok d' ∨
      (∃ e, d.makeDirs p.parent depth = .ok e ∧ e.makeDir p = .ok d') ∨
      d.isDir p = .ok true ∧ d' = d := by
  rw [makeDirs] at h
  split at h
  · cases h
    exact .inl ‹_›
  · split_ifs at h
    · exact .inr (.inl (Except.eq_ok_of_bind h))
    · obtain ⟨there, hdir, h⟩ := Except.eq_ok_of_bind h
      split_ifs at h with hthere
      cases h
      exact .inr (.inr ⟨hthere ▸ hdir, rfl⟩)

theorem makeDirs_extends {d d' : Disk} {p : Path} {depth : Nat}
    (h : d.makeDirs p depth = .ok d') : Extends d d' ∧ d'.entryAt? p = some .dir := by
  induction depth generalizing d p d' with
  | zero => cases h
  | succ depth ih =>
    rcases makeDirs_cases h with hmade | ⟨e, hparent, hmade⟩ | ⟨hdir, rfl⟩
    · exact makeDir_extends hmade
    · obtain ⟨hext, hthere⟩ := makeDir_extends hmade
      exact ⟨(ih hparent).1.trans hext, hthere⟩
    · exact ⟨.refl _, entryAt?_of_isDir hdir⟩

/-- Only the directory and those that it is in are made. -/
theorem find?_makeDirs {d d' : Disk} {p : Path} (hp : p.IsPlain) {depth : Nat}
    (h : d.makeDirs p depth = .ok d') {ns : List String} (hns : ¬ns <+: p.names) :
    d'.find? ns = d.find? ns := by
  induction depth generalizing d p d' with
  | zero => cases h
  | succ depth ih =>
    have hne : ns ≠ p.names := fun he => hns (he ▸ List.prefix_refl _)
    rcases makeDirs_cases h with hmade | ⟨e, hparent, hmade⟩ | ⟨-, rfl⟩
    · rw [(find?_makeDir hp hmade).2, if_neg hne]
    · rw [(find?_makeDir hp hmade).2, if_neg hne]
      exact ih hp.parent hparent fun hpre => hns (hpre.trans (List.dropLast_prefix _))
    · rfl

/-- A directory that is there need not be made. -/
theorem makeDirs_of_entryAt? {d : Disk} {p : Path} (h : d.entryAt? p = some .dir) (depth : Nat) :
    d.makeDirs p (depth + 1) = .ok d := by
  obtain ⟨ns, hl, hf⟩ := entryAt?_eq_some_iff.1 h
  have hm : d.makeDir p = .error ⟨.exists, p.toText⟩ := by simp [makeDir, hl, hf]
  simp [makeDirs, hm, isDir_of_entryAt? h, bind, Except.bind, pure, Except.pure]

/-! ## Frames -/

/-- Two file systems have the same entries, but for that of some names and those below it. -/
def AgreesOff (names : List String) (d d' : Disk) : Prop :=
  ∀ ns, ¬names <+: ns → d'.find? ns = d.find? ns

theorem AgreesOff.refl (names : List String) (d : Disk) : AgreesOff names d d := fun _ _ => rfl

theorem AgreesOff.trans {names : List String} {d d' d'' : Disk} (h : AgreesOff names d d')
    (h' : AgreesOff names d' d'') : AgreesOff names d d'' :=
  fun ns hn => (h' ns hn).trans (h ns hn)

theorem AgreesOff.widen {names names' : List String} {d d' : Disk} (h : AgreesOff names d d')
    (hp : names' <+: names) : AgreesOff names' d d' :=
  fun ns hn => h ns fun hpre => hn (hp.trans hpre)

theorem AgreesOff.of_write {d d' : Disk} {p : Path} (hp : p.IsPlain) {bytes : List UInt8}
    (h : d.write p bytes = .ok d') : AgreesOff p.names d d' := by
  intro ns hn
  rw [find?_write hp h, if_neg]
  rintro rfl
  exact hn (List.prefix_refl _)

theorem AgreesOff.of_remove {d d' : Disk} {p : Path} (hp : p.IsPlain)
    (h : d.remove p = .ok d') : AgreesOff p.names d d' := by
  intro ns hn
  rw [find?_remove hp h, if_neg hn]

/-- Two file systems have the same entries on the way to a path, and at it. -/
def AgreesAlong (p : Path) (d d' : Disk) : Prop := ∀ l, l <+: p.names → d'.find? l = d.find? l

theorem AgreesOff.along {names : List String} {d d' : Disk} {p : Path} (h : AgreesOff names d d')
    (hn : ¬names <+: p.names) : AgreesAlong p d d' :=
  fun l hl => h l fun hpre => hn (hpre.trans hl)

namespace AgreesAlong

variable {d d' : Disk} {p : Path}

theorem locate_eq_ok_iff (h : AgreesAlong p d d') (hp : p.IsPlain) (ns : List String) :
    d'.locate p = .ok ns ↔ d.locate p = .ok ns := by
  rw [Disk.locate_eq_ok_iff hp, Disk.locate_eq_ok_iff hp]
  have hdirs : (∀ l, l <+: p.names → l ≠ p.names → d'.find? l = some .dir) ↔
      ∀ l, l <+: p.names → l ≠ p.names → d.find? l = some .dir := by
    refine forall_congr' fun l => imp_congr_right fun hl => ?_
    rw [h l hl]
  rw [hdirs]

theorem exists_located_iff (h : AgreesAlong p d d') (hp : p.IsPlain) (P : Option Entry → Prop) :
    (∃ ns, d'.locate p = .ok ns ∧ P (d'.find? ns)) ↔ ∃ ns, d.locate p = .ok ns ∧ P (d.find? ns) := by
  refine exists_congr fun ns => ?_
  rw [h.locate_eq_ok_iff hp]
  refine and_congr_right fun hl => ?_
  obtain ⟨rfl, -⟩ := (Disk.locate_eq_ok_iff hp ns).1 hl
  rw [h p.names (List.prefix_refl _)]

theorem entryAt? (h : AgreesAlong p d d') (hp : p.IsPlain) : d'.entryAt? p = d.entryAt? p := by
  refine Option.ext fun e => ?_
  rw [entryAt?_eq_some_iff, entryAt?_eq_some_iff]
  exact h.exists_located_iff hp (· = some e)

theorem mayWrite_iff (h : AgreesAlong p d d') (hp : p.IsPlain) : d'.MayWrite p ↔ d.MayWrite p :=
  h.exists_located_iff hp (· ≠ some .dir)

theorem read_eq_ok_iff (h : AgreesAlong p d d') (hp : p.IsPlain) (bytes : List UInt8) :
    d'.read p = .ok bytes ↔ d.read p = .ok bytes := by
  rw [Disk.read_eq_ok_iff, Disk.read_eq_ok_iff, h.entryAt? hp]

end AgreesAlong

theorem entryAt?_child_of_find? {d : Disk} {p : Path} (hp : p.IsPlain)
    (h : d.entryAt? p = some .dir) {n : String} (hn : n ≠ "..") {e : Entry} (hf : Fits (p.child n))
    (he : d.find? (p.child n).names = some e) : d.entryAt? (p.child n) = some e := by
  obtain ⟨-, hdirs, hd⟩ := (entryAt?_eq_some_iff_of_plain hp).1 h
  refine (entryAt?_eq_some_iff_of_plain (hp.child hn)).2 ⟨hf, fun l hl hne => ?_, he⟩
  rcases List.prefix_concat_iff.1 hl with rfl | hl
  · exact absurd rfl hne
  · by_cases heq : l = p.names
    · rw [heq, hd]
    · exact hdirs l hl heq

/-- What is in a directory is the same if the directory is there on both sides and the entries are
the same. -/
theorem AgreesAlong.child {d d' : Disk} {p : Path} (hp : p.IsPlain) (h : d.entryAt? p = some .dir)
    (h' : d'.entryAt? p = some .dir) {n : String}
    (hn : d'.find? (p.names ++ [n]) = d.find? (p.names ++ [n])) :
    AgreesAlong (p.child n) d d' := by
  intro l hl
  obtain ⟨-, hdirs, hf⟩ := (entryAt?_eq_some_iff_of_plain hp).1 h
  obtain ⟨-, hdirs', hf'⟩ := (entryAt?_eq_some_iff_of_plain hp).1 h'
  rcases List.prefix_concat_iff.1 hl with rfl | hl
  · exact hn
  · by_cases hne : l = p.names
    · rw [hne, hf, hf']
    · rw [hdirs l hl hne, hdirs' l hl hne]

/-! ## File trees -/

/-- The entries are such as a file system has: they are named by names, and each is in a
directory. -/
structure IsTree (d : Disk) : Prop where
  names : ∀ ns, (d.find? ns).isSome → ∀ n ∈ ns, Path.IsName n
  here : ∀ n ∈ d.here, Path.IsName n
  parents : ∀ ns n, (d.find? (ns ++ [n])).isSome → d.find? ns = some .dir

instance (n : String) : Decidable (Path.IsName n) :=
  decidable_of_iff (n ≠ "" ∧ n ≠ "." ∧ n ≠ ".." ∧ '/' ∉ n.toList)
    ⟨fun ⟨h₁, h₂, h₃, h₄⟩ => ⟨h₁, h₂, h₃, h₄⟩,
      fun h => ⟨h.ne_empty, h.ne_dot, h.ne_parent, h.noSlash⟩⟩

theorem isTree_of_entries {d : Disk} (hhere : ∀ n ∈ d.here, Path.IsName n)
    (hentries : ∀ e ∈ d.entries,
      (∀ n ∈ e.1, Path.IsName n) ∧ d.find? e.1.dropLast = some .dir) : d.IsTree := by
  have hmem {ns : List String} (hs : (d.find? ns).isSome) (hne : ns ≠ []) :
      ∃ e ∈ d.entries, e.1 = ns := by
    rw [find?_of_ne hne, List.lookup_isSome_iff] at hs
    obtain ⟨e, he, hk⟩ := hs
    exact ⟨e, he, (by simpa using hk : ns = e.1).symm⟩
  refine ⟨fun ns hs n hn => ?_, hhere, fun ns n hs => ?_⟩
  · obtain ⟨e, he, rfl⟩ := hmem hs (List.ne_nil_of_mem hn)
    exact (hentries e he).1 n hn
  · obtain ⟨e, he, hk⟩ := hmem hs (by simp)
    simpa [hk] using (hentries e he).2

/-- Each entry is in a directory, and the place that open paths start from has no `..`. -/
structure IsConnected (d : Disk) : Prop where
  here : ".." ∉ d.here
  parents : ∀ ns n, (d.find? (ns ++ [n])).isSome → d.find? ns = some .dir

theorem IsTree.isConnected {d : Disk} (h : d.IsTree) : d.IsConnected :=
  ⟨fun hm => (h.here _ hm).ne_parent rfl, h.parents⟩

theorem IsConnected.dir_of_prefix {d : Disk} (h : d.IsConnected) {l ns : List String}
    (hl : l <+: ns) (hne : l ≠ ns) (hs : (d.find? ns).isSome) : d.find? l = some .dir := by
  obtain ⟨t, rfl⟩ := hl
  induction t using List.reverseRecOn with
  | nil => simp at hne
  | append_singleton t n ih =>
    rw [← List.append_assoc] at hs
    have hd := h.parents _ _ hs
    by_cases ht : t = []
    · subst ht
      simpa using hd
    · exact ih (by simpa using ht) (by simp [hd])

/-- In a connected file system a plain path that is short enough leads to the entry of its names. -/
theorem IsConnected.entryAt?_eq_some_iff {d : Disk} (h : d.IsConnected) {p : Path}
    (hp : p.IsPlain) {e : Entry} :
    d.entryAt? p = some e ↔ Fits p ∧ d.find? p.names = some e := by
  rw [entryAt?_eq_some_iff_of_plain hp]
  constructor
  · rintro ⟨hf, -, he⟩
    exact ⟨hf, he⟩
  · rintro ⟨hf, he⟩
    exact ⟨hf, fun l hl hne => h.dir_of_prefix hl hne (by simp [he]), he⟩

/-! ## Listing -/

theorem mem_list_iff {d : Disk} {p : Path} (hp : p.IsPlain) (h : d.entryAt? p = some .dir)
    {n : String} : n ∈ d.list p ↔ (d.find? (p.names ++ [n])).isSome := by
  obtain ⟨ns, hl, hf⟩ := entryAt?_eq_some_iff.1 h
  obtain ⟨rfl, -⟩ := (locate_eq_ok_iff hp ns).1 hl
  rw [find?_of_ne (by simp), List.lookup_isSome_iff]
  simp only [list, hl, hf, if_true, List.mem_mergeSort, List.mem_filterMap]
  constructor
  · rintro ⟨⟨ms, e⟩, hm, hn⟩
    split_ifs at hn with hc
    refine ⟨(ms, e), hm, ?_⟩
    obtain ⟨ls, hls⟩ := List.getLast?_eq_some_iff.1 hn
    have hd : ms.dropLast = p.names := hc.1
    have hms : ms = ls ++ [n] := hls
    rw [hms, List.dropLast_concat] at hd
    simp [hms, hd]
  · rintro ⟨⟨ms, e⟩, hm, he⟩
    have he : p.names ++ [n] = ms := by simpa using he
    refine ⟨(ms, e), hm, ?_⟩
    simp [← he]

end Disk
end FlowPipeline
