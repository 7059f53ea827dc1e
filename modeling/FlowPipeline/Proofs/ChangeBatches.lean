import FlowPipeline.Proofs.PackagedFlows
import FlowPipeline.Proofs.WatchEvents
import Mathlib.Data.List.Nodup

/-! # Batches of changes

What a watcher reports together has no order of its own, and may name a path more than once. It
comes to one event for each path. Which events these are, and in which order they stand, depends on
the reported changes alone, not on how often and in which order they are reported.
-/

namespace FlowPipeline

/-! ## Paths and their texts -/

namespace Path

/-- A path such as a text is read into. -/
structure IsRead (p : Path) : Prop extends p.IsProper where
  slashes : p.slashes ≤ 2
  ne_dot : "." ∉ p.names

theorem isRead_ofString (s : String) : (ofString s).IsRead := by
  refine ⟨isProper_ofString s, ?_, by simp [ofString]⟩
  simp only [ofString]
  split_ifs with h
  · exact h
  · decide

theorem names_filter {ns : List String} (hempty : "" ∉ ns) (hdot : "." ∉ ns) :
    ns.filter (fun n => n != "" && n != ".") = ns := by
  refine List.filter_eq_self.2 fun n hn => ?_
  have hne : n ≠ "" := fun h => hempty (h ▸ hn)
  have hne' : n ≠ "." := fun h => hdot (h ▸ hn)
  simp [hne, hne']

/-- The slashes in front of a text are cut off, one empty name for each. -/
theorem parts_slashes (k : Nat) (cs : List Char) :
    Text.parts '/' (List.replicate k '/' ++ cs) = List.replicate k [] ++ Text.parts '/' cs := by
  induction k with
  | zero => rfl
  | succ k ih => rw [List.replicate_succ, List.cons_append, Text.parts, if_pos rfl, ih]; rfl

theorem takeWhile_slashes (k : Nat) {cs : List Char} (h : cs.head? ≠ some '/') :
    (List.replicate k '/' ++ cs).takeWhile (· == '/') = List.replicate k '/' := by
  have hnone : cs.takeWhile (· == '/') = [] := by
    cases cs with
    | nil => rfl
    | cons c cs =>
      have hc : c ≠ '/' := fun hc => h (congrArg some hc)
      simp [hc]
  rw [List.takeWhile_append_of_pos (by simp), hnone, List.append_nil]

/-- A text of slashes and of names between slashes is read as the path of both. -/
theorem ofString_slashes {k : Nat} (hk : k ≤ 2) {ns : List String} (hempty : "" ∉ ns)
    (hdot : "." ∉ ns) (hslash : ∀ n ∈ ns, '/' ∉ n.toList) :
    ofString (String.ofList (List.replicate k '/' ++ ['/'].intercalate (ns.map String.toList))) =
      ⟨k, ns⟩ := by
  have hhead : (['/'].intercalate (ns.map String.toList)).head? ≠ some '/' := by
    rcases ns with _ | ⟨n, ns⟩
    · simp
    · have hn : n.toList ≠ [] := fun h => hempty (by simp [String.toList_eq_nil_iff.1 h])
      obtain ⟨c, cs, hcs⟩ := List.exists_cons_of_ne_nil hn
      have hc : c ≠ '/' := by
        rintro rfl
        exact hslash n List.mem_cons_self (by simp [hcs])
      cases ns <;> simp [List.intercalate, hcs, hc]
  have hnames : ((Text.parts '/' (List.replicate k '/' ++
      ['/'].intercalate (ns.map String.toList))).map String.ofList).filter
        (fun n => n != "" && n != ".") = ns := by
    have hparts : ((Text.parts '/' (['/'].intercalate (ns.map String.toList))).map
        String.ofList).filter (fun n => n != "" && n != ".") = ns := by
      rcases ns with _ | ⟨n, ns⟩
      · decide
      · rw [Text.parts_intercalate (by simpa using hslash) (by simp), List.map_map]
        simpa using names_filter hempty hdot
    rw [parts_slashes, List.map_append, List.filter_append, hparts]
    simp
  simp only [ofString, String.toList_ofList, takeWhile_slashes k hhead, List.length_replicate,
    hnames, if_pos hk]

/-- A path is read from its text. -/
theorem ofString_toText {p : Path} (h : p.IsRead) : ofString p.toText = p := by
  have hread := ofString_slashes h.slashes h.ne_empty h.ne_dot h.noSlash
  unfold toText
  split_ifs with habsolute hnil
  · rw [Text.joined, ← String.ofList_append]
    exact hread
  · have hslashes : p.slashes = 0 := by simpa [isAbsolute] using habsolute
    have hdot : ofString "." = ⟨p.slashes, p.names⟩ := by
      rw [hslashes, List.isEmpty_iff.1 hnil]
      decide
    exact hdot
  · have hslashes : p.slashes = 0 := by simpa [isAbsolute] using habsolute
    rw [hslashes] at hread
    rw [Text.joined]
    exact hread.trans (by rw [← hslashes])

theorem toText_injective {p q : Path} (hp : p.IsRead) (hq : q.IsRead)
    (h : p.toText = q.toText) : p = q := by
  rw [← ofString_toText hp, h, ofString_toText hq]

end Path

namespace Watch

variable {d : Disk} {changes changes' : List (Change × Path)} {es es' : List Event}

/-! ## What has become of a path -/

/-- What the changes of a path come to if it can be looked up. -/
def kindBy (d : Disk) (changes : List (Change × Path)) (p : Path) : EventKind :=
  if d.entryAt? p = none then .removed
  else if ∀ c ∈ changes, c.2 = p → c.1 = .added then .added
  else .changed

theorem kindBy_eq_removed_iff {p : Path} :
    kindBy d changes p = .removed ↔ d.entryAt? p = none := by
  unfold kindBy
  split_ifs with hnone hall <;> simp [hnone]

theorem kindBy_eq_added_iff {p : Path} : kindBy d changes p = .added ↔
    d.entryAt? p ≠ none ∧ ∀ c ∈ changes, c.2 = p → c.1 = .added := by
  unfold kindBy
  split_ifs with hnone hall
  · exact ⟨nofun, fun h => absurd hnone h.1⟩
  · exact ⟨fun _ => ⟨hnone, hall⟩, fun _ => rfl⟩
  · exact ⟨nofun, fun h => absurd h.2 hall⟩

theorem kindBy_eq_changed_iff {p : Path} : kindBy d changes p = .changed ↔
    d.entryAt? p ≠ none ∧ ∃ c ∈ changes, c.2 = p ∧ c.1 ≠ .added := by
  unfold kindBy
  split_ifs with hnone hall
  · exact ⟨nofun, fun h => absurd hnone h.1⟩
  · exact ⟨nofun, fun ⟨_, c, hc, hp, hne⟩ => absurd (hall c hc hp) hne⟩
  · exact ⟨fun _ => ⟨hnone, by simpa only [not_forall, exists_prop] using hall⟩, fun _ => rfl⟩

/-- The event of a path that can be looked up. -/
def eventBy (d : Disk) (changes : List (Change × Path)) (p : Path) : Event :=
  ⟨kindBy d changes p, p⟩

/-- The event of a path, if it can be looked up. -/
def event? (d : Disk) (changes : List (Change × Path)) (p : Path) : Except FileError Event :=
  (fun k => ⟨k, p⟩) <$> kindOf d p ((changes.filter fun c => c.2 == p).map Prod.fst)

theorem events_def (d : Disk) (changes : List (Change × Path)) : events d changes =
    (·.mergeSort Event.le) <$> (changes.map Prod.snd).eraseDups.mapM (event? d changes) := rfl

theorem event?_eq {p : Path} (h : ¬d.IsTooLong p) (changes : List (Change × Path)) :
    event? d changes p = .ok (eventBy d changes p) := by
  have hadded : ((changes.filter fun c => c.2 == p).map Prod.fst).all (· == .added) =
      decide (∀ c ∈ changes, c.2 = p → c.1 = .added) := by
    rw [Bool.eq_iff_iff]
    simp [imp_iff_not_or]
  unfold event? kindOf
  rw [Disk.has_of_not_isTooLong h, hadded]
  unfold eventBy kindBy
  rcases d.entryAt? p with _ | e
  · rfl
  · simp only [Option.isSome_some, reduceCtorEq, if_false, decide_eq_true_eq]
    rfl

theorem event?_eq_error {p : Path} (h : d.IsTooLong p) (changes : List (Change × Path)) :
    event? d changes p = .error ⟨.nameTooLong, p.toText⟩ := by
  unfold event? kindOf
  rw [Disk.has_of_isTooLong h]
  rfl

theorem mapM_eq_ok {ε α β : Type} {f : α → Except ε β} {g : α → β} {as : List α}
    (h : ∀ a ∈ as, f a = .ok (g a)) : as.mapM f = .ok (as.map g) := by
  induction as with
  | nil => rfl
  | cons a as ih =>
    obtain ⟨ha, has⟩ := List.forall_mem_cons.1 h
    rw [List.mapM_cons, ha, ih has]
    rfl

theorem mapM_eq_error {ε α β : Type} {f : α → Except ε β} {a : α} {as : List α} (ha : a ∈ as)
    {e : ε} (h : f a = .error e) : ∃ b ∈ as, ∃ e, f b = .error e ∧ as.mapM f = .error e := by
  induction as with
  | nil => cases ha
  | cons b as ih =>
    rcases hb : f b with e' | b'
    · exact ⟨b, List.mem_cons_self, e', hb, by rw [List.mapM_cons, hb]; rfl⟩
    · rcases List.mem_cons.1 ha with rfl | ha
      · rw [h] at hb
        cases hb
      · obtain ⟨c, hc, e', he, hall⟩ := ih ha
        exact ⟨c, List.mem_cons_of_mem _ hc, e', he, by rw [List.mapM_cons, hb, hall]; rfl⟩

/-- Where all paths can be looked up, each one that has changed has its event. -/
theorem events_eq (h : ∀ c ∈ changes, ¬d.IsTooLong c.2) : events d changes =
    .ok (((changes.map Prod.snd).eraseDups.map (eventBy d changes)).mergeSort Event.le) := by
  rw [events_def, mapM_eq_ok (g := eventBy d changes)]
  · rfl
  · intro p hp
    obtain ⟨c, hc, rfl⟩ := List.mem_map.1 (List.mem_eraseDups.1 hp)
    exact event?_eq (h c hc) changes

/-- A path that cannot be looked up keeps all events back. -/
theorem events_eq_error (h : ∃ c ∈ changes, d.IsTooLong c.2) : ∃ c ∈ changes,
    d.IsTooLong c.2 ∧ events d changes = .error ⟨.nameTooLong, c.2.toText⟩ := by
  obtain ⟨c, hc, hlong⟩ := h
  have hmem : c.2 ∈ (changes.map Prod.snd).eraseDups :=
    List.mem_eraseDups.2 (List.mem_map_of_mem hc)
  obtain ⟨p, hp, e, he, hall⟩ := mapM_eq_error hmem (event?_eq_error hlong changes)
  obtain ⟨c', hc', rfl⟩ := List.mem_map.1 (List.mem_eraseDups.1 hp)
  by_cases hlong' : d.IsTooLong c'.2
  · rw [event?_eq_error hlong'] at he
    obtain rfl := Except.error.inj he
    exact ⟨c', hc', hlong', by rw [events_def, hall]; rfl⟩
  · rw [event?_eq hlong'] at he
    cases he

/-! ## The order of events -/

/-- Scripts come before manifests, and each kind is in the order of the texts of its paths. -/
def Event.Before (a b : Event) : Prop :=
  (isManifest a.path = false ∧ isManifest b.path = true) ∨
    (isManifest a.path = isManifest b.path ∧ a.path.toText < b.path.toText)

theorem Event.Before.asymm {a b : Event} (h : a.Before b) : ¬b.Before a := by
  rintro (⟨hb, ha⟩ | ⟨hkind, htext⟩)
  · rcases h with ⟨ha', hb'⟩ | ⟨hkind, -⟩
    · simp [ha] at ha'
    · simp [ha, hb] at hkind
  · rcases h with ⟨ha, hb⟩ | ⟨-, htext'⟩
    · simp [ha, hb] at hkind
    · exact String.lt_asymm htext htext'

theorem Event.le_iff {a b : Event} : a.le b = true ↔
    (isManifest a.path = false ∧ isManifest b.path = true) ∨
      (isManifest a.path = isManifest b.path ∧ a.path.toText ≤ b.path.toText) := by
  rcases ha : isManifest a.path <;> rcases hb : isManifest b.path <;> simp [Event.le, ha, hb]

theorem Event.le_trans (a b c : Event) (hab : a.le b = true) (hbc : b.le c = true) :
    a.le c = true := by
  rw [Event.le_iff] at *
  rcases hab with ⟨ha, hb⟩ | ⟨hab, htext⟩ <;> rcases hbc with ⟨hb', hc⟩ | ⟨hbc, htext'⟩
  · exact .inl ⟨ha, hc⟩
  · exact .inl ⟨ha, hbc ▸ hb⟩
  · exact .inl ⟨hab ▸ hb', hc⟩
  · exact .inr ⟨hab.trans hbc, String.le_trans htext htext'⟩

theorem Event.le_total (a b : Event) : (a.le b || b.le a) = true := by
  rw [Bool.or_eq_true, Event.le_iff, Event.le_iff]
  rcases String.le_total a.path.toText b.path.toText with htext | htext <;>
    cases isManifest a.path <;> cases isManifest b.path <;> simp [htext]

/-- What changes come to: one event for each of their paths, in order. -/
structure Reduces (d : Disk) (changes : List (Change × Path)) (es : List Event) : Prop where
  distinct : (es.map Event.path).Nodup
  paths : ∀ p, p ∈ es.map Event.path ↔ p ∈ changes.map Prod.snd
  removed : ∀ e ∈ es, e.kind = .removed ↔ d.entryAt? e.path = none
  added : ∀ e ∈ es, e.kind = .added ↔
    d.entryAt? e.path ≠ none ∧ ∀ c ∈ changes, c.2 = e.path → c.1 = .added
  changed : ∀ e ∈ es, e.kind = .changed ↔
    d.entryAt? e.path ≠ none ∧ ∃ c ∈ changes, c.2 = e.path ∧ c.1 ≠ .added
  ordered : es.Pairwise Event.Before

theorem reduces_eventsBy (hread : ∀ c ∈ changes, c.2.IsRead) : Reduces d changes
    (((changes.map Prod.snd).eraseDups.map (eventBy d changes)).mergeSort Event.le) := by
  set es := (changes.map Prod.snd).eraseDups.map (eventBy d changes) with hes
  have hpaths : es.map Event.path = (changes.map Prod.snd).eraseDups := by
    rw [hes, List.map_map]
    exact List.map_id' _
  have hperm : ((es.mergeSort Event.le).map Event.path).Perm (changes.map Prod.snd).eraseDups := by
    rw [← hpaths]
    exact (List.mergeSort_perm es Event.le).map _
  have hdistinct : ((es.mergeSort Event.le).map Event.path).Nodup :=
    hperm.nodup_iff.2 (nodup_eraseDups _)
  have hkind : ∀ e ∈ es.mergeSort Event.le, e.kind = kindBy d changes e.path := by
    intro e he
    obtain ⟨p, -, rfl⟩ := List.mem_map.1 (List.mem_mergeSort.1 he)
    rfl
  refine ⟨hdistinct, fun p => ?_, fun e he => ?_, fun e he => ?_, fun e he => ?_, ?_⟩
  · rw [hperm.mem_iff, List.mem_eraseDups]
  · rw [hkind e he, kindBy_eq_removed_iff]
  · rw [hkind e he, kindBy_eq_added_iff]
  · rw [hkind e he, kindBy_eq_changed_iff]
  · have hmem : ∀ e ∈ es.mergeSort Event.le, e.path.IsRead := by
      intro e he
      have hp := hperm.mem_iff.1 (List.mem_map_of_mem he)
      obtain ⟨c, hc, heq⟩ := List.mem_map.1 (List.mem_eraseDups.1 hp)
      exact heq ▸ hread c hc
    have hsorted := List.pairwise_mergeSort Event.le_trans Event.le_total es
    refine (hsorted.and (List.pairwise_map.1 hdistinct)).imp_of_mem ?_
    rintro a b ha hb ⟨hle, hne⟩
    rcases Event.le_iff.1 hle with hkind | ⟨hkind, htext⟩
    · exact .inl hkind
    · refine .inr ⟨hkind, String.not_le.1 fun htext' => hne ?_⟩
      exact Path.toText_injective (hmem a ha) (hmem b hb) (String.le_antisymm htext htext')

/-- The events of a path in two lists are the same. -/
theorem Reduces.mem {e : Event} (h : Reduces d changes es) (h' : Reduces d changes' es')
    (hsame : ∀ c, c ∈ changes' ↔ c ∈ changes) (he : e ∈ es) : e ∈ es' := by
  have hpath : e.path ∈ es'.map Event.path := by
    obtain ⟨c, hc, heq⟩ := List.mem_map.1 ((h.paths e.path).1 (List.mem_map_of_mem he))
    exact (h'.paths e.path).2 (List.mem_map.2 ⟨c, (hsame c).2 hc, heq⟩)
  obtain ⟨e', he', hpath⟩ := List.mem_map.1 hpath
  have hkind : e'.kind = e.kind := by
    rcases hk : e.kind
    · have hadded := (h.added e he).1 hk
      exact (h'.added e' he').2 (hpath ▸ ⟨hadded.1, fun c hc => hadded.2 c ((hsame c).1 hc)⟩)
    · obtain ⟨hthere, c, hc, hchanged⟩ := (h.changed e he).1 hk
      exact (h'.changed e' he').2 (hpath ▸ ⟨hthere, c, (hsame c).2 hc, hchanged⟩)
    · exact (h'.removed e' he').2 (hpath ▸ (h.removed e he).1 hk)
  have heq : e' = e := by
    rcases e with ⟨k, p⟩
    rcases e' with ⟨k', p'⟩
    exact congrArg₂ Event.mk hkind hpath
  exact heq ▸ he'

/-- The changes determine what they come to, however often and in which order they are reported. -/
theorem Reduces.unique (h : Reduces d changes es) (h' : Reduces d changes' es')
    (hsame : ∀ c, c ∈ changes' ↔ c ∈ changes) : es' = es := by
  refine List.Perm.eq_of_pairwise (fun a b _ _ hab hba => absurd hba hab.asymm)
    h'.ordered h.ordered ?_
  refine (List.perm_ext_iff_of_nodup (List.Nodup.of_map Event.path h'.distinct)
    (List.Nodup.of_map Event.path h.distinct)).2 fun e => ?_
  exact ⟨h'.mem h fun c => (hsame c).symm, h.mem h' hsame⟩

/-! ## Batches -/

/-- The changes of a batch as a watcher reports them, with their paths read. -/
def located (batch : List (Change × String)) : List (Change × Path) :=
  batch.map fun c => (c.1, Path.ofString c.2)

theorem mem_located_iff {batch : List (Change × String)} {c : Change × Path} :
    c ∈ located batch ↔ ∃ s, (c.1, s) ∈ batch ∧ Path.ofString s = c.2 := by
  rcases c with ⟨change, p⟩
  simp [located]

/-- A batch comes to one event for each of its paths, in order, and so does any other batch of the
same changes. Only a path that is too long to look up is in the way, in any such batch. -/
theorem events_reduced (d : Disk) (batch : List (Change × String)) :
    ((∀ c ∈ batch, ¬d.IsTooLong (Path.ofString c.2)) ∧
      ∃ es, Reduces d (located batch) es ∧
        ∀ batch', (∀ c, c ∈ batch' ↔ c ∈ batch) → events d (located batch') = .ok es) ∨
    ((∃ c ∈ batch, d.IsTooLong (Path.ofString c.2)) ∧
      ∀ batch', (∀ c, c ∈ batch' ↔ c ∈ batch) → ∃ c ∈ batch, d.IsTooLong (Path.ofString c.2) ∧
        events d (located batch') = .error ⟨.nameTooLong, (Path.ofString c.2).toText⟩) := by
  have hread (batch : List (Change × String)) : ∀ c ∈ located batch, c.2.IsRead :=
    List.forall_mem_map.2 fun c _ => Path.isRead_ofString c.2
  by_cases hall : ∀ c ∈ batch, ¬d.IsTooLong (Path.ofString c.2)
  · refine .inl ⟨hall, _, reduces_eventsBy (hread batch), fun batch' hsame => ?_⟩
    have hall' : ∀ c ∈ located batch', ¬d.IsTooLong c.2 :=
      List.forall_mem_map.2 fun c hc => hall c ((hsame c).1 hc)
    have hlocated : ∀ c, c ∈ located batch' ↔ c ∈ located batch := fun c => by
      simp only [mem_located_iff, hsame]
    rw [events_eq hall', (reduces_eventsBy (hread batch)).unique (reduces_eventsBy (hread batch'))
      hlocated]
  · obtain ⟨c, hc, hlong⟩ : ∃ c ∈ batch, d.IsTooLong (Path.ofString c.2) := by
      simpa only [not_forall, not_not, exists_prop] using hall
    refine .inr ⟨⟨c, hc, hlong⟩, fun batch' hsame => ?_⟩
    have hmem : (c.1, Path.ofString c.2) ∈ located batch' :=
      mem_located_iff.2 ⟨c.2, (hsame c).2 hc, rfl⟩
    obtain ⟨f, hf, hlong', hevents⟩ := events_eq_error ⟨_, hmem, hlong⟩
    obtain ⟨s, hs, hpath⟩ := mem_located_iff.1 hf
    rw [← hpath] at hlong' hevents
    exact ⟨(f.1, s), (hsame _).1 hs, hlong', hevents⟩

namespace Saved

/-- A project with two scripts and a manifest. -/
def disk : Disk :=
  ⟨[(["p"], .dir), (["p", "a.ts"], .file []), (["p", "b.ts"], .file []),
    (["p", "nango.yaml"], .file [])], ["p"]⟩

/-- One script is new, another one has been deleted and written anew, a third one is gone. -/
def batch : List (Change × String) :=
  [(.modified, "/p/nango.yaml"), (.deleted, "/p/b.ts"), (.deleted, "/p/c.ts"),
    (.added, "/p/b.ts"), (.added, "/p/a.ts")]

def events : List Event :=
  [⟨.added, ⟨1, ["p", "a.ts"]⟩⟩, ⟨.changed, ⟨1, ["p", "b.ts"]⟩⟩, ⟨.removed, ⟨1, ["p", "c.ts"]⟩⟩,
    ⟨.changed, ⟨1, ["p", "nango.yaml"]⟩⟩]

/-- The changes in another order, some of them twice. -/
def rearranged : List (Change × String) :=
  [(.added, "/p/a.ts"), (.deleted, "/p/b.ts"), (.added, "/p/b.ts"), (.deleted, "/p/b.ts"),
    (.deleted, "/p/c.ts"), (.modified, "/p/nango.yaml"), (.added, "/p/a.ts")]

theorem events_rearranged : Watch.events disk (located rearranged) = .ok events := by
  have hlong : ∀ c ∈ located rearranged, ¬disk.IsTooLong c.2 := by
    unfold Disk.IsTooLong
    decide
  have hevents : (((located rearranged).map Prod.snd).eraseDups.map
      (eventBy disk (located rearranged))) = events := by decide +kernel
  have hsorted : events.mergeSort Event.le = events :=
    List.mergeSort_of_pairwise (by decide)
  rw [events_eq hlong, hevents, hsorted]

theorem events_reduced_saved : Reduces disk (located batch) events ∧
    Watch.events disk (located batch) = .ok events := by
  have hsame : ∀ c, c ∈ rearranged ↔ c ∈ batch := fun c => by
    simp only [rearranged, batch, List.mem_cons, List.not_mem_nil, or_false]
    tauto
  rcases events_reduced disk batch with ⟨-, es, hes, hall⟩ | ⟨-, hall⟩
  · have heq := (hall rearranged hsame).symm.trans events_rearranged
    obtain rfl := Except.ok.inj heq
    exact ⟨hes, hall batch fun _ => Iff.rfl⟩
  · obtain ⟨c, -, -, herror⟩ := hall rearranged hsame
    rw [events_rearranged] at herror
    cases herror

/-- With a suffix, the name is too long for a file. -/
def overlong : String := String.ofList (List.replicate 253 'a')

theorem isTooLong_of_isName {n : String} (hname : Path.IsName n)
    (hlong : Disk.longestName < n.utf8ByteSize) : disk.IsTooLong (Path.ofString n) := by
  have hhere : disk.entryAt? ⟨0, []⟩ = some .dir := by decide
  have htooLong : disk.IsTooLong (Path.child ⟨0, []⟩ n) := Disk.isTooLong_child hhere hlong
  rw [Path.ofString_of_isName hname]
  exact htooLong

theorem isTooLong_overlong : disk.IsTooLong (Path.ofString (overlong ++ ".js")) := by
  have hlong : Disk.longestName < (overlong ++ ".js").utf8ByteSize := by decide +kernel
  exact isTooLong_of_isName (Path.isName_append (Package.Sample.noSlash_letters 253) (by decide)) hlong

/-- There is no event for a path that cannot be looked up. -/
theorem not_reduced_overlong : ¬∃ es,
    Watch.events disk (located [(.deleted, overlong ++ ".js")]) = .ok es ∧
      Reduces disk (located [(.deleted, overlong ++ ".js")]) es := by
  rintro ⟨es, hes, -⟩
  have hmem : (Change.deleted, Path.ofString (overlong ++ ".js")) ∈
      located [(.deleted, overlong ++ ".js")] :=
    mem_located_iff.2 ⟨_, List.mem_singleton_self _, rfl⟩
  obtain ⟨c, -, -, herror⟩ := events_eq_error ⟨_, hmem, isTooLong_overlong⟩
  rw [hes] at herror
  cases herror

end Saved

end Watch

end FlowPipeline
