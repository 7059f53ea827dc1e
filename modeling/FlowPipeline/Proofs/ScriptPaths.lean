import FlowPipeline.Proofs.DiskEntries
import FlowPipeline.Proofs.TextParts
import FlowPipeline.Watch

/-! # Scripts and their compiled forms by name

A script at the top level of a project is compiled to the entry of the output directory that is
named for its stem. Two scripts that are watched never share that entry. Of all files only `.ts`
has a stem that is not what stands in front of its suffix, and `.ts.ts` has the same one.
-/

namespace FlowPipeline

namespace Path

theorem ofString_of_isName {n : String} (h : IsName n) : ofString n = ⟨0, [n]⟩ := by
  have hslashes : n.toList.takeWhile (· == '/') = [] := by
    rcases hn : n.toList with _ | ⟨c, cs⟩
    · rfl
    · have hc : c ≠ '/' := fun he => h.noSlash (by simp [hn, he])
      simp [hc]
  simp [ofString, Text.parts_of_notMem h.noSlash, hslashes, h.ne_empty, h.ne_dot]

theorem join_of_isName (p : Path) {n : String} (h : IsName n) :
    p.join (ofString n) = p.child n := by
  simp [ofString_of_isName h, join, isAbsolute, child]

/-! ## Stems and suffixes -/

theorem splitName_point (m : String) {e : String} (he : e ≠ "") (hpoint : '.' ∉ e.toList) :
    splitName (m ++ ("." ++ e)) = if m = "" then ("." ++ e, "") else (m, "." ++ e) := by
  have hl : (m ++ ("." ++ e)).toList.reverse = e.toList.reverse ++ '.' :: m.toList.reverse := by
    simp [String.toList_append]
  have hending : (m ++ ("." ++ e)).toList.reverse.takeWhile (· != '.') = e.toList.reverse := by
    rw [hl, List.takeWhile_append_of_pos]
    · simp
    · intro c hc
      have hne : c ≠ '.' := fun h => hpoint (by simpa [h] using hc)
      simpa using hne
  have hdrop : (m ++ ("." ++ e)).toList.reverse.drop (e.toList.reverse.length + 1) =
      m.toList.reverse := by
    rw [hl, ← List.drop_drop, List.drop_left]
    rfl
  simp only [splitName, hending, hdrop]
  by_cases hm : m = ""
  · simp [hm]
  · have hends : String.ofList ('.' :: e.toList) = "." ++ e := by
      apply String.toList_injective
      simp [String.toList_append]
    simp [hm, he, hends]

theorem splitName_ts (m : String) :
    splitName (m ++ ".ts") = if m = "" then (".ts", "") else (m, ".ts") :=
  splitName_point m (e := "ts") (by decide) (by decide)

theorem splitName_js (m : String) :
    splitName (m ++ ".js") = if m = "" then (".js", "") else (m, ".js") :=
  splitName_point m (e := "js") (by decide) (by decide)

/-- A name is its stem and its suffix. -/
theorem splitName_append (n : String) : (splitName n).1 ++ (splitName n).2 = n := by
  simp only [splitName]
  split_ifs with h
  · simp
  · simp only [Bool.or_eq_true, not_or, Bool.not_eq_true] at h
    obtain ⟨-, hs⟩ := h
    set e := n.toList.reverse.takeWhile (· != '.') with he
    have hsplit : n.toList.reverse = e ++ n.toList.reverse.dropWhile (· != '.') :=
      List.takeWhile_append_dropWhile.symm
    have hdrop : n.toList.reverse.drop e.length = n.toList.reverse.dropWhile (· != '.') := by
      conv_lhs => rw [hsplit]
      simp
    rcases hd : n.toList.reverse.dropWhile (· != '.') with _ | ⟨c, cs⟩
    · have : n.toList.reverse.drop (e.length + 1) = [] := by
        rw [← List.drop_drop, hdrop, hd]
        rfl
      simp [this] at hs
    · have hc : c = '.' := by
        have := List.head?_dropWhile_not (· != '.') n.toList.reverse
        simpa [hd] using this
      rw [hd, hc] at hsplit
      have hn : n.toList = cs.reverse ++ '.' :: e.reverse := by
        have := congrArg List.reverse hsplit
        simpa using this
      apply String.toList_injective
      simp [hn]

theorem stem_child_ts (p : Path) {m : String} (hm : m ≠ "") : (p.child (m ++ ".ts")).stem = m := by
  simp [stem, splitName_ts, hm]

theorem stem_child_only_ts (p : Path) : (p.child ".ts").stem = ".ts" := by
  rw [stem, name_child]
  decide

theorem append_ne (m : String) {suffix n : String} (hn : n.toList.length < suffix.toList.length) :
    m ++ suffix ≠ n := by
  intro he
  have := congrArg (fun t => t.toList.length) he
  simp only [String.toList_append, List.length_append] at this
  omega

theorem append_js_ne (m : String) {n : String} (hn : n.toList.length < 3) : m ++ ".js" ≠ n :=
  append_ne m hn

/-- Names that end in different suffixes differ. -/
theorem append_ne_append (m n : String) {suffix suffix' : String}
    (hlength : suffix.toList.length = suffix'.toList.length) (hne : suffix ≠ suffix') :
    m ++ suffix ≠ n ++ suffix' := by
  intro he
  have hlist := congrArg String.toList he
  rw [String.toList_append, String.toList_append] at hlist
  exact hne (String.toList_injective (List.append_inj' hlist hlength).2)

theorem isName_js {m : String} (h : '/' ∉ m.toList) : IsName (m ++ ".js") := by
  refine ⟨append_js_ne m (by decide), append_js_ne m (by decide), append_js_ne m (by decide), ?_⟩
  simp [String.toList_append, h]

theorem noSlash_stem_of_name {p : Path} (h : '/' ∉ p.name.toList) : '/' ∉ p.stem.toList := by
  rw [← splitName_append p.name, String.toList_append, List.mem_append, not_or] at h
  exact h.1

theorem noSlash_stem (p : Path) {n : String} (h : IsName n) : '/' ∉ (p.child n).stem.toList :=
  noSlash_stem_of_name (by simpa using h.noSlash)

theorem stem_ne_empty {p : Path} (h : p.name ≠ "") : p.stem ≠ "" := by
  simp only [stem, splitName]
  split_ifs with hnone
  · exact h
  · simp only [Bool.or_eq_true, List.isEmpty_iff, not_or] at hnone
    intro he
    exact hnone.2 (by simpa using he)

/-- The names of a path are such as a text is read into: none is empty or has a slash. -/
structure IsProper (p : Path) : Prop where
  ne_empty : "" ∉ p.names
  noSlash : ∀ n ∈ p.names, '/' ∉ n.toList

theorem IsProper.noSlash_name {p : Path} (h : p.IsProper) : '/' ∉ p.name.toList := by
  rcases List.eq_nil_or_concat p.names with hnil | ⟨l, n, hn⟩
  · simp [name, hnil]
  · have hname : p.name = n := by simp [name, hn, List.getLastD_eq_getLast?]
    rw [hname]
    exact h.noSlash n (by simp [hn])

theorem isProper_ofString (s : String) : (ofString s).IsProper := by
  refine ⟨by simp [ofString], fun n hn => ?_⟩
  simp only [ofString, List.mem_filter, List.mem_map] at hn
  obtain ⟨⟨w, hw, rfl⟩, -⟩ := hn
  simpa using Text.notMem_of_mem_parts hw

section

variable (m suffix : String)

/-- The last name of a path that is written with a suffix has the suffix. -/
theorem names_ofString_append (hslash : '/' ∉ suffix.toList)
    (hlength : 1 < suffix.toList.length) :
    ∃ l n, (ofString (m ++ suffix)).names = l ++ [n ++ suffix] := by
  obtain ⟨ws, w, hw⟩ := Text.append_parts_of_notMem m.toList hslash
  refine ⟨(ws.map String.ofList).filter fun n => n != "" && n != ".", String.ofList w, ?_⟩
  have hlast : String.ofList (w ++ suffix.toList) = String.ofList w ++ suffix := by
    simp [String.ofList_append]
  have hkept : (String.ofList w ++ suffix != "" && String.ofList w ++ suffix != ".") = true := by
    have hnil := append_ne (n := "") (String.ofList w) (Nat.zero_lt_of_lt hlength)
    have hdot := append_ne (n := ".") (String.ofList w) hlength
    simp only [bne_iff_ne.2 hnil, bne_iff_ne.2 hdot, Bool.and_self]
  simp only [ofString, String.toList_append, hw, List.map_append, List.map_cons, List.map_nil,
    List.filter_append, hlast, List.filter_cons, hkept, if_true, List.filter_nil]

theorem names_join_append (p : Path) (hslash : '/' ∉ suffix.toList)
    (hlength : 1 < suffix.toList.length) :
    ∃ l n, (p.join (ofString (m ++ suffix))).names = l ++ [n ++ suffix] := by
  obtain ⟨l, n, hn⟩ := names_ofString_append m suffix hslash hlength
  unfold join
  split_ifs
  · exact ⟨l, n, hn⟩
  · exact ⟨p.names ++ l, n, by simp [hn]⟩

end

theorem isAbsolute_parent (p : Path) : p.parent.isAbsolute = p.isAbsolute := rfl

theorem isAbsolute_join {p : Path} (h : p.isAbsolute = true) (q : Path) :
    (p.join q).isAbsolute = true := by
  unfold join
  split_ifs with hq
  · exact hq
  · exact h

end Path

/-- The compiled form of a script is in the output directory. -/
theorem Context.outputOf_eq (c : Context) {p : Path} (h : '/' ∉ p.name.toList) :
    c.outputOf p = c.output.child (p.stem ++ ".js") :=
  Path.join_of_isName _ (Path.isName_js (Path.noSlash_stem_of_name h))

theorem Context.parent_outputOf (c : Context) {p : Path} (h : '/' ∉ p.name.toList) :
    (c.outputOf p).parent = c.output := by
  rw [c.outputOf_eq h, Path.parent_child]

theorem Context.outputOf_child (c : Context) (p : Path) {n : String} (h : Path.IsName n) :
    c.outputOf (p.child n) = c.output.child ((p.child n).stem ++ ".js") :=
  c.outputOf_eq (by simpa using h.noSlash)

namespace Build

/-- The names of a file that is named like a compiled script. -/
def IsCompiled (ns : List String) : Prop := ∃ m n, ns = m ++ [n ++ ".js"]

theorem isCompiled_of_locate {d : Disk} {output : Path} {m : String} {ns : List String}
    (h : d.locate (output.join (Path.ofString (m ++ ".js"))) = .ok ns) : IsCompiled ns := by
  obtain ⟨l, n, hn⟩ := Path.names_join_append m ".js" output (by decide) (by decide)
  obtain ⟨l', hl'⟩ := Disk.locate_append_eq_ok hn (Path.append_js_ne n (by decide)) h
  exact ⟨l', n, hl'⟩

theorem not_isCompiled_append {n : String} (hjs : ∀ k, n ≠ k ++ ".js") (m : List String) :
    ¬IsCompiled (m ++ [n]) := by
  rintro ⟨l, k, he⟩
  have hlast := (List.append_inj' he rfl).2
  simp only [List.cons.injEq, and_true] at hlast
  exact hjs k hlast

theorem not_isCompiled_types (root : Path) :
    ¬IsCompiled (root.child TypeDefinitions.fileName).names := by
  refine not_isCompiled_append (fun k => ?_) root.names
  show "models" ++ ".ts" ≠ k ++ ".js"
  exact Path.append_ne_append "models" k (by decide) (by decide)

end Build

namespace Watch

theorem isScript_child_iff {p : Path} {n : String} : isScript (p.child n) = true ↔
    n ≠ TypeDefinitions.fileName ∧ ∃ m, m ≠ "" ∧ n = m ++ ".ts" := by
  simp only [isScript, Path.suffix, Path.name_child, Bool.and_eq_true, beq_iff_eq, bne_iff_ne]
  constructor
  · rintro ⟨hsuffix, htypes⟩
    have hn := Path.splitName_append n
    rw [hsuffix] at hn
    refine ⟨htypes, (Path.splitName n).1, fun he => ?_, hn.symm⟩
    rw [he] at hn
    subst hn
    exact absurd hsuffix (by decide)
  · rintro ⟨htypes, m, hm, rfl⟩
    rw [Path.splitName_ts, if_neg hm]
    exact ⟨rfl, htypes⟩

/-- Scripts that are watched differ in their stems. -/
theorem eq_of_stem_eq {p : Path} {n n' : String} (h : isScript (p.child n) = true)
    (h' : isScript (p.child n') = true) (hs : (p.child n).stem = (p.child n').stem) : n = n' := by
  obtain ⟨-, m, hm, rfl⟩ := isScript_child_iff.1 h
  obtain ⟨-, m', hm', rfl⟩ := isScript_child_iff.1 h'
  rw [Path.stem_child_ts p hm, Path.stem_child_ts p hm'] at hs
  rw [hs]

end Watch

namespace Build

theorem mem_listed_iff {d : Disk} {root p : Path} :
    p ∈ listed d root ↔ ∃ n, n ∈ d.list root ∧ isListed n = true ∧ p = root.child n := by
  simp only [listed, List.mem_map, List.mem_filter]
  constructor
  · rintro ⟨n, ⟨hn, hl⟩, rfl⟩
    exact ⟨n, hn, hl, rfl⟩
  · rintro ⟨n, hn, hl, rfl⟩
    exact ⟨n, ⟨hn, hl⟩, rfl⟩

theorem isSuffixOf_iff {suffix n : String} :
    suffix.toList.isSuffixOf n.toList = true ↔ ∃ m, n = m ++ suffix := by
  rw [List.isSuffixOf_iff_suffix]
  constructor
  · rintro ⟨cs, hcs⟩
    exact ⟨String.ofList cs, String.toList_injective (by simp [← hcs])⟩
  · rintro ⟨m, rfl⟩
    exact ⟨m.toList, (String.toList_append ..).symm⟩

theorem isListed_iff {n : String} : isListed n = true ↔
    (∃ m, n = m ++ ".ts") ∧ n ≠ TypeDefinitions.fileName ∧ ¬∃ m, n = m ++ ".d.ts" := by
  have hdeclaration : (!".d.ts".toList.isSuffixOf n.toList) = true ↔ ¬∃ m, n = m ++ ".d.ts" := by
    rw [Bool.not_eq_true', ← Bool.not_eq_true]
    exact isSuffixOf_iff.not
  rw [isListed, Bool.and_eq_true, Bool.and_eq_true, isSuffixOf_iff, bne_iff_ne, hdeclaration,
    and_assoc]

/-- A script is watched and named for its stem, unless it is `.ts`. -/
theorem eq_stem_append {p : Path} {n : String}
    (h : (isListed n || Watch.isScript (p.child n)) = true) (hs : (p.child n).stem ≠ ".ts") :
    Watch.isScript (p.child n) = true ∧ n = (p.child n).stem ++ ".ts" := by
  have hwatched : Watch.isScript (p.child n) = true := by
    rcases Bool.or_eq_true_iff.1 h with hl | hw
    · obtain ⟨⟨m, rfl⟩, htypes, -⟩ := isListed_iff.1 hl
      refine Watch.isScript_child_iff.2 ⟨htypes, m, ?_, rfl⟩
      rintro rfl
      exact hs (by rw [String.empty_append, Path.stem_child_only_ts])
    · exact hw
  obtain ⟨-, m, hm, rfl⟩ := Watch.isScript_child_iff.1 hwatched
  exact ⟨hwatched, by rw [Path.stem_child_ts p hm]⟩

/-- The script that is named for a flow is watched, if the flow is that of its stem. -/
theorem isScript_of_flow {d : Disk} {root script : Path} {m : String} (hl : script ∈ listed d root)
    (hpath : script = root.join (Path.ofString (m ++ ".ts"))) (hstem : script.stem = m) :
    Watch.isScript script = true := by
  by_cases hm : m = ".ts"
  · have hname : Path.IsName ".ts.ts" := ⟨by decide, by decide, by decide, by decide⟩
    have hchild : script = root.child ".ts.ts" := by
      rw [hpath, hm]
      exact Path.join_of_isName root hname
    rw [hchild]
    exact Watch.isScript_child_iff.2 ⟨by decide, ".ts", by decide, by decide⟩
  · obtain ⟨n, -, hlist, rfl⟩ := mem_listed_iff.1 hl
    exact (eq_stem_append (by simp [hlist]) (hstem ▸ hm)).1

theorem pairwise_mergeSort (l : List String) :
    (l.mergeSort fun a b => decide (a ≤ b)).Pairwise (· ≤ ·) := by
  refine (List.pairwise_mergeSort ?_ ?_ l).imp (by simp)
  · intro a b c hab hbc
    simp only [decide_eq_true_eq] at *
    exact String.le_trans hab hbc
  · intro a b
    simpa using String.le_total a b

/-- A script that is watched shares its stem with none that is listed after it. -/
theorem listed_pairwise (d : Disk) (root : Path) :
    (listed d root).Pairwise fun p q => Watch.isScript p = true → p.stem = q.stem → p = q := by
  have hsorted : (d.list root).Pairwise (· ≤ ·) := by
    unfold Disk.list
    split
    · exact .nil
    · split
      · exact pairwise_mergeSort _
      · exact .nil
  refine List.pairwise_map.2 ((hsorted.filter _).imp_of_mem fun hn hn' hle hs he => ?_)
  obtain ⟨-, m, hm, rfl⟩ := Watch.isScript_child_iff.1 hs
  obtain ⟨⟨m', rfl⟩, -⟩ := isListed_iff.1 (List.mem_filter.1 hn').2
  rw [Path.stem_child_ts root hm] at he
  by_cases hm' : m' = ""
  · subst hm'
    rw [String.empty_append, Path.stem_child_only_ts] at he
    subst he
    exact absurd hle (by decide)
  · rw [Path.stem_child_ts root hm'] at he
    rw [he]

end Build
end FlowPipeline
