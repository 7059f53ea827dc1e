import FlowPipeline.Proofs.EventHandling
import FlowPipeline.Proofs.ScriptPaths
import FlowPipeline.Proofs.WatchEvents

/-! # Scripts that are watched and scripts that are listed

A build of a whole project compiles the scripts that are listed, and while the project is watched a
script is compiled when it changes. The two mean the same files but for two kinds of names: the name
`.ts` is listed and not watched, and declarations are watched and not listed.
-/

namespace FlowPipeline.Watch
open Work Build

section
variable {d : Disk} {root : Path} {n : String}

/-- The entries at the top level of a project whose changes are acted upon as those of scripts. -/
def watched (d : Disk) (root : Path) : List Path :=
  ((d.list root).map root.child).filter fun p => accepts d root p && isScript p

/-! ## Names of scripts -/

def IsDeclaration (n : String) : Prop := ∃ m, n = m ++ ".d.ts"

theorem IsDeclaration.eq_append (h : IsDeclaration n) : ∃ m, m ≠ "" ∧ n = m ++ ".ts" := by
  obtain ⟨m, rfl⟩ := h
  refine ⟨m ++ ".d", Path.append_ne m (by decide), ?_⟩
  rw [String.append_assoc]
  rfl

theorem IsDeclaration.ne_types (h : IsDeclaration n) : n ≠ TypeDefinitions.fileName := by
  obtain ⟨m, rfl⟩ := h
  have hne : m ++ ".d.ts" ≠ "mode" ++ "ls.ts" :=
    Path.append_ne_append m "mode" (by decide) (by decide)
  exact hne

/-- The name is `.ts` or that of a declaration. -/
def IsDisputed (n : String) : Prop := n = ".ts" ∨ IsDeclaration n

theorem isListed_ts : isListed ".ts" = true := by decide

theorem isScript_child_ts : isScript (root.child ".ts") = false := by
  rw [isScript, Path.suffix, Path.name_child]
  decide

theorem IsDeclaration.isListed_eq_false (h : IsDeclaration n) : isListed n = false :=
  Bool.eq_false_iff.2 fun hlisted => (isListed_iff.1 hlisted).2.2 h

theorem IsDeclaration.isScript_child (h : IsDeclaration n) : isScript (root.child n) = true :=
  isScript_child_iff.2 ⟨h.ne_types, h.eq_append⟩

theorem isListed_eq_isScript_iff : isListed n = isScript (root.child n) ↔ ¬IsDisputed n := by
  constructor
  · rintro heq (rfl | hdeclaration)
    · rw [isListed_ts, isScript_child_ts] at heq
      cases heq
    · rw [hdeclaration.isListed_eq_false, hdeclaration.isScript_child] at heq
      cases heq
  · intro hnot
    rw [IsDisputed, not_or] at hnot
    rw [Bool.eq_iff_iff, isListed_iff, isScript_child_iff]
    constructor
    · rintro ⟨⟨m, rfl⟩, htypes, -⟩
      refine ⟨htypes, m, ?_, rfl⟩
      rintro rfl
      exact hnot.1 (String.empty_append ..)
    · rintro ⟨htypes, m, -, hts⟩
      exact ⟨⟨m, hts⟩, htypes, hnot.2⟩

/-! ## Entries of a project -/

theorem child_mem_listed_iff (hn : n ∈ d.list root) :
    root.child n ∈ listed d root ↔ isListed n = true := by
  rw [mem_listed_iff]
  constructor
  · rintro ⟨m, -, hlisted, hchild⟩
    have hname := congrArg Path.name hchild
    rw [Path.name_child, Path.name_child] at hname
    exact hname ▸ hlisted
  · intro hlisted
    exact ⟨n, hn, hlisted, rfl⟩

/-- Entries at the top level are accepted, so that the name of a script decides. -/
theorem watched_eq (d : Disk) (root : Path) :
    watched d root = ((d.list root).filter fun n => isScript (root.child n)).map root.child := by
  have haccepts (n : String) :
      (accepts d root (root.child n) && isScript (root.child n)) = isScript (root.child n) := by
    rcases hscript : isScript (root.child n) with _ | _
    · exact Bool.and_false _
    · rw [accepts_child d (by simp [hscript]), Bool.and_true]
  rw [watched, List.filter_map]
  exact congrArg (fun q => ((d.list root).filter q).map root.child) (funext haccepts)

theorem child_mem_watched_iff (hn : n ∈ d.list root) :
    root.child n ∈ watched d root ↔ isScript (root.child n) = true := by
  rw [watched_eq, List.mem_map]
  constructor
  · rintro ⟨m, hm, hchild⟩
    exact hchild ▸ (List.mem_filter.1 hm).2
  · intro hscript
    exact ⟨n, List.mem_filter.2 ⟨hn, hscript⟩, rfl⟩

/-- The name `.ts` is the only one that is listed and not watched. -/
theorem listed_not_watched_iff (hn : n ∈ d.list root) :
    root.child n ∈ listed d root ∧ root.child n ∉ watched d root ↔ n = ".ts" := by
  rw [child_mem_listed_iff hn, child_mem_watched_iff hn]
  constructor
  · rintro ⟨hlisted, hscript⟩
    obtain ⟨⟨m, rfl⟩, htypes, -⟩ := isListed_iff.1 hlisted
    by_contra hne
    refine hscript (isScript_child_iff.2 ⟨htypes, m, ?_, rfl⟩)
    rintro rfl
    exact hne (String.empty_append ..)
  · rintro rfl
    exact ⟨isListed_ts, by simp [isScript_child_ts]⟩

/-- Declarations are what is watched and not listed. -/
theorem watched_not_listed_iff (hn : n ∈ d.list root) :
    root.child n ∈ watched d root ∧ root.child n ∉ listed d root ↔ IsDeclaration n := by
  rw [child_mem_listed_iff hn, child_mem_watched_iff hn]
  constructor
  · rintro ⟨hscript, hlisted⟩
    obtain ⟨htypes, m, -, hts⟩ := isScript_child_iff.1 hscript
    by_contra hdeclaration
    exact hlisted (isListed_iff.2 ⟨⟨m, hts⟩, htypes, hdeclaration⟩)
  · intro hdeclaration
    exact ⟨hdeclaration.isScript_child, by simp [hdeclaration.isListed_eq_false]⟩

/-- The lists are the same without disputed names only: a filter by one test leaves what the other
leaves if the tests agree on every entry. -/
theorem listed_eq_watched_iff (d : Disk) (root : Path) :
    listed d root = watched d root ↔ ∀ n ∈ d.list root, ¬IsDisputed n := by
  constructor
  · intro heq n hn
    have hsame : isListed n = isScript (root.child n) := by
      rw [Bool.eq_iff_iff, ← child_mem_listed_iff hn, ← child_mem_watched_iff hn, heq]
    exact isListed_eq_isScript_iff.1 hsame
  · intro hnames
    have hsame : (d.list root).filter isListed =
        (d.list root).filter fun n => isScript (root.child n) :=
      List.filter_congr fun n hn => isListed_eq_isScript_iff.2 (hnames n hn)
    rw [listed, watched_eq, hsame]

theorem respond_script (run : Runner) (h : Handler) {e : Event}
    (hmanifest : isManifest e.path = false) (hkind : e.kind ≠ .removed) :
    h.respond run e =
      if isScript e.path then compileScript run h.context e.path >>= fun _ => pure ⟨⟩
      else pure ⟨⟩ := by
  rw [Handler.respond, hmanifest, if_neg Bool.false_ne_true, if_neg hkind]

/-- Of the entries of a project the same are listed and watched as scripts but for those with a
disputed name: `.ts` is listed alone, and a declaration is watched alone. All others are compiled
after a change exactly if they are listed. -/
theorem listed_iff_watched (d : Disk) (root : Path) :
    (∀ n ∈ d.list root,
      ((root.child n ∈ listed d root ↔
        accepts d root (root.child n) = true ∧ isScript (root.child n) = true) ↔ ¬IsDisputed n) ∧
      (root.child n ∈ listed d root ∧ root.child n ∉ watched d root ↔ n = ".ts") ∧
      (root.child n ∈ watched d root ∧ root.child n ∉ listed d root ↔ IsDeclaration n) ∧
      (¬IsDisputed n → ∀ (run : Runner) (h : Handler) (kind : EventKind), kind ≠ .removed →
        isManifest (root.child n) = false →
        h.respond run ⟨kind, root.child n⟩ =
          if root.child n ∈ listed d root then
            compileScript run h.context (root.child n) >>= fun _ => pure ⟨⟩
          else pure ⟨⟩)) ∧
    (listed d root = watched d root ↔ ∀ n ∈ d.list root, ¬IsDisputed n) := by
  refine ⟨fun n hn => ⟨?_, listed_not_watched_iff hn, watched_not_listed_iff hn, ?_⟩,
    listed_eq_watched_iff d root⟩
  · have haccepted : accepts d root (root.child n) = true ∧ isScript (root.child n) = true ↔
        isScript (root.child n) = true :=
      and_iff_right_of_imp fun hscript => accepts_child d (by simp [hscript])
    rw [haccepted, child_mem_listed_iff hn, ← Bool.eq_iff_iff]
    exact isListed_eq_isScript_iff
  · intro hdisputed run h kind hkind hmanifest
    have hsame : isListed n = isScript (root.child n) := isListed_eq_isScript_iff.2 hdisputed
    rw [respond_script run h hmanifest hkind]
    exact if_congr (by rw [child_mem_listed_iff hn, hsame]) rfl rfl

end

/-! ## A project with disputed names only -/

namespace Disputed

def root : Path := ⟨1, ["p"]⟩

/-- A file whose name is the suffix of scripts alone, and a declaration. -/
def disk : Disk := ⟨[(["p"], .dir), (["p", ".ts"], .file []), (["p", "a.d.ts"], .file [])], ["p"]⟩

theorem list_eq : disk.list root = [".ts", "a.d.ts"] := by
  have hsorted : [".ts", "a.d.ts"].mergeSort (fun a b => decide (a ≤ b)) = [".ts", "a.d.ts"] :=
    List.mergeSort_of_pairwise (by decide)
  exact hsorted

/-- Neither of the two files is both listed and watched. -/
theorem not_listed_iff_watched :
    listed disk root = [root.child ".ts"] ∧ watched disk root = [root.child "a.d.ts"] ∧
    ∀ n ∈ disk.list root, ¬(root.child n ∈ listed disk root ↔
      accepts disk root (root.child n) = true ∧ isScript (root.child n) = true) := by
  refine ⟨?_, ?_, ?_⟩
  · rw [listed, list_eq]
    rfl
  · rw [watched_eq, list_eq]
    rfl
  · intro n hn
    rw [child_mem_listed_iff hn]
    rw [list_eq] at hn
    obtain rfl | rfl : n = ".ts" ∨ n = "a.d.ts" := by simpa using hn
    · decide
    · decide

end Disputed
end FlowPipeline.Watch
