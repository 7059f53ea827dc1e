import FlowPipeline.Compiler
import FlowPipeline.Proofs.SortedJson

/-! # Options on the command line

The compiler gets its options as JSON, with the members of every object in the order of their names.
It reads them from there as they were in their file. What it gets depends on nothing but the values:
it is the same for options that differ in the order of members, and for no others.
-/

namespace FlowPipeline

namespace CompilerOptions

open Json

/-! ## Options that have been read -/

/-- The document that the compiler gets. -/
def document (options : CompilerOptions) : Json := .obj [("compilerOptions", .object options)]

/-- The options without floats that a document holds lie less deep than the reader follows. -/
theorem isReadable_of_parse {label text : String} {options : CompilerOptions}
    (h : parse label text = .ok options) (hint : (Json.object options).hasFloat = false) :
    IsReadable (deepest - 1) (.object options) := by
  unfold parse at h
  split at h
  · cases h
  · next members hread =>
    split at h
    · cases h
      exact .object List.nodup_nil nofun
    · next options' hoptions =>
      cases h
      obtain ⟨m, hm, hobject⟩ := Option.map_eq_some_iff.1 hoptions
      have hmem : m ∈ members := List.mem_reverse.1 (List.mem_of_find?_eq_some hm)
      have hvalue := (areMembers_of_read hread).values m hmem
      rw [hobject] at hvalue
      exact hvalue hint
    · cases h
  · cases h

theorem isReadable_document {options : CompilerOptions} {depth : Nat}
    (h : IsReadable depth (.object options)) : IsReadable (depth + 1) (document options) :=
  .object (List.nodup_singleton _) (List.forall_mem_singleton.2 h)

theorem sorted_document (options : CompilerOptions) :
    (document options).sorted = .object [(Text.Utf16.encode "compilerOptions",
      (Json.object options).sorted)] := by
  rw [document, Json.obj, sorted_object, List.map_singleton, List.map_singleton, inOrder,
    List.mergeSort_singleton]

/-- What is written of options that have been read is the document with its members in order. -/
theorem read_document {options : CompilerOptions}
    (h : IsReadable (deepest - 1) (.object options)) :
    Json.read ((document options).sorted.render .line).toList = .ok (document options).sorted :=
  readWithin_render isSpaced_line (isReadable_document h).sorted

section

variable {program : String} {script : Path} {options options' : CompilerOptions}

theorem getLast?_arguments (program : String) (script : Path) (options : CompilerOptions) :
    (Compiler.command program options script).arguments.getLast? =
      some ("--tsconfig-raw=" ++ (document options).sorted.render .line) := rfl

/-- The command tells the options, but for the order of their members. -/
theorem command_eq_iff (h : IsReadable (deepest - 1) (.object options))
    (h' : IsReadable (deepest - 1) (.object options')) :
    Compiler.command program options script = Compiler.command program options' script ↔
      Same (.object options) (.object options') := by
  rw [same_iff h]
  refine ⟨fun heq => ?_, fun heq => ?_⟩
  · have hlast := congrArg (fun c => c.arguments.getLast?) heq
    rw [getLast?_arguments, getLast?_arguments] at hlast
    have hwritten : (document options).sorted.render .line =
        (document options').sorted.render .line := by
      simpa using Option.some.inj hlast
    have hread := read_document h
    rw [hwritten, read_document h'] at hread
    have hsorted := Except.ok.inj hread
    rw [sorted_document, sorted_document] at hsorted
    exact (congrArg Prod.snd (List.cons.inj (Json.object.inj hsorted)).1).symm
  · have hdocument : (document options).sorted = (document options').sorted := by
      rw [sorted_document, sorted_document, heq]
    have hcommand (o : CompilerOptions) : Compiler.command program o script =
        ⟨program, ["--loader=ts", "--format=cjs", "--sourcefile=" ++ script.name,
          "--tsconfig-raw=" ++ (document o).sorted.render .line]⟩ := rfl
    rw [hcommand, hcommand, hdocument]

/-- The last argument of the compiler holds the options of the document and nothing else, and
options that have been read make the same command exactly if they are the same, whatever the order
of their members. -/
theorem command_of_parse {label text : String} (h : parse label text = .ok options)
    (hint : (Json.object options).hasFloat = false) (program : String) (script : Path) :
    (∃ raw found,
      (Compiler.command program options script).arguments.getLast? =
        some ("--tsconfig-raw=" ++ raw) ∧
      Json.read raw.toList = .ok (.obj [("compilerOptions", .object found)]) ∧
      Same (.object found) (.object options)) ∧
    ∀ {label' text' options'}, parse label' text' = .ok options' →
      (Json.object options').hasFloat = false →
      (Compiler.command program options script = Compiler.command program options' script ↔
        Same (.object options) (.object options')) := by
  have hreadable := isReadable_of_parse h hint
  refine ⟨⟨_, inOrder (options.map fun m => (m.1, m.2.sorted)), rfl, ?_, ?_⟩,
    fun h' hint' => command_eq_iff hreadable (isReadable_of_parse h' hint')⟩
  · rw [← document, read_document hreadable, sorted_document, sorted_object]
    rfl
  · rw [← sorted_object]
    exact same_sorted hreadable

end

/-! ## One option -/

/-- Options with nothing but how strict to be. -/
def strictly (j : Json) : CompilerOptions := [(Text.Utf16.encode "strict", j)]

theorem isReadable_strictly {j : Json} (h : IsReadable 1 j) :
    IsReadable (deepest - 1) (.object (strictly j)) :=
  .object (List.nodup_singleton _) (List.forall_mem_singleton.2 (h.of_le (by decide)))

/-- Readable options are those of some document. -/
theorem parse_render (label : String) {options : CompilerOptions}
    (h : IsReadable (deepest - 1) (.object options)) :
    parse label ((document options).render .line) = .ok options := by
  have hread : Json.read ((document options).render .line).toList = .ok (document options) :=
    readWithin_render isSpaced_line (isReadable_document h)
  unfold parse
  rw [hread, document, Json.obj]
  simp [member?]

theorem command_of_parse_strictly :
    Compiler.command "esbuild" (strictly (.obj [("b", .bool true), ("a", .int 1)]))
        ⟨0, ["a.ts"]⟩ =
      Compiler.command "esbuild" (strictly (.obj [("a", .int 1), ("b", .bool true)]))
        ⟨0, ["a.ts"]⟩ := by
  have hone : IsReadable 0 (.int 1) := .int (by decide +kernel)
  have h : IsReadable 1 (.obj [("b", .bool true), ("a", .int 1)]) :=
    .object (by decide) (List.forall_mem_cons.2 ⟨.bool true, List.forall_mem_singleton.2 hone⟩)
  have h' : IsReadable 1 (.obj [("a", .int 1), ("b", .bool true)]) :=
    .object (by decide) (List.forall_mem_cons.2 ⟨hone, List.forall_mem_singleton.2 (.bool true)⟩)
  exact ((command_of_parse (parse_render "" (isReadable_strictly h)) rfl "esbuild" _).2
    (parse_render "" (isReadable_strictly h')) rfl).2 (by decide)

/-- A truth value is not written as the number that it counts as. -/
theorem not_command_of_parse : ¬∀ (label label' text text' : String)
    (options options' : CompilerOptions) (program : String) (script : Path),
    parse label text = .ok options → parse label' text' = .ok options' →
    (Json.object options).hasFloat = false → (Json.object options').hasFloat = false →
    Counts (.object options) (.object options') →
    Compiler.command program options script = Compiler.command program options' script := by
  intro hall
  have htrue := isReadable_strictly (.bool true)
  have hone := isReadable_strictly (.int (i := 1) (by decide +kernel))
  have hcommand := hall "" "" _ _ _ _ "esbuild" ⟨0, ["a.ts"]⟩ (parse_render "" htrue)
    (parse_render "" hone) rfl rfl (by decide)
  exact absurd ((command_eq_iff htrue hone).1 hcommand) (by decide)

end CompilerOptions
end FlowPipeline
