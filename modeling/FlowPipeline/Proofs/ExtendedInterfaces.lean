import FlowPipeline.Proofs.ValueErrors
import Mathlib.Data.List.Basic

/-! # Interfaces that are extended

An interface names the interfaces that it extends. Where the models that a model lists are all
defined, such a name is declared nowhere if and only if it is that of a private model, and more than
once if and only if several public models share it.
-/

namespace FlowPipeline

/-! ## Capitals -/

namespace Text

variable {c : Char}

theorem toNat_ofNat {n : Nat} (h : n.isValidChar) : (Char.ofNat n).toNat = n := by
  rw [Char.ofNat, dif_pos h]
  rfl

theorem ofNat_ne_underscore {n : Nat} (h : n ≠ '_'.toNat) : Char.ofNat n ≠ '_' := by
  by_cases hvalid : n.isValidChar
  · intro heq
    exact h (heq ▸ (toNat_ofNat hvalid).symm)
  · rw [Char.ofNat, dif_neg hvalid]
    decide

theorem capital_ne_nil (c : Char) : capital c ≠ [] := by
  have hall : ∀ p ∈ capitalSequences, p.2.map Char.ofNat ≠ [] := by decide
  rw [capital]
  split
  case h_1 n ns hfind => exact hall _ (List.mem_of_find?_eq_some hfind)
  case h_2 =>
    split
    · exact List.cons_ne_nil _ _
    · exact List.cons_ne_nil _ _

/-- A capital is one of several, or lies at the distance of a run, or is the character itself, which
is in no run. -/
theorem head?_capital {d : Char} (h : (capital c).head? = some d) :
    (∃ p ∈ capitalSequences, (p.2.map Char.ofNat).head? = some d) ∨
    (∃ r ∈ capitalRuns, r.1 ≤ c.toNat ∧ c.toNat ≤ r.2.1 ∧
      d = Char.ofNat (c.toNat + r.2.2.2).toNat) ∨
    (d = c ∧ ∀ r ∈ capitalRuns,
      ¬(r.1 ≤ c.toNat ∧ c.toNat ≤ r.2.1 ∧ (c.toNat - r.1) % r.2.2.1 = 0)) := by
  rw [capital] at h
  split at h
  case h_1 n ns hfind => exact .inl ⟨_, List.mem_of_find?_eq_some hfind, h⟩
  case h_2 =>
    split at h
    case h_1 lo hi step distance hfind =>
      have hrange := List.find?_some hfind
      simp only [Bool.and_eq_true, decide_eq_true_eq] at hrange
      exact .inr <| .inl
        ⟨_, List.mem_of_find?_eq_some hfind, hrange.1.1, hrange.1.2, (Option.some.inj h).symm⟩
    case h_2 hfind =>
      refine .inr (.inr ⟨(Option.some.inj h).symm, fun r hr hrange => ?_⟩)
      exact List.find?_eq_none.1 hfind r hr (by simpa [and_assoc] using hrange)

/-- No letter but the underscore itself has it as its capital. -/
theorem head?_capital_iff : (capital c).head? = some '_' ↔ c = '_' := by
  refine ⟨fun h => ?_, by rintro rfl; decide⟩
  have hsequences : ∀ p ∈ capitalSequences, (p.2.map Char.ofNat).head? ≠ some '_' := by
    decide
  have hruns : ∀ r ∈ capitalRuns, r.2.1 + r.2.2.2 < 95 ∨ 95 < r.1 + r.2.2.2 := by decide +kernel
  rcases head?_capital h with ⟨p, hp, hhead⟩ | ⟨r, hr, hlow, hhigh, heq⟩ | ⟨heq, -⟩
  · exact absurd hhead (hsequences p hp)
  · have hrun := hruns r hr
    refine absurd heq.symm (ofNat_ne_underscore ?_)
    show _ ≠ 95
    omega
  · exact heq.symm

end Text

namespace TypeDefinitions

/-! ## Interfaces in parts -/

/-- What an interface declares. -/
structure Definition where
  name : String
  bases : List String
  lines : List String
deriving DecidableEq, Repr

def Definition.text (d : Definition) : String :=
  "export interface " ++ d.name ++
    (if d.bases.isEmpty then "" else " extends " ++ Text.joined ", " d.bases) ++
    " \x7b\n" ++ Text.joined "\n" d.lines ++ "\n\x7d\n"

/-- The parts of a model's interface. -/
def definition (model : String) (fields : Mapping) : Except ManifestError Definition := do
  let named ← ((Mapping.find? "__extends" fields).getD (.text "")).written
  let lines ← fieldLines [] "  " (fields.filter fun e => e.1 != Model.extendsKey)
  return ⟨interfaceName model, (Text.listed named).map interfaceName, lines⟩

/-- The parts of all interfaces. -/
def definitions : Mapping → Except ManifestError (List Definition)
  | [] => .ok []
  | (k, v) :: es => do
    let name ← k.written
    if name.toList.head? = some '_' then definitions es
    else
      let own ← definition name (v.mapping?.getD [])
      return own :: (← definitions es)

theorem interface_eq_text (model : String) (fields : Mapping) :
    interface model fields = Definition.text <$> definition model fields := by
  rw [interface, definition]
  simp only [map_bind, map_pure]
  rfl

theorem interfaces_eq_texts (models : Mapping) :
    interfaces models = List.map Definition.text <$> definitions models := by
  induction models with
  | nil => rfl
  | cons kv es ih =>
    obtain ⟨k, v⟩ := kv
    rw [interfaces, definitions, map_bind]
    refine bind_congr fun name => ?_
    split_ifs
    · exact ih
    · simp only [interface_eq_text, ih, map_bind, map_pure, bind_map_left]
      rfl

/-- A name that starts with an underscore is that of a private model. -/
def IsPrivate (name : String) : Prop := name.toList.head? = some '_'

instance (name : String) : Decidable (IsPrivate name) := inferInstanceAs (Decidable (_ = _))

/-- The model of an entry with its name, if it is public. -/
def publicModel? (entry : Scalar × Value) : Option (String × Mapping) :=
  match entry.1.written with
  | .ok name => if IsPrivate name then none else some (name, entry.2.mapping?.getD [])
  | .error _ => none

/-- The models whose interfaces are made. -/
def publicModels (models : Mapping) : List (String × Mapping) := models.filterMap publicModel?

/-- The names that a model lists in its directive. -/
def listedBases (fields : Mapping) : List String :=
  match ((Mapping.find? "__extends" fields).getD (.text "")).written with
  | .ok named => Text.listed named
  | .error _ => []

/-- What stands in front of a model's fields: its interface and those that are extended. -/
def header (m : String × Mapping) : String × List String :=
  (interfaceName m.1, (listedBases m.2).map interfaceName)

def Definition.header (d : Definition) : String × List String := (d.name, d.bases)

variable {models fields : Mapping} {ds : List Definition} {d : Definition} {v : Value}
  {name base : String} {m : String × Mapping}

theorem isPrivate_interfaceName : IsPrivate (interfaceName name) ↔ IsPrivate name := by
  rw [IsPrivate, IsPrivate, interfaceName, String.toList_ofList]
  rcases name.toList with _ | ⟨c, cs⟩
  · rfl
  · have hhead (rest : List Char) : (Text.capitalize (c :: rest)).head? = some '_' ↔ c = '_' := by
      rw [Text.capitalize, List.head?_append_of_ne_nil _ (Text.capital_ne_nil c),
        Text.head?_capital_iff]
    rw [List.head?_cons, Option.some_inj]
    show (Text.capitalize (if _ then _ else _)).head? = _ ↔ _
    split_ifs with hlast
    · rcases cs with _ | ⟨c', cs⟩
      · obtain rfl : c = 's' := Option.some.inj hlast
        decide
      · exact hhead _
    · exact hhead cs

/-! ## What is declared -/

theorem header_of_definition (h : definition name fields = .ok d) :
    d.header = header (name, fields) := by
  rw [definition] at h
  obtain ⟨named, hnamed, h⟩ := Except.eq_ok_of_bind h
  obtain ⟨lines, -, h⟩ := Except.eq_ok_of_bind h
  cases h
  rw [header, listedBases, hnamed]
  rfl

/-- There is a definition for each public model, in order. -/
theorem headers_of_definitions (h : definitions models = .ok ds) :
    ds.map Definition.header = (publicModels models).map header := by
  induction models generalizing ds with
  | nil =>
    cases h
    rfl
  | cons kv models ih =>
    obtain ⟨k, v⟩ := kv
    rw [definitions] at h
    obtain ⟨name, hname, h⟩ := Except.eq_ok_of_bind h
    split_ifs at h with hprivate
    · have hnone : publicModel? (k, v) = none := by
        simp only [publicModel?, hname]
        exact if_pos hprivate
      rw [publicModels, List.filterMap_cons_none hnone]
      exact ih h
    · have hsome : publicModel? (k, v) = some (name, v.mapping?.getD []) := by
        simp only [publicModel?, hname]
        exact if_neg hprivate
      obtain ⟨own, hown, h⟩ := Except.eq_ok_of_bind h
      obtain ⟨others, hothers, h⟩ := Except.eq_ok_of_bind h
      cases h
      rw [publicModels, List.filterMap_cons_some hsome, List.map_cons, List.map_cons,
        header_of_definition hown]
      exact congrArg _ (ih hothers)

theorem names_of_definitions (h : definitions models = .ok ds) :
    ds.map Definition.name = (publicModels models).map fun m => interfaceName m.1 := by
  have hnames := congrArg (List.map Prod.fst) (headers_of_definitions h)
  rwa [List.map_map, List.map_map] at hnames

/-- An interface that is extended is that of a name in a public model's directive. -/
theorem exists_listed (h : definitions models = .ok ds) (hd : d ∈ ds) (hbase : base ∈ d.bases) :
    ∃ m ∈ publicModels models, ∃ name ∈ listedBases m.2, interfaceName name = base := by
  have hheader : d.header ∈ (publicModels models).map header := by
    rw [← headers_of_definitions h]
    exact List.mem_map_of_mem hd
  obtain ⟨m, hm, heq⟩ := List.mem_map.1 hheader
  have hbases : d.bases = (listedBases m.2).map interfaceName := (congrArg Prod.snd heq).symm
  rw [hbases] at hbase
  exact ⟨m, hm, List.mem_map.1 hbase⟩

theorem mem_publicModels (hfind : Mapping.find? name models = some v) (hname : ¬IsPrivate name) :
    (name, v.mapping?.getD []) ∈ publicModels models :=
  List.mem_filterMap.2 ⟨_, Mapping.mem_of_find? hfind, if_neg hname⟩

theorem not_isPrivate_of_mem (hm : m ∈ publicModels models) : ¬IsPrivate m.1 := by
  obtain ⟨entry, -, h⟩ := List.mem_filterMap.1 hm
  rw [publicModel?] at h
  split at h
  · split_ifs at h with hprivate
    cases h
    exact hprivate
  · cases h

/-! ## How often -/

/-- How many of the definitions declare an interface. -/
def declarations (ds : List Definition) (base : String) : Nat := ds.countP fun d => d.name = base

theorem declarations_eq (h : definitions models = .ok ds) (base : String) :
    declarations ds base = (publicModels models).countP fun m => interfaceName m.1 = base := by
  have hcount := congrArg (List.countP fun name => name = base) (names_of_definitions h)
  rwa [List.countP_map, List.countP_map] at hcount

theorem declarations_eq_zero_iff (h : definitions models = .ok ds)
    (hname : (Mapping.find? name models).isSome = true) :
    declarations ds (interfaceName name) = 0 ↔ IsPrivate name := by
  rw [declarations_eq h, List.countP_eq_zero]
  constructor
  · intro hnone
    by_contra hpublic
    obtain ⟨v, hv⟩ := Option.isSome_iff_exists.1 hname
    exact hnone _ (mem_publicModels hv hpublic) (decide_eq_true rfl)
  · intro hprivate m hm heq
    have hm' := not_isPrivate_of_mem hm
    rw [← isPrivate_interfaceName, of_decide_eq_true heq, isPrivate_interfaceName] at hm'
    exact hm' hprivate

/-- No two of the models have interfaces of the same name `base`. -/
def Unshared (base : String) (ms : List (String × Mapping)) : Prop :=
  ms.Pairwise fun m m' => ¬(interfaceName m.1 = base ∧ interfaceName m'.1 = base)

theorem countP_le_one_iff {ms : List (String × Mapping)} :
    (ms.countP fun m => interfaceName m.1 = base) ≤ 1 ↔ Unshared base ms := by
  induction ms with
  | nil => simp [Unshared]
  | cons m ms ih =>
    rw [Unshared, List.pairwise_cons, List.countP_cons]
    by_cases hm : interfaceName m.1 = base
    · have hnone : (ms.countP fun m => interfaceName m.1 = base) = 0 ↔
          ∀ m' ∈ ms, ¬(interfaceName m.1 = base ∧ interfaceName m'.1 = base) := by
        simp [List.countP_eq_zero, hm]
      rw [if_pos (decide_eq_true hm), ← hnone]
      constructor
      · intro h
        exact ⟨by omega, ih.1 (by omega)⟩
      · rintro ⟨h, -⟩
        omega
    · simp [hm, ih, Unshared]

/-- Where the models that a public one lists are all defined, an interface that is extended is
declared nowhere if and only if it is that of a private model, and more than once if and only if
public models share it. -/
theorem interfaces_extended (models : Mapping) (blocks : List String)
    (h : interfaces models = .ok blocks)
    (hdefined : ∀ m ∈ publicModels models, ∀ name ∈ listedBases m.2,
      (Mapping.find? name models).isSome = true) :
    ∃ ds, definitions models = .ok ds ∧ blocks = ds.map Definition.text ∧
      ds.map Definition.header = (publicModels models).map header ∧
      ∀ d ∈ ds, ∀ base ∈ d.bases,
        (declarations ds base = 0 ↔ IsPrivate base) ∧
        (declarations ds base ≤ 1 ↔ Unshared base (publicModels models)) := by
  rw [interfaces_eq_texts] at h
  obtain ⟨ds, hds, rfl⟩ : ∃ ds, definitions models = .ok ds ∧ ds.map Definition.text = blocks := by
    rcases hds : definitions models with e | ds
    · rw [hds] at h
      cases h
    · rw [hds] at h
      exact ⟨ds, rfl, Except.ok.inj h⟩
  refine ⟨ds, hds, rfl, headers_of_definitions hds, fun d hd base hbase => ⟨?_, ?_⟩⟩
  · obtain ⟨m, hm, name, hname, rfl⟩ := exists_listed hds hd hbase
    rw [declarations_eq_zero_iff hds (hdefined m hm name hname), isPrivate_interfaceName]
  · rw [declarations_eq hds, countP_le_one_iff]

/-- A model that lists two public models and one that is private. -/
def teamModels : Mapping :=
  [(.text "users", .map [(.text "__extends", .text "audited, _base"), (.text "id", .text "int")]),
   (.text "audited", .map [(.text "created", .text "date")]),
   (.text "_base", .map [(.text "id", .text "int")])]

def teamDefinitions : List Definition :=
  [⟨"User", ["Audited", "_base"], ["  id: number;"]⟩, ⟨"Audited", [], ["  created: Date;"]⟩]

/-- The public model is declared once, and the private one is not. -/
theorem interfaces_extended_team :
    (∀ m ∈ publicModels teamModels, ∀ name ∈ listedBases m.2,
      (Mapping.find? name teamModels).isSome = true) ∧
    interfaces teamModels = .ok (teamDefinitions.map Definition.text) ∧
    declarations teamDefinitions "Audited" = 1 ∧ declarations teamDefinitions "_base" = 0 := by
  have hdefined : ∀ m ∈ publicModels teamModels, ∀ name ∈ listedBases m.2,
      (Mapping.find? name teamModels).isSome = true := by decide
  have hblocks : interfaces teamModels = .ok (teamDefinitions.map Definition.text) := by
    decide
  obtain ⟨ds, hds, -, -, hcount⟩ := interfaces_extended _ _ hblocks hdefined
  have hown : definitions teamModels = .ok teamDefinitions := by decide
  obtain rfl : teamDefinitions = ds := Except.ok.inj (hown.symm.trans hds)
  obtain ⟨hzero, hone⟩ := hcount _ List.mem_cons_self "Audited" (by decide)
  have hdeclared : declarations teamDefinitions "Audited" ≠ 0 := mt hzero.1 (by decide)
  have honce : declarations teamDefinitions "Audited" ≤ 1 := hone.2 (by
    simp only [Unshared]
    decide)
  exact ⟨hdefined, hblocks, by omega,
    (hcount _ List.mem_cons_self "_base" (by decide)).1.2 (by decide)⟩

/-- Two models whose interfaces have one name, and a model that lists one of them. -/
def sharedModels : Mapping :=
  [(.text "issues", .map []), (.text "issue", .map []),
   (.text "Epic", .map [(.text "__extends", .text "issue")])]

def sharedDefinitions : List Definition :=
  [⟨"Issue", [], []⟩, ⟨"Issue", [], []⟩, ⟨"Epic", ["Issue"], []⟩]

/-- An interface that is extended need not be declared, and it may be declared twice. -/
theorem not_declared_once :
    (∀ models ∈ [teamModels, sharedModels], ∀ m ∈ publicModels models,
      ∀ name ∈ listedBases m.2, (Mapping.find? name models).isSome = true) ∧
    (interfaces teamModels = .ok (teamDefinitions.map Definition.text) ∧
      teamDefinitions.map Definition.text = [
        "export interface User extends Audited, _base \x7b\n  id: number;\n\x7d\n",
        "export interface Audited \x7b\n  created: Date;\n\x7d\n"] ∧
      declarations teamDefinitions "_base" = 0) ∧
    interfaces sharedModels = .ok (sharedDefinitions.map Definition.text) ∧
      (∃ d ∈ sharedDefinitions, "Issue" ∈ d.bases) ∧
      declarations sharedDefinitions "Issue" = 2 := by
  decide

end TypeDefinitions
end FlowPipeline
