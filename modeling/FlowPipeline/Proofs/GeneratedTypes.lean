import FlowPipeline.Proofs.ExtendedInterfaces
import FlowPipeline.Proofs.TypeSentences
import FlowPipeline.Proofs.TypeTags
import FlowPipeline.Script.Parse

/-! # Type definitions as scripts

The names of models and fields are written as they are. Where they are words and the types of fields
are builtin ones or names, the file of type definitions is a script, whatever the flows are and
however fields lie within each other.
-/

namespace FlowPipeline
open Script

/-! ## Names and types of fields -/

namespace Text

theorem isLower_eq (c : Char) : c.isLower = decide (97 ≤ c.toNat ∧ c.toNat ≤ 122) := by
  rw [Bool.decide_and]
  rfl

theorem isLower_ofNat {n : Nat} (h : n < 97 ∨ 122 < n) : (Char.ofNat n).isLower = false := by
  by_cases hvalid : n.isValidChar
  · rw [isLower_eq, toNat_ofNat hvalid]
    exact decide_eq_false (by omega)
  · rw [Char.ofNat, dif_neg hvalid]
    decide

/-- A capital is none of the small ASCII letters. -/
theorem isLower_capital {c d : Char} (h : (capital c).head? = some d) : d.isLower = false := by
  have hsequences : ∀ p ∈ capitalSequences,
      (p.2.map Char.ofNat).head?.any Char.isLower = false := by decide
  have hruns : ∀ r ∈ capitalRuns, r.2.1 + r.2.2.2 < 97 ∨ 122 < r.1 + r.2.2.2 := by decide +kernel
  have hletters : (0x61, 0x7A, 1, -32) ∈ capitalRuns := by decide
  rcases head?_capital h with ⟨p, hp, hhead⟩ | ⟨r, hr, hlow, hhigh, rfl⟩ | ⟨rfl, hnot⟩
  · simpa [hhead] using hsequences p hp
  · have hrun := hruns r hr
    exact isLower_ofNat (by omega)
  · rw [isLower_eq]
    refine decide_eq_false fun hrange => hnot _ hletters ?_
    exact ⟨hrange.1, hrange.2, Nat.mod_one _⟩

end Text

namespace FieldType
open Text

variable {tag : String}

theorem isTypeWord_scriptName (h : IsTypeWord (trim tag).toList) :
    IsTypeWord (scriptName (trim tag)).toList := by
  have himages : ∀ pair ∈ scriptNames, IsTypeWord pair.2.toList := by decide
  rw [scriptName]
  rcases hname : scriptNames.lookup (trim tag) with _ | name
  · exact h
  · obtain ⟨before, after, hnames, -⟩ := List.lookup_eq_some_iff.1 hname
    exact himages (trim tag, name) (by simp [hnames])

/-- The words that stand for types without any model are types. -/
theorem isTypeWord_builtin :
    ∀ tag ∈ primitives ++ scriptNames.map Prod.fst, IsTypeWord tag.toList := by
  decide

/-- The type of a single word is that word, or its image, perhaps with alternatives. -/
theorem isType_ofTag (h : IsTypeWord (trim tag).toList) : IsType (ofTag tag).toList := by
  have hbar : '|' ∉ trimChars tag.toList := by
    intro hmem
    have hend := h.1.inside '|' (by rwa [trim, String.toList_ofList])
    exact absurd hend (by decide)
  have htail : (members tag).tail = [] := by
    rw [← members_trim, members, trim, String.toList_ofList, trimmedParts_of_not_mem hbar]
    rfl
  have hleft : left tag = trimChars tag.toList := left_eq fun word _ _ member hmember => by
    rw [htail] at hmember
    cases hmember
  have hunion {text : String} (hbase : IsType text.toList) {word : String}
      (hword : word ∈ absences) (mentioned : Bool) :
      IsType (text ++ if mentioned then " | " ++ word else "").toList := by
    have hall : ∀ word ∈ absences, IsTypeWord word.toList := by decide
    cases mentioned with
    | false => simpa using hbase
    | true => simpa using isType_union hbase (hall word hword)
  have hname : IsType (scriptName (String.ofList (left tag))).toList := by
    rw [hleft]
    exact isType_word (isTypeWord_scriptName h)
  have hnull : "null" ∈ absences := by decide
  have hundefined : "undefined" ∈ absences := by decide
  exact hunion (hunion hname hnull (mentions "null" (trimChars tag.toList))) hundefined
    (mentions "undefined" (trimChars tag.toList))

end FieldType

namespace TypeDefinitions
open Text (trim)

/-- The names of interfaces are no words of the grammar, as these start with small letters. -/
theorem isName_interfaceName {model : String} (h : IsWord (interfaceName model).toList) :
    IsName (interfaceName model).toList := by
  refine ⟨h, ?_⟩
  have hwords : ∀ s ∈ Terminal.words, s.1.head?.any Char.isLower = true := by decide
  rw [wordTerminal]
  rcases hlookup : Terminal.words.lookup (interfaceName model).toList with _ | t
  · rfl
  · obtain ⟨before, after, hmem, -⟩ := List.lookup_eq_some_iff.1 hlookup
    obtain ⟨d, hd, hlower⟩ :=
      (Option.any_eq_true _ _).1 (hwords ((interfaceName model).toList, t) (by simp [hmem]))
    have hcapital : ∀ cs : List Char, (Text.capitalize cs).head? = some d → d.isLower = false := by
      rintro (_ | ⟨c, cs⟩) hhead
      · cases hhead
      · rw [Text.capitalize, List.head?_append_of_ne_nil _ (Text.capital_ne_nil c)] at hhead
        exact Text.isLower_capital hhead
    rw [interfaceName, String.toList_ofList] at hd
    simp [hcapital _ hd] at hlower

/-- A type of a field that can be written: a single word, or fields that are named by words and have
such types. -/
inductive IsTyped : Value → Prop where
  | tag {tag : String} (h : IsTypeWord (trim tag).toList) : IsTyped (.text tag)
  | map {entries : Mapping}
    (hnames : ∀ e ∈ entries, ∃ name, e.1.written = .ok name ∧ IsMemberName name.toList)
    (htypes : ∀ e ∈ entries, IsTyped e.2) : IsTyped (.map entries)

/-- Behind each indentation a field of the value has a type. -/
def HasType (v : Value) : Prop :=
  ∀ indent : String, (∀ c ∈ indent.toList, isBlank c = true) →
    ∃ text, fieldType [] indent v = .ok text ∧ IsType text.toList

theorem areMembers_fieldLines {entries : Mapping}
    (hnames : ∀ e ∈ entries, ∃ name, e.1.written = .ok name ∧ IsMemberName name.toList)
    (htypes : ∀ e ∈ entries, HasType e.2) {indent : String}
    (hindent : ∀ c ∈ indent.toList, isBlank c = true) :
    ∃ lines, fieldLines [] indent entries = .ok lines ∧ AreMembers (lines.map String.toList) := by
  induction entries with
  | nil => exact ⟨[], rfl, areMembers_nil⟩
  | cons e es ih =>
    obtain ⟨k, v⟩ := e
    obtain ⟨⟨name, hname, hmember⟩, hnames⟩ := List.forall_mem_cons.1 hnames
    obtain ⟨hv, htypes⟩ := List.forall_mem_cons.1 htypes
    obtain ⟨text, htext, htype⟩ := hv indent hindent
    obtain ⟨lines, hlines, hmembers⟩ := ih hnames htypes
    have hmember := isMember_typed hindent hmember htype
    refine ⟨(indent ++ name ++ ": " ++ text ++ ";") :: lines, ?_, ?_⟩
    · rw [fieldLines, hname, htext, hlines]
      rfl
    · simpa using areMembers_cons hmember hmembers

theorem isType_literal {lines : List String} (h : AreMembers (lines.map String.toList))
    {indent : String} (hindent : ∀ c ∈ indent.toList, isBlank c = true) :
    IsType (literal indent lines).toList := by
  intro blanks rest hblanks _
  have hobject := reads_objectType h hblanks hindent rest
  have htext : (literal indent lines).toList ++ rest = '\x7b' :: '\n' ::
      (['\n'].intercalate (lines.map String.toList) ++
        '\n' :: (indent.toList ++ '\x7d' :: rest)) := by
    simp [literal, Text.joined]
  rw [htext]
  exact reads_type (.plain rfl (.oneOf (by simp) hobject))

theorem hasType_of_isTyped {v : Value} (h : IsTyped v) : HasType v := by
  induction h with
  | tag h => exact fun indent _ => ⟨_, rfl, FieldType.isType_ofTag h⟩
  | map hnames htypes ih =>
    intro indent hindent
    have hdeeper : ∀ c ∈ (indent ++ "  ").toList, isBlank c = true := by
      rw [String.toList_append]
      exact List.forall_mem_append.2 ⟨hindent, List.all_eq_true.1 (by decide)⟩
    obtain ⟨lines, hlines, hmembers⟩ := areMembers_fieldLines hnames ih hdeeper
    refine ⟨literal indent lines, ?_, isType_literal hmembers hindent⟩
    rw [fieldType, hlines]
    rfl

/-! ## The file -/

/-- A model whose names are words. -/
structure IsInWords (model : String) (fields : Mapping) : Prop where
  name : IsWord (interfaceName model).toList
  bases : ∃ listed, ((Mapping.find? "__extends" fields).getD (.text "")).written = .ok listed ∧
    ∀ base ∈ Text.listed listed, IsWord (interfaceName base).toList
  names : ∀ e ∈ fields, e.1 ≠ Model.extendsKey →
    ∃ name, e.1.written = .ok name ∧ IsMemberName name.toList
  types : ∀ e ∈ fields, e.1 ≠ Model.extendsKey → IsTyped e.2

theorem toList_joined (sep : String) (texts : List String) :
    (Text.joined sep texts).toList = sep.toList.intercalate (texts.map String.toList) :=
  String.toList_ofList

theorem toList_bases (bases : List String) :
    (if bases.isEmpty then "" else " extends " ++ Text.joined ", " bases).toList =
      extension (bases.map String.toList) := by
  have hextends : " extends ".toList = ' ' :: ("extends".toList ++ [' ']) := by decide
  have hcomma : ", ".toList = [',', ' '] := by decide
  rcases bases with _ | ⟨b, bases⟩
  · rfl
  · rw [extension, if_neg (by simp), if_neg (by simp), String.toList_append, hextends,
      toList_joined, hcomma]
    simp only [List.cons_append, List.append_assoc, List.nil_append]

theorem toList_text (d : Definition) : d.text.toList =
    ("export".toList ++ ' ' :: ("interface".toList ++ ' ' :: (d.name.toList ++
      (extension (d.bases.map String.toList) ++ ' ' :: '\x7b' :: '\n' ::
        (['\n'].intercalate (d.lines.map String.toList) ++ ['\n', '\x7d']))))) ++ ['\n'] := by
  have hhead : "export interface ".toList =
      "export".toList ++ ' ' :: ("interface".toList ++ [' ']) := by decide
  have hopen : " \x7b\n".toList = [' ', '\x7b', '\n'] := by decide
  have hclose : "\n\x7d\n".toList = ['\n', '\x7d', '\n'] := by decide
  have hline : "\n".toList = ['\n'] := by decide
  unfold Definition.text
  simp only [String.toList_append, hhead, hopen, hclose, toList_bases, toList_joined, hline,
    List.cons_append, List.append_assoc, List.nil_append]

/-- A definition that is a block of its own. -/
theorem isBlock_definition {model : String} {fields : Mapping} (h : IsInWords model fields) :
    ∃ d, definition model fields = .ok d ∧ IsBlock d.text.toList := by
  obtain ⟨listed, hlisted, hbases⟩ := h.bases
  have hfields : ∀ e ∈ fields.filter (fun e => e.1 != Model.extendsKey),
      e ∈ fields ∧ e.1 ≠ Model.extendsKey := fun e he =>
    ⟨(List.mem_filter.1 he).1, bne_iff_ne.1 (List.mem_filter.1 he).2⟩
  have hindent : ∀ c ∈ "  ".toList, isBlank c = true := List.all_eq_true.1 (by decide)
  obtain ⟨lines, hlines, hmembers⟩ := areMembers_fieldLines
    (fun e he => h.names e (hfields e he).1 (hfields e he).2)
    (fun e he => hasType_of_isTyped (h.types e (hfields e he).1 (hfields e he).2)) hindent
  refine ⟨⟨interfaceName model, (Text.listed listed).map interfaceName, lines⟩, ?_, ?_⟩
  · rw [definition, hlisted, hlines]
    rfl
  · have hnames : ∀ b ∈ ((Text.listed listed).map interfaceName).map String.toList, IsName b := by
      simp only [List.map_map, List.forall_mem_map]
      exact fun base hbase => isName_interfaceName (hbases base hbase)
    exact ⟨_, toList_text _, isStatement_interface (isName_interfaceName h.name) hnames hmembers⟩

/-- The model of an entry is private, or its names are words. -/
def IsWritable (entry : Scalar × Value) : Prop :=
  ∃ name, entry.1.written = .ok name ∧
    (¬IsPrivate name → IsInWords name (entry.2.mapping?.getD []))

theorem areBlocks_definitions {models : Mapping} (h : ∀ e ∈ models, IsWritable e) :
    ∃ ds, definitions models = .ok ds ∧ ∀ d ∈ ds, IsBlock d.text.toList := by
  induction models with
  | nil => exact ⟨[], rfl, nofun⟩
  | cons e models ih =>
    obtain ⟨k, v⟩ := e
    obtain ⟨⟨name, hname, hwords⟩, hmodels⟩ := List.forall_mem_cons.1 h
    obtain ⟨ds, hds, hblocks⟩ := ih hmodels
    rw [definitions, hname]
    by_cases hprivate : IsPrivate name
    · exact ⟨ds, (if_pos hprivate).trans hds, hblocks⟩
    · obtain ⟨d, hd, hblock⟩ := isBlock_definition (hwords hprivate)
      refine ⟨d :: ds, (if_neg hprivate).trans ?_, List.forall_mem_cons.2 ⟨hblock, hblocks⟩⟩
      rw [hd, hds]
      rfl

/-- A model with a base and a field in a field; the name of the base is not written. -/
def ownerFields : Mapping :=
  [(.text "__extends", .text "bases"), (.text "id", .text "integer"),
   (.text "owner", .map [(.text "type", .text "nullable")])]

def userModels : Mapping :=
  [(.text "users", .map ownerFields), (.text "bases", .map []), (.text "_hidden-base", .null)]

/-- An action with an attribute. -/
def createIssue : Flow :=
  { name := "create-issue", type := "action", cadence := none, trackDeletes := false
    autoStart := true, returns := [], models := [], description := "", scopes := []
    attributes := [(.text "label", .text "bug")] }

/-- A model with a field of a builtin type. -/
def contactModels : Mapping := [(.text "Contact", .map [(.text "first-name", .text "string")])]

/-- The text of its file. -/
def contactText : String :=
  Text.joined "\n" ["export interface Contact \x7b", "  first-name: string;", "\x7d", "",
    "export const NangoFlows = [] as const;", ""]

end TypeDefinitions
end FlowPipeline
