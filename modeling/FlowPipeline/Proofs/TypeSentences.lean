import FlowPipeline.Proofs.WrittenValues

/-! # Sentences of type definitions

Types, interfaces with their members in lines, and constants are read by the grammar wherever their
names are words. Statements on lines of their own are a script.
-/

namespace FlowPipeline.Script
open Scanner

variable {cs rest w : List Char}

/-! ## Types -/

/-- A type that is a single word. -/
def IsTypeWord (w : List Char) : Prop :=
  IsWord w ∧ ∃ p ∈ [Phrase.primaryType, .predefinedType, .literalType], IsAlone p (wordTerminal w)

instance (w : List Char) : Decidable (IsTypeWord w) := inferInstanceAs (Decidable (_ ∧ _))

abbrev IsType : List Char → Prop := IsPhrase .type EndsWord

theorem reads_type (h : Reads (.one (.phrase .primaryType)) cs rest) :
    Reads (.one (.phrase .type)) cs rest := .phrase List.mem_cons_self (.oneOf List.mem_cons_self h)

theorem EndsWord.cons {c : Char} (hend : isWordEnd c = true) (hc : c ∉ ['\\', '\x7b'])
    (cs : List Char) : EndsWord (c :: cs) := by
  rintro d ⟨⟩
  simpa [hend] using hc

theorem isType_word (h : IsTypeWord w) : IsType w := by
  intro blanks rest hblanks hrest
  obtain ⟨hw, p, hp, halone⟩ := h
  have hword : Reads (.one (.phrase p)) (blanks ++ (w ++ rest)) rest :=
    .alone halone (stands_word hw hblanks hrest)
  simp only [List.mem_cons, List.not_mem_nil, or_false] at hp
  rcases hp with rfl | rfl | rfl
  · exact reads_type hword
  · exact reads_type (.plain rfl (.oneOf (by simp) hword))
  · exact reads_type (.plain rfl (.oneOf (by simp) hword))

/-- Another alternative behind a bar. -/
theorem isType_union {text : List Char} (h : IsType text) (hw : IsTypeWord w) :
    IsType (text ++ (' ' :: '|' :: ' ' :: w)) := by
  intro blanks rest hblanks hrest
  have hbar : Stands .bar (' ' :: '|' :: ' ' :: (w ++ rest)) (' ' :: (w ++ rest)) :=
    Stands.of_blanks rfl isBlank_space
      (stands_sign rfl (by decide))
  have hunion : Reads (.one (.phrase .unionType))
      (blanks ++ (text ++ ' ' :: '|' :: ' ' :: (w ++ rest))) rest :=
    .single rfl <|
      .seq_cons (.present (h blanks _ hblanks (.cons (by decide) (by decide) _))) <|
      .seq_cons (.terminal hbar) <|
      .seq_cons (isType_word hw [' '] rest isBlank_space hrest) (.seq_nil _)
  rw [List.append_assoc]
  exact reads_type (.plain rfl (.oneOf (by simp) hunion))

/-! ## Members of types -/

/-- A word that a member may have as its name. -/
def IsMemberName (w : List Char) : Prop := IsWord w ∧ IsAlone .propertyName (wordTerminal w)

instance (w : List Char) : Decidable (IsMemberName w) := inferInstanceAs (Decidable (_ ∧ _))

abbrev IsMember : List Char → Prop := IsPhrase .propertySignature EndsWord

theorem isMember_typed {indent text : List Char} (hindent : ∀ c ∈ indent, isBlank c = true)
    (hw : IsMemberName w) (h : IsType text) : IsMember (indent ++ (w ++ ':' :: ' ' :: text)) := by
  intro blanks rest hblanks hrest
  have hstart : ∀ c ∈ blanks ++ indent, isBlank c = true := List.forall_mem_append.2
    ⟨hblanks, hindent⟩
  have hname : Reads (.one (.phrase .propertyName))
      ((blanks ++ indent) ++ (w ++ (':' :: ' ' :: (text ++ rest))))
      (':' :: ' ' :: (text ++ rest)) :=
    .alone hw.2 (stands_word hw.1 hstart (.cons (by decide) (by decide) _))
  have hcolon : Stands .colon (':' :: ' ' :: (text ++ rest)) (' ' :: (text ++ rest)) :=
    stands_sign rfl (by decide)
  have htype : Reads (.one (.phrase .ascription)) (':' :: ' ' :: (text ++ rest)) rest :=
    .plain rfl <| .seq_cons (.terminal hcolon) <|
      .seq_cons (h [' '] rest isBlank_space hrest) (.seq_nil _)
  have htext : blanks ++ ((indent ++ (w ++ ':' :: ' ' :: text)) ++ rest) =
      (blanks ++ indent) ++ (w ++ (':' :: ' ' :: (text ++ rest))) := by simp
  rw [htext]
  exact .plain rfl <| .seq_cons (.absent _ _) <| .seq_cons (.absent _ _) <|
    .seq_cons (.absent _ _) <| .seq_cons (.absent _ _) <| .seq_cons hname <|
    .seq_cons (.absent _ _) <| .seq_cons (.present htype) (.seq_nil _)

/-- The lines are members of a type with a semicolon behind each. -/
def AreMembers (lines : List (List Char)) : Prop :=
  ∃ members : List (List Char), lines = members.map (· ++ [';']) ∧ ∀ m ∈ members, IsMember m

theorem areMembers_nil : AreMembers [] := ⟨[], rfl, nofun⟩

theorem areMembers_cons {m : List Char} {lines : List (List Char)} (hm : IsMember m)
    (h : AreMembers lines) : AreMembers ((m ++ [';']) :: lines) := by
  obtain ⟨members, rfl, hmembers⟩ := h
  exact ⟨m :: members, rfl, List.forall_mem_cons.2 ⟨hm, hmembers⟩⟩

/-- Each semicolon is read with the member behind it, and the last one with the closing brace. -/
theorem flatMap_semicolon (members : List (List Char)) (cs : List Char) :
    ';' :: ((members.flatMap fun m => '\n' :: (m ++ [';'])) ++ cs) =
      (members.flatMap fun m => ';' :: '\n' :: m) ++ ';' :: cs := by
  induction members with
  | nil => rfl
  | cons m members ih => simp [ih]

theorem intercalate_cons (sep text : List Char) (texts : List (List Char)) :
    sep.intercalate (text :: texts) = text ++ texts.flatMap (sep ++ ·) := by
  induction texts generalizing text with
  | nil => simp [List.intercalate]
  | cons next texts ih =>
    have hnext : sep.intercalate (text :: next :: texts) =
        text ++ (sep ++ sep.intercalate (next :: texts)) := by simp [List.intercalate]
    rw [hnext, ih, List.flatMap_cons, List.append_assoc]

theorem reads_semicolon (cs : List Char) : Reads statementEnd (';' :: cs) cs :=
  .oneOf (by simp) (.terminal (stands_sign rfl (by decide)))

/-- What closes a type stands on a line of its own. -/
theorem stands_rightBrace {indent : List Char} (hindent : ∀ c ∈ indent, isBlank c = true)
    (rest : List Char) : Stands .rightBrace ('\n' :: (indent ++ '\x7d' :: rest)) rest :=
  have hall : ∀ c ∈ '\n' :: indent, isBlank c = true :=
    List.forall_mem_cons.2 ⟨by decide, hindent⟩
  Stands.of_blanks rfl hall (stands_sign rfl (by decide))

/-- A type that lists its members in lines. -/
theorem reads_objectType {lines : List (List Char)} (h : AreMembers lines)
    {blanks indent : List Char} (hblanks : ∀ c ∈ blanks, isBlank c = true)
    (hindent : ∀ c ∈ indent, isBlank c = true) (rest : List Char) :
    Reads (.one (.phrase .objectType)) (blanks ++ ('\x7b' :: '\n' ::
      (['\n'].intercalate lines ++ '\n' :: (indent ++ '\x7d' :: rest)))) rest := by
  have hopen (cs : List Char) : Stands .leftBrace (blanks ++ ('\x7b' :: '\n' :: cs)) ('\n' :: cs) :=
    (stands_leftBrace (by decide) cs).of_blanks rfl hblanks
  have hclose := stands_rightBrace hindent rest
  obtain ⟨members, rfl, hmembers⟩ := h
  rcases members with _ | ⟨m, members⟩
  · have hempty := hclose.of_blanks rfl isBlank_line
    exact .plain rfl <| .seq_cons (.oneOf List.mem_cons_self (.terminal (hopen _))) <|
      .seq_cons (.absent _ _) <|
      .seq_cons (.oneOf List.mem_cons_self (.terminal hempty)) (.seq_nil _)
  · obtain ⟨hm, hmembers⟩ := List.forall_mem_cons.1 hmembers
    have hends (cs : List Char) : EndsWord (';' :: cs) := .cons (by decide) (by decide) cs
    have hmore := Reads.optional_repeated (p := .moreTypeMembers) EndsWord
      (fun m => ';' :: '\n' :: m) members rfl
      (fun n hn cs hcs => .seq_cons (.oneOf (by simp) (reads_semicolon _)) <|
        .seq_cons (.oneOf (by simp) (hmembers n hn ['\n'] cs isBlank_line hcs)) (.seq_nil _))
      (fun _ _ _ => hends _) (hends ('\n' :: (indent ++ '\x7d' :: rest)))
    have htext : '\n' :: (['\n'].intercalate ((m :: members).map (· ++ [';'])) ++
        '\n' :: (indent ++ '\x7d' :: rest)) =
        ['\n'] ++ (m ++ ((members.flatMap fun n => ';' :: '\n' :: n) ++
          ';' :: '\n' :: (indent ++ '\x7d' :: rest))) := by
      rw [List.map_cons, intercalate_cons, List.flatMap_map, ← flatMap_semicolon]
      simp
    have hbehind : EndsWord ((members.flatMap fun n => ';' :: '\n' :: n) ++
        ';' :: '\n' :: (indent ++ '\x7d' :: rest)) := by
      rcases members with _ | ⟨n, members⟩ <;> exact hends _
    rw [htext]
    exact .plain rfl <| .seq_cons (.oneOf List.mem_cons_self (.terminal (hopen _))) <|
      .seq_cons (.present <| .seq_cons (.absent _ _) <|
        .seq_cons (.oneOf (by simp) (hm ['\n'] _ isBlank_line hbehind)) <| .seq_cons hmore <|
        .seq_cons (.present (.oneOf (by simp) (reads_semicolon _))) (.seq_nil _)) <|
      .seq_cons (.oneOf List.mem_cons_self (.terminal hclose)) (.seq_nil _)

/-! ## Statements -/

/-- A word that is none of the grammar's. -/
def IsName (w : List Char) : Prop := IsWord w ∧ wordTerminal w = .name

instance (w : List Char) : Decidable (IsName w) := inferInstanceAs (Decidable (_ ∧ _))

/-- A name behind a space. -/
theorem stands_name (h : IsName w) (hrest : EndsWord rest) :
    Stands .name (' ' :: (w ++ rest)) rest := by
  have hword := stands_word h.1 isBlank_space hrest
  rwa [h.2] at hword

/-- What an interface extends. -/
def extension (bases : List (List Char)) : List Char :=
  if bases = [] then [] else ' ' :: ("extends".toList ++ ' ' :: [',', ' '].intercalate bases)

theorem reads_extension {bases : List (List Char)} (h : ∀ b ∈ bases, IsName b)
    (hrest : EndsWord rest) :
    Reads (.optional (.one (.phrase .extendedTypes))) (extension bases ++ rest) rest := by
  rcases bases with _ | ⟨b, bases⟩
  · exact .absent _ _
  · obtain ⟨hb, hbases⟩ := List.forall_mem_cons.1 h
    have hends (cs : List Char) : EndsWord (',' :: ' ' :: cs) := .cons (by decide) (by decide) _
    have hextends (cs : List Char) :
        Stands .extendsWord (' ' :: ("extends".toList ++ ' ' :: cs)) (' ' :: cs) :=
      stands_word (w := "extends".toList) (by decide) isBlank_space
        (.cons (by decide) (by decide) _)
    have hcomma (cs : List Char) : Stands .comma (',' :: ' ' :: cs) (' ' :: cs) :=
      stands_sign rfl (by decide)
    have hmore := Reads.optional_repeated (p := .moreExtendedTypes) EndsWord
      (fun b => ',' :: ' ' :: b) bases rfl
      (fun b hb cs hcs => .seq_cons (.terminal (hcomma _)) <|
        .seq_cons (.oneOf List.mem_cons_self (.terminal (stands_name (hbases b hb) hcs)))
          (.seq_nil _))
      (fun _ _ _ => hends _) hrest
    have hbehind : EndsWord ((bases.flatMap fun b => ',' :: ' ' :: b) ++ rest) := by
      rcases bases with _ | ⟨b, bases⟩
      · exact hrest
      · exact hends _
    have htext : extension (b :: bases) ++ rest = ' ' :: ("extends".toList ++
        ' ' :: (b ++ ((bases.flatMap fun b => ',' :: ' ' :: b) ++ rest))) := by
      rw [extension, if_neg (List.cons_ne_nil b bases), intercalate_cons]
      simp
    rw [htext]
    exact .present <| .plain rfl <| .seq_cons (.terminal (hextends _)) <|
      .seq_cons (.oneOf List.mem_cons_self (.terminal (stands_name hb hbehind))) <|
      .seq_cons hmore (.seq_nil _)

/-- A statement ends by itself. -/
abbrev IsStatement : List Char → Prop := IsPhrase .statement fun _ => True

theorem isStatement_export {text : List Char}
    (h : ∀ rest, Reads (.one (.phrase .declaration)) (' ' :: (text ++ rest)) rest) :
    IsStatement ("export".toList ++ ' ' :: text) := by
  intro blanks rest hblanks _
  have hexport : Stands .exportWord (blanks ++ ("export".toList ++ ' ' :: (text ++ rest)))
      (' ' :: (text ++ rest)) :=
    stands_word (w := "export".toList) (by decide) hblanks (.cons (by decide) (by decide) _)
  rw [List.append_assoc]
  refine .plain rfl (.oneOf List.mem_cons_self (.plain rfl ?_))
  exact .oneOf (List.mem_cons_of_mem _ List.mem_cons_self) <| .seq_cons (.absent _ _) <|
    .seq_cons (.terminal hexport) <| .seq_cons (.oneOf List.mem_cons_self (h rest)) (.seq_nil _)

theorem isStatement_interface {bases lines : List (List Char)} (hw : IsName w)
    (hbases : ∀ b ∈ bases, IsName b) (hlines : AreMembers lines) :
    IsStatement ("export".toList ++ ' ' :: ("interface".toList ++ ' ' :: (w ++ (extension bases ++
      ' ' :: '\x7b' :: '\n' :: (['\n'].intercalate lines ++ ['\n', '\x7d']))))) := by
  refine isStatement_export fun rest => ?_
  have hinterface (cs : List Char) :
      Stands .interfaceWord (' ' :: ("interface".toList ++ ' ' :: cs)) (' ' :: cs) :=
    stands_word (w := "interface".toList) (by decide) isBlank_space
      (.cons (by decide) (by decide) _)
  have hbody := reads_objectType hlines isBlank_space (List.forall_mem_nil _) rest
  have hends (cs : List Char) : EndsWord (' ' :: cs) := .cons (by decide) (by decide) _
  have hname (cs : List Char) : EndsWord (extension bases ++ ' ' :: cs) := by
    rw [extension]
    split_ifs
    · exact hends _
    · exact hends _
  simp only [List.append_assoc, List.cons_append, List.nil_append]
  refine .phrase (List.mem_of_getElem? (i := 2) rfl)
    (.oneOf (r := .one (.phrase .interfaceDeclaration)) (by simp) (.plain rfl ?_))
  exact .seq_cons (.terminal (hinterface _)) <|
    .seq_cons (.terminal (stands_name hw (hname _))) <| .seq_cons (.absent _ _) <|
    .seq_cons (reads_extension hbases (hends _)) <| .seq_cons hbody (.seq_nil _)

/-- A constant whose value is not to be changed. -/
theorem isStatement_constant {text : List Char} (hw : IsName w) (h : IsExpression text) :
    IsStatement ("export".toList ++ ' ' :: ("const".toList ++ ' ' :: (w ++ ' ' :: '=' :: ' ' ::
      (text ++ ' ' :: ("as".toList ++ ' ' :: ("const".toList ++ [';'])))))) := by
  refine isStatement_export fun rest => ?_
  have hends (cs : List Char) : EndsWord (' ' :: cs) := .cons (by decide) (by decide) _
  have hconst {cs : List Char} (hcs : EndsWord cs) :
      Stands .constWord (' ' :: ("const".toList ++ cs)) cs :=
    stands_word (w := "const".toList) (by decide) isBlank_space hcs
  have has (cs : List Char) : Stands .asWord (' ' :: ("as".toList ++ ' ' :: cs)) (' ' :: cs) :=
    stands_word (w := "as".toList) (by decide) isBlank_space (hends _)
  have hequals (cs : List Char) : Stands .equals (' ' :: '=' :: ' ' :: cs) (' ' :: cs) :=
    Stands.of_blanks rfl isBlank_space
      (stands_sign rfl (by decide))
  have hvalue : Reads (.one (.phrase .asExpression))
      (' ' :: (text ++ ' ' :: ("as".toList ++ ' ' :: ("const".toList ++ ';' :: rest))))
      (';' :: rest) :=
    .single rfl <| .seq_cons (h [' '] _ isBlank_space (.cons (by decide) (by decide) _)) <|
      .seq_cons (.terminal (has _)) <|
      .seq_cons (.oneOf List.mem_cons_self (.terminal (hconst (.cons (by decide) (by decide) _))))
        (.seq_nil _)
  have hinitial : Reads (.one (.phrase .initialValue)) (' ' :: '=' :: ' ' ::
      (text ++ ' ' :: ("as".toList ++ ' ' :: ("const".toList ++ ';' :: rest)))) (';' :: rest) :=
    .plain rfl <| .seq_cons (.terminal (hequals _)) <|
      .seq_cons (.plain rfl (.oneOf List.mem_cons_self hvalue)) (.seq_nil _)
  have hdeclarator : Reads (.one (.phrase .declarator)) (' ' :: (w ++ ' ' :: '=' :: ' ' ::
      (text ++ ' ' :: ("as".toList ++ ' ' :: ("const".toList ++ ';' :: rest))))) (';' :: rest) :=
    .phrase List.mem_cons_self <|
      .seq_cons (.oneOf List.mem_cons_self (.terminal (stands_name hw (hends _)))) <|
      .seq_cons (.absent _ _) <| .seq_cons (.present hinitial) (.seq_nil _)
  simp only [List.append_assoc, List.cons_append, List.nil_append]
  refine .phrase List.mem_cons_self
    (.oneOf (r := .one (.phrase .lexicalDeclaration)) (by simp) (.plain rfl ?_))
  exact .seq_cons (.oneOf (by simp) (.terminal (hconst (hends _)))) <| .seq_cons hdeclarator <|
    .seq_cons (.absent _ _) <| .seq_cons (reads_semicolon rest) (.seq_nil _)

/-! ## Scripts -/

/-- The text is a statement on lines of its own. -/
def IsBlock (text : List Char) : Prop :=
  ∃ statement, text = statement ++ ['\n'] ∧ IsStatement statement

theorem stands_finish : Stands .finish ['\n'] [] := by
  suffices hend : Stands .finish [] [] from hend.of_blanks rfl isBlank_line
  intro p hp
  have hstart : p.dropWhile isBlank = p := by
    rw [Place.dropWhile, hp]
    rfl
  have hrivals : Terminal.finish.rivals = free := rfl
  rw [hrivals, token, contextual_free, inner_free]
  simp only [Option.none_or, hstart, hp]
  exact ⟨trivial, hp⟩

theorem repeats_blocks {blocks : List (List Char)} (h : ∀ b ∈ blocks, IsBlock b) {last : List Char}
    (hlast : IsStatement last) {blanks : List Char} (hblanks : ∀ c ∈ blanks, isBlank c = true) :
    Reads.Repeats (.one (.phrase .statement))
      (blanks ++ (['\n'].intercalate blocks ++ '\n' :: (last ++ ['\n']))) ['\n'] := by
  have hlines : ∀ c ∈ ['\n', '\n'], isBlank c = true := List.all_eq_true.1 (by decide)
  have hend {blanks : List Char} (hblanks : ∀ c ∈ blanks, isBlank c = true) :
      Reads.Repeats (.one (.phrase .statement)) (blanks ++ (last ++ ['\n'])) ['\n'] :=
    .one (hlast blanks _ hblanks trivial)
  induction blocks generalizing blanks with
  | nil =>
    have hall : ∀ c ∈ blanks ++ ['\n'], isBlank c = true :=
      List.forall_mem_append.2 ⟨hblanks, isBlank_line⟩
    simpa [List.intercalate] using hend hall
  | cons b blocks ih =>
    obtain ⟨⟨statement, rfl, hstatement⟩, hblocks⟩ := List.forall_mem_cons.1 h
    have hfirst (rest : List Char) := hstatement blanks rest hblanks trivial
    rcases blocks with _ | ⟨b, blocks⟩
    · simpa [List.intercalate] using Reads.Repeats.more (hfirst _) (hend hlines)
    · simpa [List.intercalate] using Reads.Repeats.more (hfirst _) (ih hblocks hlines)

/-- Statements on lines of their own are a script. -/
theorem isScript_blocks {blocks : List (List Char)} (h : ∀ b ∈ blocks, IsBlock b)
    {last : List Char} (hlast : IsStatement last) {source : String}
    (hsource : source.toList = ['\n'].intercalate blocks ++ '\n' :: (last ++ ['\n'])) :
    IsScript source := by
  refine ⟨['\n'], ?_, stands_finish⟩
  have hstatements := repeats_blocks h hlast (List.forall_mem_nil _)
  rw [hsource]
  exact .plain rfl <| .seq_cons (.absent _ _) <|
    .seq_cons (.present (.repeated rfl hstatements)) (.seq_nil _)

end FlowPipeline.Script
