import FlowPipeline.Proofs.WrittenNumbers

/-! # Written values as expressions

JSON in any layout is an expression of scripts: texts in quotes, numbers with an optional sign,
words, and lists and objects of such values.
-/

namespace FlowPipeline.Script
open Scanner

/-! ## Texts -/

variable {cs rest : List Char}

/-- The terminals within a text. -/
abbrev Scanner.within : Terminals := .ofList [.doubleText, .escape, .doubleQuote]

/-- The characters that stand for themselves within a text. -/
def inText (c : Char) : Bool := c != '"' && c != '\\' && c != '\r' && c != '\n'

theorem contextual_within (p : Place) : contextual within p = none := by
  obtain ⟨htemplate, hline, hsignature, hmark, hescape⟩ : within.contains .templateText = false ∧
      within.contains .lineEnd = false ∧ within.contains .signatureEnd = false ∧
      within.contains .ternaryMark = false ∧ within.contains .escape = true := by decide
  simp [contextual, htemplate, hline, hsignature, hmark, hescape]

theorem inner_within (p : Place) : inner within p =
    if 0 < run inText p.rest then some ⟨some .doubleText, p, p.advance (run inText p.rest), false⟩
    else if 0 < escape p.rest then some ⟨some .escape, p, p.advance (escape p.rest), false⟩
    else none := by
  have hmember : innerTokens.map (fun x => within.contains x.1) =
      [true, false, true, false, false, false] := by decide
  simp only [innerTokens, List.map_cons, List.cons.injEq] at hmember
  obtain ⟨h₁, h₂, h₃, h₄, h₅, h₆, -⟩ := hmember
  simp only [Scanner.inner, innerTokens, List.findSome?_cons, h₁, h₂, h₃, h₄, h₅, h₆, if_true,
    Bool.false_eq_true, if_false, Nat.lt_irrefl]
  unfold inText
  split_ifs <;> rfl

theorem token_within {p : Place} {k : Token} (h : inner within p = some k) :
    token within p = k := by
  rw [token, contextual_within, h]
  rfl

theorem stands_doubleText {run : List Char} (hne : run ≠ []) (hrun : ∀ c ∈ run, inText c = true)
    (hrest : ∀ c ∈ rest.head?, inText c = false) : Stands .doubleText (run ++ rest) rest := by
  intro p hp
  have hlength : Scanner.run inText p.rest = run.length := by
    have hnone : rest.takeWhile inText = [] := by
      rcases rest with _ | ⟨c, cs⟩
      · rfl
      · exact List.takeWhile_cons_of_neg (by simp [hrest c rfl])
    rw [hp, Scanner.run, List.takeWhile_append_of_pos hrun, hnone, List.append_nil]
  have hinner := inner_within p
  rw [hlength, if_pos (List.length_pos_iff.2 hne)] at hinner
  show (token within p).terminal = _ ∧ (token within p).stop.rest = _
  rw [token_within hinner]
  exact ⟨rfl, by rw [Place.rest_advance, hp, List.drop_left]⟩

theorem stands_escape (hslash : cs.head? = some '\\') (h : escape (cs ++ rest) = cs.length) :
    Stands .escape (cs ++ rest) rest := by
  intro p hp
  obtain ⟨ds, rfl⟩ : ∃ ds, cs = '\\' :: ds := by
    rcases cs with _ | ⟨c, ds⟩
    · cases hslash
    · exact ⟨ds, by rw [Option.some.inj hslash]⟩
  have hinner := inner_within p
  rw [hp, h, if_neg (by simp [run, inText]), if_pos (by simp)] at hinner
  show (token within p).terminal = _ ∧ (token within p).stop.rest = _
  rw [token_within hinner]
  exact ⟨rfl, by rw [Place.rest_advance, hp, List.drop_left]⟩

/-- A unit that stands for itself in quotes. -/
def isOwn (u : UInt16) : Bool :=
  decide (32 ≤ u.toNat ∧ u.toNat < 127 ∧ u.toNat ≠ 34 ∧ u.toNat ≠ 92)

theorem escapeUnit_own {u : UInt16} (h : isOwn u = true) :
    ∃ c, Json.escapeUnit u = [c] ∧ inText c = true := by
  obtain ⟨hlow, hhigh, hquote, hslash⟩ := of_decide_eq_true h
  refine ⟨Char.ofNat u.toNat, ?_, ?_⟩
  · unfold Json.escapeUnit
    dsimp only
    rw [if_neg hquote, if_neg hslash, if_neg (by omega), if_neg (by omega), if_neg (by omega),
      if_neg (by omega), if_neg (by omega), if_pos ⟨hlow, hhigh⟩]
  · have hall : ∀ n < 127, 32 ≤ n → n ≠ 34 → n ≠ 92 → inText (Char.ofNat n) = true := by decide
    exact hall _ hhigh hlow hquote hslash

theorem escape_unit (n : Nat) (h : n < 0x10000) (rest : List Char) :
    escape ('\\' :: 'u' :: (Text.hex 4 n ++ rest)) = 6 := by
  have hhex {d : Nat} (hd : d < 16) : isHex d.digitChar = true := by
    rw [isHex, Json.hexDigit?_digitChar hd]
    rfl
  have hbrace {d : Nat} (hd : d < 16) : d.digitChar ≠ '\x7b' := by
    have hall : ∀ d < 16, Nat.digitChar d ≠ '\x7b' := by decide
    exact hall d hd
  rw [Json.hex_four h]
  have hrun : 4 ≤ run isHex (Nat.digitChar (n / 4096) :: Nat.digitChar (n / 256 % 16) ::
      Nat.digitChar (n / 16 % 16) :: Nat.digitChar (n % 16) :: rest) := by
    simp [run, hhex (by omega : n / 4096 < 16), hhex (Nat.mod_lt _ (by decide : 16 > 0))]
  simp only [List.cons_append, List.nil_append]
  generalize Nat.digitChar (n / 256 % 16) :: Nat.digitChar (n / 16 % 16) ::
    Nat.digitChar (n % 16) :: rest = behind at hrun ⊢
  have hcode : codeEscape ('u' :: Nat.digitChar (n / 4096) :: behind) = 5 := by
    rw [codeEscape, if_pos hrun]
    intro r heq
    exact hbrace (by omega : n / 4096 < 16) (List.cons.inj heq).1
  simp [escape, hcode, isOctal]

theorem escapeUnit_other {u : UInt16} (h : isOwn u = false) :
    (Json.escapeUnit u).head? = some '\\' ∧
      ∀ rest, escape (Json.escapeUnit u ++ rest) = (Json.escapeUnit u).length := by
  have hshort : ∀ c ∈ ['"', '\\', 'n', 'r', 't', 'f', 'b'], ∀ rest,
      escape ('\\' :: c :: rest) = 2 := by simp [escape, isOctal]
  have hother := of_decide_eq_false h
  unfold Json.escapeUnit
  dsimp only
  split_ifs with h₁ h₂ h₃ h₄ h₅ h₆ h₇ h₈
  on_goal 9 =>
    have hlength : (Text.hex 4 u.toNat).length = 4 := by rw [Json.hex_four u.toNat_lt]; rfl
    refine ⟨rfl, fun rest => ?_⟩
    show escape ('\\' :: 'u' :: (Text.hex 4 u.toNat ++ rest)) = (Text.hex 4 u.toNat).length + 2
    rw [escape_unit _ u.toNat_lt, hlength]
  on_goal 8 => exact absurd ⟨h₈.1, h₈.2, h₁, h₂⟩ hother
  all_goals exact ⟨rfl, hshort _ (by decide)⟩

/-- What may stand between quotes. -/
def textPart : Rule := .oneOf [.one (.terminal .doubleText), .one (.terminal .escape)]

theorem reads_doubleText {run : List Char} (hne : run ≠ []) (hrun : ∀ c ∈ run, inText c = true)
    (hrest : ∀ c ∈ rest.head?, inText c = false) : Reads textPart (run ++ rest) rest :=
  .oneOf List.mem_cons_self (.terminal (stands_doubleText hne hrun hrest))

theorem reads_escape {u : UInt16} (hu : isOwn u = false) (rest : List Char) :
    Reads textPart (Json.escapeUnit u ++ rest) rest := by
  obtain ⟨hslash, hlength⟩ := escapeUnit_other hu
  exact .oneOf (by simp) (.terminal (stands_escape hslash (hlength rest)))

/-- Units are read in runs of those that stand for themselves, with escapes between them. The run
that is still open is carried along. -/
theorem repeats_units (us : List UInt16) (run : List Char) (hne : run ≠ [] ∨ us ≠ [])
    (hrun : ∀ c ∈ run, inText c = true) (rest : List Char) :
    Reads.Repeats textPart (run ++ (us.flatMap Json.escapeUnit ++ '"' :: rest)) ('"' :: rest) := by
  induction us generalizing run with
  | nil => exact .one (reads_doubleText (hne.resolve_right (by simp)) hrun (by simp [inText]))
  | cons u us ih =>
    rw [List.flatMap_cons, List.append_assoc]
    by_cases hu : isOwn u = true
    · obtain ⟨c, hc, hin⟩ := escapeUnit_own hu
      rw [hc, ← List.append_assoc]
      refine ih (run ++ [c]) (.inl (by simp)) fun d hd => ?_
      rcases List.mem_append.1 hd with hd | hd
      · exact hrun d hd
      · exact List.mem_singleton.1 hd ▸ hin
    · replace hu : isOwn u = false := by simpa using hu
      have hescape : Reads.Repeats textPart
          (Json.escapeUnit u ++ (us.flatMap Json.escapeUnit ++ '"' :: rest)) ('"' :: rest) := by
        rcases us with _ | ⟨v, us⟩
        · exact .one (reads_escape hu _)
        · exact .more (reads_escape hu _) (ih [] (.inr (by simp)) nofun)
      rcases hopen : run with _ | ⟨c, cs⟩
      · exact hescape
      · rw [← hopen]
        refine .more (reads_doubleText (by simp [hopen]) hrun fun d hd => ?_) hescape
        obtain ⟨hslash, -⟩ := escapeUnit_other hu
        obtain ⟨ds, hds⟩ : ∃ ds, Json.escapeUnit u = '\\' :: ds := by
          rcases hunit : Json.escapeUnit u with _ | ⟨e, ds⟩
          · simp [hunit] at hslash
          · rw [hunit] at hslash
            exact ⟨ds, by rw [Option.some.inj hslash]⟩
        rw [hds] at hd
        obtain rfl : '\\' = d := Option.some.inj hd
        decide

/-- A text in quotes, perhaps behind blanks. -/
theorem reads_text {blanks : List Char} (hblanks : ∀ c ∈ blanks, isBlank c = true)
    (us : List UInt16) (rest : List Char) :
    Reads (.one (.phrase .text)) (blanks ++ (Json.quote us ++ rest)) rest := by
  have hquote (cs : List Char) : Stands .doubleQuote ('"' :: cs) cs :=
    stands_sign rfl (by decide)
  have hparts : Reads (.optional (.one (.phrase .doubleTextParts)))
      (us.flatMap Json.escapeUnit ++ '"' :: rest) ('"' :: rest) := by
    rcases us with _ | ⟨u, us⟩
    · exact .absent _ _
    · exact .present (.repeated rfl (repeats_units (u :: us) [] (.inr (by simp)) nofun rest))
  have htext : Json.quote us ++ rest = '"' :: (us.flatMap Json.escapeUnit ++ '"' :: rest) := by
    simp [Json.quote]
  rw [htext]
  exact .plain rfl <| .oneOf List.mem_cons_self <|
    .seq_cons (.terminal ((hquote _).of_blanks rfl hblanks)) <| .seq_cons hparts <|
    .seq_cons (.terminal (hquote _)) (.seq_nil _)

/-! ## Expressions -/

/-- What stands behind a value: it ends words and numbers. -/
def EndsValue (rest : List Char) : Prop :=
  ∀ c ∈ rest.head?, isWordEnd c = true ∧ c ∉ ['\\', '\x7b', '.']

theorem EndsValue.endsWord (h : EndsValue rest) : EndsWord rest := fun c hc =>
  ⟨(h c hc).1, fun he => (h c hc).2 (by simp [he]), fun he => (h c hc).2 (by simp [he])⟩

theorem EndsValue.endsNumber (h : EndsValue rest) : EndsNumber rest := fun c hc =>
  ⟨(h c hc).1, fun he => (h c hc).2 (by simp [he])⟩

abbrev IsExpression : List Char → Prop := IsPhrase .expression EndsValue

theorem reads_expression (h : Reads (.one (.phrase .primary)) cs rest) :
    Reads (.one (.phrase .expression)) cs rest := .plain rfl (.oneOf (by simp) h)

theorem isExpression_numeral (h : IsNumeral cs) : IsExpression cs :=
  fun _ _ hblanks hrest =>
    reads_expression (.alone (by decide) ((stands_number h hrest.endsNumber).of_blanks rfl hblanks))

/-- Names and the words that are values. -/
theorem isExpression_word (hw : IsWord cs) (h : IsAlone .primary (wordTerminal cs)) :
    IsExpression cs :=
  fun _ _ hblanks hrest => reads_expression (.alone h (stands_word hw hblanks hrest.endsWord))

/-- A minus sign and what starts as numbers do. -/
theorem isExpression_negated {c : Char} (hc : c ∈ "0123456789I".toList)
    (h : IsExpression (c :: cs)) : IsExpression ('-' :: c :: cs) := by
  intro blanks rest hblanks hrest
  have hsigns : Terminal.signs.filter (fun s => s.1.isPrefixOf ('-' :: (c :: cs ++ rest))) =
      [(['-'], .minus)] := by
    have hmem : "0123456789I".toList = ['0', '1', '2', '3', '4', '5', '6', '7', '8', '9', 'I'] :=
      rfl
    simp only [hmem, List.mem_cons, List.not_mem_nil, or_false] at hc
    rcases hc with rfl | rfl | rfl | rfl | rfl | rfl | rfl | rfl | rfl | rfl | rfl <;> rfl
  have hminus := stands_sign hsigns (by decide)
  have hvalue := h [] rest nofun hrest
  exact .plain rfl <| .oneOf (r := .one (.phrase .unary)) (by simp) <| .single rfl <|
    .seq_cons (.oneOf (by simp) (.terminal (hminus.of_blanks rfl hblanks))) <|
    .seq_cons hvalue (.seq_nil _)

theorem isExpression_signed (negative : Prop) [Decidable negative] (h : IsNumeral cs) :
    IsExpression ((if negative then ['-'] else []) ++ cs) := by
  split_ifs
  · obtain ⟨c, ds, rfl, hdigit⟩ := h.exists_cons
    have hc : c ∈ "0123456789I".toList := List.mem_append_left ['I'] (mem_digits hdigit)
    exact isExpression_negated hc (isExpression_numeral h)
  · exact isExpression_numeral h

theorem isExpression_int (i : Int) : IsExpression (toString i).toList := by
  rw [Json.toList_toString]
  exact isExpression_signed _ (isNumeral_toDigits _)

theorem isExpression_float (x : Binary64) : IsExpression (x.render Json.spelling).toList := by
  have hinfinity : IsExpression "Infinity".toList :=
    isExpression_word (by decide) (by decide)
  cases x with
  | finite s m e =>
    simp only [Binary64.render, String.toList_ofList]
    exact isExpression_signed _ (isNumeral_decimal _)
  | infinite s =>
    cases s with
    | false => exact hinfinity
    | true => exact isExpression_negated (by decide) hinfinity
  | nan => exact isExpression_word (by decide) (by decide)

theorem isExpression_quote (us : List UInt16) : IsExpression (Json.quote us) :=
  fun _ rest hblanks _ =>
    reads_expression (.plain rfl (.oneOf (by simp) (reads_text hblanks us rest)))

/-! ## Lists and objects -/

theorem EndsValue.cons {c : Char} (hend : isWordEnd c = true) (hc : c ∉ ['\\', '\x7b', '.'])
    (cs : List Char) : EndsValue (c :: cs) := by
  rintro d ⟨⟩
  exact ⟨hend, hc⟩

section

variable {l : Json.Layout} {depth : Nat}

theorem isBlank_of_isSpace {c : Char} (h : Json.isSpace c = true) : isBlank c = true := by
  simp only [Json.isSpace, Bool.or_eq_true, beq_iff_eq] at h
  rcases h with ((rfl | rfl) | rfl) | rfl <;> decide

theorem isBlank_newline (l : Json.Layout) (depth : Nat) : ∀ c ∈ l.newline depth, isBlank c = true :=
  fun c hc => isBlank_of_isSpace (Json.isSpace_newline l depth c hc)

/-- The break in front of what closes a list or an object. -/
theorem endsValue_newline (l : Json.Layout) (depth : Nat) {c : Char} (hend : isWordEnd c = true)
    (hc : c ∉ ['\\', '\x7b', '.']) (rest : List Char) :
    EndsValue (l.newline depth ++ c :: rest) := by
  unfold Json.Layout.newline
  split
  · exact .cons hend hc rest
  · exact .cons (by decide) (by decide) _

theorem writeItems_cons (l : Json.Layout) (depth : Nat) (j : Json) (items : List Json) :
    l.writeItems depth (j :: items) = l.write depth j ++
      items.flatMap fun k => l.item.toList ++ (l.newline depth ++ l.write depth k) := by
  induction items generalizing j with
  | nil => simp [Json.writeItems_singleton]
  | cons k items ih =>
    rw [Json.writeItems_cons_cons, ih k, List.flatMap_cons]
    simp

/-- The text of a member. -/
def memberText (l : Json.Layout) (depth : Nat) (m : List UInt16 × Json) : List Char :=
  Json.quote m.1 ++ (l.key.toList ++ l.write depth m.2)

theorem writeMembers_cons (l : Json.Layout) (depth : Nat) (m : List UInt16 × Json)
    (members : List (List UInt16 × Json)) :
    l.writeMembers depth (m :: members) = memberText l depth m ++
      members.flatMap fun n => l.item.toList ++ (l.newline depth ++ memberText l depth n) := by
  induction members generalizing m with
  | nil => simp [Json.writeMembers_singleton, memberText]
  | cons n members ih =>
    rw [Json.writeMembers_cons_cons, ih n, List.flatMap_cons]
    simp [memberText]

/-- What stands behind a separator. -/
theorem Stands.separator (hl : l.IsSpaced) (depth : Nat) (cs : List Char) :
    ∃ blanks, (∀ c ∈ blanks, isBlank c = true) ∧
      Stands .comma (l.item.toList ++ (l.newline depth ++ cs)) (blanks ++ cs) := by
  obtain ⟨t, hitem, ht⟩ := hl.item
  refine ⟨t ++ l.newline depth, fun c hc => ?_, ?_⟩
  · exact (List.mem_append.1 hc).elim (isBlank_of_isSpace ∘ ht c) (isBlank_newline l depth c)
  · rw [hitem, List.append_assoc, List.cons_append]
    exact stands_sign rfl (by decide)

theorem endsValue_separator (hl : l.IsSpaced) (cs : List Char) :
    EndsValue (l.item.toList ++ cs) := by
  obtain ⟨t, hitem, -⟩ := hl.item
  rw [hitem]
  exact .cons (by decide) (by decide) _

/-- The parts of a list or an object, each behind a break and all but the first behind a
separator. -/
theorem reads_row {α : Type} {part : Rule} {p : Phrase} {text : α → List Char}
    (hl : l.IsSpaced) (depth : Nat)
    (hmore : forms p = Form.repeated p (.seq [.one (.terminal .comma), .optional part]))
    {x : α} {xs : List α}
    (h : ∀ y ∈ x :: xs, ∀ blanks rest, (∀ c ∈ blanks, isBlank c = true) → EndsValue rest →
      Reads part (blanks ++ (text y ++ rest)) rest) (hrest : EndsValue rest) :
    Reads (.seq [.optional part, .optional (.one (.phrase p))])
      (l.newline depth ++ (text x ++
        ((xs.flatMap fun y => l.item.toList ++ (l.newline depth ++ text y)) ++ rest))) rest := by
  obtain ⟨hx, hxs⟩ := List.forall_mem_cons.1 h
  have hends : ∀ y ∈ xs, ∀ cs, EndsValue ((l.item.toList ++ (l.newline depth ++ text y)) ++ cs) :=
    fun y _ cs => by
      rw [List.append_assoc]
      exact endsValue_separator hl _
  have hreads : ∀ y ∈ xs, ∀ cs, EndsValue cs →
      Reads (.seq [.one (.terminal .comma), .optional part])
        ((l.item.toList ++ (l.newline depth ++ text y)) ++ cs) cs := by
    intro y hy cs hcs
    obtain ⟨t, ht, hcomma⟩ := Stands.separator hl depth (text y ++ cs)
    rw [List.append_assoc, List.append_assoc]
    exact .seq_cons (.terminal hcomma) (.seq_cons (.present (hxs y hy t cs ht hcs)) (.seq_nil _))
  have hbehind : EndsValue
      ((xs.flatMap fun y => l.item.toList ++ (l.newline depth ++ text y)) ++ rest) := by
    rcases xs with _ | ⟨y, ys⟩
    · exact hrest
    · rw [List.flatMap_cons, List.append_assoc]
      exact hends y List.mem_cons_self _
  exact .seq_cons (.present (hx _ _ (isBlank_newline l depth) hbehind)) <|
    .seq_cons (.optional_repeated EndsValue _ xs hmore hreads hends hrest) (.seq_nil _)

theorem isExpression_list (hl : l.IsSpaced) {items : List Json}
    (h : ∀ j ∈ items, IsExpression (l.write (depth + 1) j)) :
    IsExpression (l.write depth (.list items)) := by
  intro blanks rest hblanks _
  have hopen (cs : List Char) : Stands .leftBracket (blanks ++ '[' :: cs) cs :=
    (stands_sign rfl (by decide)).of_blanks rfl hblanks
  have hclose : Stands .rightBracket (']' :: rest) rest :=
    stands_sign rfl (by decide)
  suffices harray : Reads (.one (.phrase .array)) (blanks ++ (l.write depth (.list items) ++ rest))
      rest from reads_expression (.plain rfl (.oneOf (by simp) harray))
  rcases items with _ | ⟨j, items⟩
  · rw [Json.Layout.write]
    exact .plain rfl <| .seq_cons (.terminal (hopen _)) <| .seq_cons (.absent _ _) <|
      .seq_cons (.terminal hclose) (.seq_nil _)
  · have hlast : EndsValue (l.newline depth ++ ']' :: rest) :=
      endsValue_newline l depth (by decide) (by decide) rest
    have hrow := reads_row hl (depth + 1) (p := .moreItems) rfl
      (fun k hk cs ds hcs hds => .oneOf List.mem_cons_self (h k hk cs ds hcs hds)) hlast
    have htext : l.write depth (.list (j :: items)) ++ rest = '[' :: (l.newline (depth + 1) ++
        (l.write (depth + 1) j ++ ((items.flatMap fun k => l.item.toList ++
          (l.newline (depth + 1) ++ l.write (depth + 1) k)) ++
            (l.newline depth ++ ']' :: rest)))) := by
      rw [Json.write_list_cons, writeItems_cons]
      simp
    rw [htext]
    exact .plain rfl <| .seq_cons (.terminal (hopen _)) <| .seq_cons (.present hrow) <|
      .seq_cons (.terminal (hclose.of_blanks rfl (isBlank_newline l depth))) (.seq_nil _)

/-- A brace that no bar follows. -/
theorem stands_leftBrace {c : Char} (hc : c ∈ ['\n', '"', '\x7d']) (cs : List Char) :
    Stands .leftBrace ('\x7b' :: c :: cs) (c :: cs) := by
  simp only [List.mem_cons, List.not_mem_nil, or_false] at hc
  rcases hc with rfl | rfl | rfl <;> exact stands_sign rfl (by decide)

theorem reads_member (hl : l.IsSpaced) {m : List UInt16 × Json}
    (h : IsExpression (l.write depth m.2)) {blanks : List Char}
    (hblanks : ∀ c ∈ blanks, isBlank c = true) (hrest : EndsValue rest) :
    Reads (.one (.phrase .pair)) (blanks ++ (memberText l depth m ++ rest)) rest := by
  obtain ⟨t, hkey, ht⟩ := hl.key
  have hcolon : Stands .colon (l.key.toList ++ (l.write depth m.2 ++ rest))
      (t ++ (l.write depth m.2 ++ rest)) := by
    rw [hkey]
    exact stands_sign rfl (by decide)
  have hname : Reads (.one (.phrase .propertyName)) (blanks ++ (memberText l depth m ++ rest))
      (l.key.toList ++ (l.write depth m.2 ++ rest)) := by
    rw [memberText, List.append_assoc, List.append_assoc]
    exact .plain rfl (.oneOf (by simp) (reads_text hblanks m.1 _))
  exact .plain rfl <| .seq_cons hname <| .seq_cons (.terminal hcolon) <|
    .seq_cons (h t rest (fun c hc => isBlank_of_isSpace (ht c hc)) hrest) (.seq_nil _)

theorem isExpression_object (hl : l.IsSpaced) {members : List (List UInt16 × Json)}
    (h : ∀ m ∈ members, IsExpression (l.write (depth + 1) m.2)) :
    IsExpression (l.write depth (.object members)) := by
  intro blanks rest hblanks _
  have hclose : Stands .rightBrace ('\x7d' :: rest) rest :=
    stands_sign rfl (by decide)
  suffices hobject : Reads (.one (.phrase .object))
      (blanks ++ (l.write depth (.object members) ++ rest)) rest from
    reads_expression (.plain rfl (.oneOf (by simp) hobject))
  rcases members with _ | ⟨m, members⟩
  · have hopen := (stands_leftBrace (c := '\x7d') (by decide) rest).of_blanks rfl hblanks
    rw [Json.Layout.write]
    exact .single rfl <| .seq_cons (.terminal hopen) <| .seq_cons (.absent _ _) <|
      .seq_cons (.terminal hclose) (.seq_nil _)
  · have hlast : EndsValue (l.newline depth ++ '\x7d' :: rest) :=
      endsValue_newline l depth (by decide) (by decide) rest
    have hrow := reads_row hl (depth + 1) (p := .moreMembers) rfl
      (fun n hn cs ds hcs hds => .oneOf List.mem_cons_self (reads_member hl (h n hn) hcs hds)) hlast
    have htext : l.write depth (.object (m :: members)) ++ rest =
        '\x7b' :: (l.newline (depth + 1) ++ (memberText l (depth + 1) m ++
          ((members.flatMap fun n => l.item.toList ++
            (l.newline (depth + 1) ++ memberText l (depth + 1) n)) ++
              (l.newline depth ++ '\x7d' :: rest)))) := by
      rw [Json.write_object_cons, writeMembers_cons]
      simp
    have hopen (cs : List Char) :
        Stands .leftBrace
          (blanks ++ '\x7b' :: (l.newline (depth + 1) ++ (memberText l (depth + 1) m ++ cs)))
          (l.newline (depth + 1) ++ (memberText l (depth + 1) m ++ cs)) := by
      refine Stands.of_blanks rfl hblanks ?_
      unfold Json.Layout.newline memberText Json.quote
      split
      · exact stands_leftBrace (by decide) _
      · exact stands_leftBrace (by decide) _
    rw [htext]
    exact .single rfl <| .seq_cons (.terminal (hopen _)) <| .seq_cons (.present hrow) <|
      .seq_cons (.terminal (hclose.of_blanks rfl (isBlank_newline l depth))) (.seq_nil _)

end

mutual

/-- JSON is an expression in every layout that separates its parts by spaces. -/
theorem isExpression_write {l : Json.Layout} (hl : l.IsSpaced) (depth : Nat) (j : Json) :
    IsExpression (l.write depth j) := by
  match j with
  | .null =>
    rw [Json.Layout.write]
    exact isExpression_word (by decide) (by decide)
  | .bool false =>
    rw [Json.Layout.write]
    exact isExpression_word (by decide) (by decide)
  | .bool true =>
    rw [Json.Layout.write]
    exact isExpression_word (by decide) (by decide)
  | .int i =>
    rw [Json.Layout.write]
    exact isExpression_int i
  | .float x =>
    rw [Json.Layout.write]
    exact isExpression_float x
  | .text us =>
    rw [Json.Layout.write]
    exact isExpression_quote us
  | .list items => exact isExpression_list hl (isExpression_items hl (depth + 1) items)
  | .object members => exact isExpression_object hl (isExpression_members hl (depth + 1) members)

theorem isExpression_items {l : Json.Layout} (hl : l.IsSpaced) (depth : Nat) (items : List Json) :
    ∀ j ∈ items, IsExpression (l.write depth j) := by
  match items with
  | [] => exact nofun
  | j :: items =>
    exact List.forall_mem_cons.2 ⟨isExpression_write hl depth j, isExpression_items hl depth items⟩

theorem isExpression_members {l : Json.Layout} (hl : l.IsSpaced) (depth : Nat)
    (members : List (List UInt16 × Json)) :
    ∀ m ∈ members, IsExpression (l.write depth m.2) := by
  match members with
  | [] => exact nofun
  | (_, j) :: members =>
    exact List.forall_mem_cons.2
      ⟨isExpression_write hl depth j, isExpression_members hl depth members⟩

end

end FlowPipeline.Script
