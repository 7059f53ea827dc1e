import FlowPipeline.Json.Read
import Mathlib.Tactic.Common

/-! # Reading written JSON

Whatever the layout, written JSON is read back as it was: the units of texts, the order of items and
that of members. Where a value ends is told by the character behind it. The reader follows as many
lists and objects within each other as it is told to.
-/

namespace FlowPipeline.Json

/-! ## Texts -/

/-- One digit more stands for the remainder. -/
theorem hex_succ (k n : Nat) :
    Text.hex (k + 2) n = Text.hex (k + 1) (n / 16) ++ [Nat.digitChar (n % 16)] := by
  unfold Text.hex
  by_cases h : n < 16
  · rw [Nat.toDigits_of_lt_base h, Nat.div_eq_of_lt h, Nat.mod_eq_of_lt h, Nat.toDigits_zero]
    simp [List.replicate_succ']
  · rw [Nat.toDigits_of_base_le (by decide) (Nat.le_of_not_lt h)]
    simp

theorem hex_four {n : Nat} (h : n < 0x10000) :
    Text.hex 4 n = [Nat.digitChar (n / 4096), Nat.digitChar (n / 256 % 16),
      Nat.digitChar (n / 16 % 16), Nat.digitChar (n % 16)] := by
  have hone : Text.hex 1 (n / 4096) = [Nat.digitChar (n / 4096)] := by
    rw [Text.hex, Nat.toDigits_of_lt_base (by omega)]
    rfl
  have hsquare : n / 16 / 16 = n / 256 := Nat.div_div_eq_div_mul n 16 16
  have hcube : n / 256 / 16 = n / 4096 := Nat.div_div_eq_div_mul n 256 16
  rw [hex_succ, hex_succ, hex_succ, hsquare, hcube, hone]
  rfl

theorem hexDigit?_digitChar {d : Nat} (h : d < 16) : Text.hexDigit? d.digitChar = some d := by
  have hall : ∀ d < 16, Text.hexDigit? d.digitChar = some d := by decide
  exact hall d h

theorem unit?_escapeUnit {u : UInt16} {c : Char} (cs : List Char) :
    unit? (Nat.digitChar (u.toNat / 4096) :: Nat.digitChar (u.toNat / 256 % 16) ::
      Nat.digitChar (u.toNat / 16 % 16) :: Nat.digitChar (u.toNat % 16) :: c :: cs) =
        some (u, c :: cs) := by
  have hu : u.toNat < 0x10000 := u.toNat_lt
  have hvalue : ((u.toNat / 4096 * 16 + u.toNat / 256 % 16) * 16 + u.toNat / 16 % 16) * 16 +
      u.toNat % 16 = u.toNat := by
    omega
  simp only [unit?, hexDigit?_digitChar (by omega : u.toNat / 4096 < 16),
    hexDigit?_digitChar (Nat.mod_lt _ (by decide : 16 > 0)), hvalue, UInt16.ofNat_toNat]

/-- Besides the printable characters that stand for themselves, a unit is a backslash with a letter
or with four digits. -/
theorem escapeUnit_cases (u : UInt16) :
    (∃ e, escaped? e = some u ∧ e ≠ 'u' ∧ escapeUnit u = ['\\', e]) ∨
    (u.toNat ≠ 34 ∧ u.toNat ≠ 92 ∧ 32 ≤ u.toNat ∧ u.toNat < 127 ∧
      escapeUnit u = [Char.ofNat u.toNat]) ∨
    escapeUnit u = '\\' :: 'u' :: Text.hex 4 u.toNat := by
  have hletter (n : Nat) (e : Char) (hn : u.toNat = n) (he : escaped? e = some (.ofNat n))
      (hu : e ≠ 'u') (hwrite : escapeUnit (.ofNat n) = ['\\', e]) :
      ∃ e, escaped? e = some u ∧ e ≠ 'u' ∧ escapeUnit u = ['\\', e] := by
    obtain rfl : u = .ofNat n := by rw [← hn, UInt16.ofNat_toNat]
    exact ⟨e, he, hu, hwrite⟩
  by_cases h₁ : u.toNat = 34
  · exact .inl (hletter 34 '"' h₁ rfl (by decide) rfl)
  by_cases h₂ : u.toNat = 92
  · exact .inl (hletter 92 '\\' h₂ rfl (by decide) rfl)
  by_cases h₃ : u.toNat = 10
  · exact .inl (hletter 10 'n' h₃ rfl (by decide) rfl)
  by_cases h₄ : u.toNat = 13
  · exact .inl (hletter 13 'r' h₄ rfl (by decide) rfl)
  by_cases h₅ : u.toNat = 9
  · exact .inl (hletter 9 't' h₅ rfl (by decide) rfl)
  by_cases h₆ : u.toNat = 12
  · exact .inl (hletter 12 'f' h₆ rfl (by decide) rfl)
  by_cases h₇ : u.toNat = 8
  · exact .inl (hletter 8 'b' h₇ rfl (by decide) rfl)
  rw [escapeUnit, if_neg h₁, if_neg h₂, if_neg h₃, if_neg h₄, if_neg h₅, if_neg h₆, if_neg h₇]
  by_cases h₈ : 32 ≤ u.toNat ∧ u.toNat < 127
  · rw [if_pos h₈]
    exact .inr (.inl ⟨h₁, h₂, h₈.1, h₈.2, rfl⟩)
  · rw [if_neg h₈]
    exact .inr (.inr rfl)

theorem readText_escapeUnit (start fuel : Nat) (u : UInt16) (c : Char) (cs : List Char) :
    readText start (fuel + 1) (escapeUnit u ++ c :: cs) =
      (fun r => (u :: r.1, r.2)) <$> readText start fuel (c :: cs) := by
  obtain ⟨e, he, hu, hwrite⟩ | ⟨h₁, h₂, hlow, hhigh, hwrite⟩ | hwrite := escapeUnit_cases u
  · have hbackslash : '\\' ≠ '"' := by decide
    rw [hwrite, List.cons_append, List.singleton_append, readText, if_neg hbackslash, if_pos rfl]
    simp only [if_neg hu, he]
    rfl
  · -- The unit is a character that stands for itself.
    have hvalid : u.toNat.isValidChar := .inl (by omega)
    have hc : (Char.ofNat u.toNat).toNat = u.toNat := by
      rw [Char.ofNat, dif_pos hvalid]
      rfl
    have hne (e : Char) (h : u.toNat ≠ e.toNat) : Char.ofNat u.toNat ≠ e := by
      rintro rfl
      exact h hc.symm
    have hencode : Text.Utf16.encodeChar (Char.ofNat u.toNat) = [u] := by
      have hhalf : Text.Utf16.half? (Char.ofNat u.toNat) = none :=
        if_neg fun h => absurd h.1 (by rw [hc, Text.Utf16.firstHalf]; omega)
      simp [Text.Utf16.encodeChar, hhalf, hc, show u.toNat < 0x10000 by omega]
    rw [hwrite, List.singleton_append, readText, if_neg (hne '"' h₁), if_neg (hne '\\' h₂), hc,
      if_neg (by omega), hencode]
    rfl
  · rw [hwrite, hex_four u.toNat_lt]
    simp [readText, unit?_escapeUnit]

theorem length_le_flatMap_escapeUnit (us : List UInt16) :
    us.length ≤ (us.flatMap escapeUnit).length := by
  have hone (u : UInt16) : 1 ≤ (escapeUnit u).length := by
    obtain ⟨e, -, -, hwrite⟩ | ⟨-, -, -, -, hwrite⟩ | hwrite := escapeUnit_cases u <;> simp [hwrite]
  induction us with
  | nil => exact Nat.le_refl 0
  | cons u us ih =>
    rw [List.flatMap_cons, List.length_append, List.length_cons]
    have := hone u
    omega

theorem readText_flatMap (us : List UInt16) (rest : List Char) (start : Nat) {fuel : Nat}
    (h : us.length < fuel) :
    readText start fuel (us.flatMap escapeUnit ++ '"' :: rest) = .ok (us, rest) := by
  induction us generalizing fuel with
  | nil =>
    obtain ⟨fuel, rfl⟩ : ∃ k, fuel = k + 1 := ⟨fuel - 1, by omega⟩
    rfl
  | cons u us ih =>
    obtain ⟨fuel, rfl⟩ : ∃ k, fuel = k + 1 := ⟨fuel - 1, by omega⟩
    obtain ⟨c, cs, hcs⟩ : ∃ c cs, us.flatMap escapeUnit ++ '"' :: rest = c :: cs :=
      List.exists_cons_of_ne_nil (by simp)
    rw [List.flatMap_cons, List.append_assoc, hcs, readText_escapeUnit, ← hcs,
      ih (Nat.lt_of_succ_lt_succ h)]
    rfl

/-- A text in quotes is read up to the closing one. -/
theorem readText_quote (us : List UInt16) (rest : List Char) : ∃ cs,
    quote us ++ rest = '"' :: cs ∧
      readText (quote us ++ rest).length ((quote us ++ rest).length + 1) cs = .ok (us, rest) := by
  have hquote : quote us ++ rest = '"' :: (us.flatMap escapeUnit ++ '"' :: rest) := by simp [quote]
  refine ⟨_, hquote, readText_flatMap us rest _ ?_⟩
  have := length_le_flatMap_escapeUnit us
  rw [hquote, List.length_cons, List.length_append]
  omega

/-! ## Numbers -/

/-- Nothing that could go on with a number comes next. -/
def Stops (rest : List Char) : Prop :=
  ∀ c ∈ rest.head?, c.isDigit = false ∧ c ≠ '.' ∧ c ≠ 'e' ∧ c ≠ 'E'

/-- No zero stands in front of other digits. -/
theorem toDigits_eq_cons {n : Nat} (h : n ≠ 0) :
    ∃ c cs, Nat.toDigits 10 n = c :: cs ∧ c ≠ '0' ∧ c.isDigit = true := by
  induction n using Nat.strongRecOn with
  | ind n ih =>
    by_cases hn : n < 10
    · exact ⟨_, [], Nat.toDigits_of_lt_base hn, fun hzero => h (Nat.digitChar_eq_zero.1 hzero),
        by simpa [Nat.isDigit_digitChar] using hn⟩
    · obtain ⟨c, cs, hcs, hc⟩ := ih (n / 10) (by omega) (by omega)
      exact ⟨c, _, by rw [Nat.toDigits_of_base_le (by decide) (Nat.le_of_not_lt hn), hcs]; rfl, hc⟩

theorem wholeDigits_toDigits (n : Nat) {rest : List Char} (h : Stops rest) :
    wholeDigits (Nat.toDigits 10 n ++ rest) = Nat.toDigits 10 n := by
  by_cases hn : n = 0
  · rw [hn, Nat.toDigits_zero]
    rfl
  · have hdigits : ∀ c ∈ Nat.toDigits 10 n, c.isDigit = true := fun c hc =>
      Nat.isDigit_of_mem_toDigits (by decide) (by decide) hc
    have hrest : rest.takeWhile Char.isDigit = [] := by
      cases rest with
      | nil => rfl
      | cons c cs => simp [(h c rfl).1]
    obtain ⟨c, cs, hcs, hc, -⟩ := toDigits_eq_cons hn
    unfold wholeDigits
    split
    · next hzero =>
      rw [hcs] at hzero
      exact absurd (List.cons.inj hzero).1 hc
    · rw [List.takeWhile_append_of_pos hdigits, hrest, List.append_nil]

theorem natOfDigits_toDigits (n : Nat) :
    Text.natOfDigits ((Nat.toDigits 10 n).map fun c => c.toNat - 48) = n := by
  rw [Text.natOfDigits, List.foldl_map]
  exact Nat.ofDigitChars_eq_foldl.symm.trans Nat.ofDigitChars_ten_toDigits

/-- What is read of a number without a fraction and an exponent. -/
theorem readNumber_eq {sign whole rest : List Char} (hsign : sign = [] ∨ sign = ['-'])
    (hrest : Stops rest) (hwhole : wholeDigits (whole ++ rest) = whole) (hne : whole ≠ [])
    (hhead : whole.head? ≠ some '-') (hshort : whole.length ≤ LongInteger.limit) :
    readNumber (sign ++ whole ++ rest) =
      let n : Int := Text.natOfDigits (whole.map fun c => c.toNat - 48)
      .ok (.int (if sign.isEmpty then n else -n), rest) := by
  have htake : ((sign ++ whole ++ rest).take 1).takeWhile (· == '-') = sign := by
    obtain ⟨c, cs, rfl⟩ := List.exists_cons_of_ne_nil hne
    have hc : c ≠ '-' := fun hc => hhead (congrArg some hc)
    rcases hsign with rfl | rfl
    · simp [hc]
    · rfl
  have hdrop : (sign ++ whole ++ rest).drop sign.length = whole ++ rest := by
    rw [List.append_assoc, List.drop_left]
  have hlong : ¬LongInteger.limit < whole.length := Nat.not_lt.2 hshort
  unfold readNumber
  simp only [htake, hdrop, hwhole, List.drop_left]
  cases rest with
  | nil => simp [exponentPart, hne, hlong]
  | cons c cs =>
    obtain ⟨-, hdot, he, hcapital⟩ := hrest c rfl
    simp [exponentPart, hdot, he, hcapital, hne, hlong]

theorem toList_toString (i : Int) : (toString i).toList =
    (if i < 0 then ['-'] else []) ++ Nat.toDigits 10 i.natAbs := by
  cases i with
  | ofNat n =>
    have hn : ¬Int.ofNat n < 0 := Int.not_lt.2 (Int.natCast_nonneg n)
    rw [if_neg hn]
    exact (congrArg String.toList Nat.repr_eq_ofList_toDigits).trans String.toList_ofList
  | negSucc n =>
    rw [if_pos (Int.negSucc_lt_zero n)]
    have hrepr : (Nat.repr (n + 1)).toList = Nat.toDigits 10 (n + 1) :=
      (congrArg String.toList Nat.repr_eq_ofList_toDigits).trans String.toList_ofList
    exact (String.toList_append ..).trans (congrArg ("-".toList ++ ·) hrepr)

theorem length_toDigits_le {n k : Nat} (hk : 0 < k) (h : n < Nat.pow 10 k) :
    (Nat.toDigits 10 n).length ≤ k :=
  (Nat.length_toDigits_le_iff (by decide) hk).2 h

/-- An integer is read back unless it has too many digits. -/
theorem readNumber_toString {i : Int} (hi : LongInteger.isLong i = false) {rest : List Char}
    (hrest : Stops rest) : readNumber ((toString i).toList ++ rest) = .ok (.int i, rest) := by
  have hshort : (Nat.toDigits 10 i.natAbs).length ≤ LongInteger.limit := by
    rw [LongInteger.isLong, decide_eq_false_iff_not, Nat.not_le] at hi
    exact length_toDigits_le (by decide) hi
  have hhead : (Nat.toDigits 10 i.natAbs).head? ≠ some '-' := by
    intro hhead
    have hmem := List.mem_of_mem_head? hhead
    exact absurd (Nat.isDigit_of_mem_toDigits (by decide) (by decide) hmem) (by decide)
  have hread (sign : List Char) (hsign : sign = [] ∨ sign = ['-']) :=
    readNumber_eq hsign hrest (wholeDigits_toDigits i.natAbs hrest) Nat.toDigits_ne_nil hhead hshort
  rw [toList_toString]
  by_cases h : i < 0
  · rw [if_pos h, hread ['-'] (.inr rfl), natOfDigits_toDigits]
    have habs : -(i.natAbs : Int) = i := by omega
    exact congrArg (fun n : Int => Except.ok (Json.int n, rest)) habs
  · rw [if_neg h, hread [] (.inl rfl), natOfDigits_toDigits]
    have habs : (i.natAbs : Int) = i := by omega
    exact congrArg (fun n : Int => Except.ok (Json.int n, rest)) habs

/-! ## Layouts -/

/-- Only spaces stand between the parts, besides the separators. -/
structure Layout.IsSpaced (l : Layout) : Prop where
  item : ∃ s, l.item.toList = ',' :: s ∧ ∀ c ∈ s, isSpace c = true
  key : ∃ s, l.key.toList = ':' :: s ∧ ∀ c ∈ s, isSpace c = true

theorem isSpaced_compact : Layout.compact.IsSpaced := ⟨⟨[], rfl, nofun⟩, ⟨[], rfl, nofun⟩⟩

theorem isSpaced_line : Layout.line.IsSpaced := by
  have hitem : ", ".toList = [',', ' '] := by decide
  have hkey : ": ".toList = [':', ' '] := by decide
  exact ⟨⟨[' '], hitem, by simp [isSpace]⟩, ⟨[' '], hkey, by simp [isSpace]⟩⟩

theorem isSpaced_indented (depth : Nat) : (Layout.indented depth).IsSpaced := by
  have hitem : ",".toList = [','] := by decide
  have hkey : ": ".toList = [':', ' '] := by decide
  exact ⟨⟨[], hitem, nofun⟩, ⟨[' '], hkey, by simp [isSpace]⟩⟩

theorem isSpace_newline (l : Layout) (depth : Nat) : ∀ c ∈ l.newline depth, isSpace c = true := by
  intro c h
  unfold Layout.newline at h
  split at h
  · cases h
  · rcases List.mem_cons.1 h with rfl | h
    · rfl
    · rw [List.eq_of_mem_replicate h]
      rfl

theorem skipSpace_cons {c : Char} (h : isSpace c = false) (cs : List Char) :
    skipSpace (c :: cs) = c :: cs := by
  simp [skipSpace, h]

theorem skipSpace_append {s : List Char} (hs : ∀ c ∈ s, isSpace c = true) (cs : List Char) :
    skipSpace (s ++ cs) = skipSpace cs :=
  List.dropWhile_append_of_pos hs

theorem stops_of_space {s : List Char} (hs : ∀ c ∈ s, isSpace c = true) {c : Char}
    (hc : c ∈ [',', ']', '\x7d']) (cs : List Char) : Stops (s ++ c :: cs) := by
  have hspace (e : Char) (he : isSpace e = true ∨ e ∈ [',', ']', '\x7d']) :
      e.isDigit = false ∧ e ≠ '.' ∧ e ≠ 'e' ∧ e ≠ 'E' := by
    simp only [isSpace, Bool.or_eq_true, beq_iff_eq, List.mem_cons, List.not_mem_nil,
      or_false] at he
    rcases he with ((((rfl | rfl) | rfl) | rfl) | rfl | rfl | rfl) <;> decide
  intro e he
  cases s with
  | nil =>
    obtain rfl := Option.some.inj he
    exact hspace c (.inr hc)
  | cons d s =>
    obtain rfl := Option.some.inj he
    exact hspace d (.inl (hs d List.mem_cons_self))

/-! ## Lists and objects -/

section

variable {l : Layout} {value : List Char → Except Failure (Json × List Char)} {depth : Nat}
  {s : List Char}

/-- What is written of a value starts with it, and is read up to its end. -/
structure ReadsBack (l : Layout) (depth : Nat)
    (value : List Char → Except Failure (Json × List Char)) (j : Json) : Prop where
  starts : ∃ c cs, l.write depth j = c :: cs ∧ isSpace c = false ∧ c ∉ [']', '\uFEFF']
  reads : ∀ rest, Stops rest → value (l.write depth j ++ rest) = .ok (j, rest)

theorem write_int (l : Layout) (depth : Nat) (i : Int) :
    l.write depth (.int i) = (toString i).toList := rfl

theorem write_text (l : Layout) (depth : Nat) (us : List UInt16) :
    l.write depth (.text us) = quote us := rfl

theorem write_list_cons (l : Layout) (depth : Nat) (j : Json) (items : List Json) :
    l.write depth (.list (j :: items)) = '[' :: l.newline (depth + 1) ++
      l.writeItems (depth + 1) (j :: items) ++ l.newline depth ++ [']'] := rfl

theorem write_object_cons (l : Layout) (depth : Nat) (m : List UInt16 × Json)
    (members : List (List UInt16 × Json)) :
    l.write depth (.object (m :: members)) = '\x7b' :: l.newline (depth + 1) ++
      l.writeMembers (depth + 1) (m :: members) ++ l.newline depth ++ ['\x7d'] := rfl

theorem writeItems_singleton (l : Layout) (depth : Nat) (j : Json) :
    l.writeItems depth [j] = l.write depth j := rfl

theorem writeItems_cons_cons (l : Layout) (depth : Nat) (j k : Json) (items : List Json) :
    l.writeItems depth (j :: k :: items) =
      l.write depth j ++ l.item.toList ++ l.newline depth ++ l.writeItems depth (k :: items) := rfl

theorem writeMembers_singleton (l : Layout) (depth : Nat) (m : List UInt16 × Json) :
    l.writeMembers depth [m] = quote m.1 ++ l.key.toList ++ l.write depth m.2 := rfl

theorem writeMembers_cons_cons (l : Layout) (depth : Nat) (m m' : List UInt16 × Json)
    (members : List (List UInt16 × Json)) :
    l.writeMembers depth (m :: m' :: members) =
      quote m.1 ++ l.key.toList ++ l.write depth m.2 ++ l.item.toList ++ l.newline depth ++
        l.writeMembers depth (m' :: members) := rfl

theorem writeItems_starts {items : List Json} (h : ∀ j ∈ items, ReadsBack l depth value j)
    (hne : items ≠ []) :
    ∃ c cs, l.writeItems depth items = c :: cs ∧ isSpace c = false ∧ c ∉ [']', '\uFEFF'] := by
  obtain ⟨j, items, rfl⟩ := List.exists_cons_of_ne_nil hne
  obtain ⟨c, cs, hc, hstart⟩ := (h j List.mem_cons_self).starts
  cases items with
  | nil => exact ⟨c, cs, hc, hstart⟩
  | cons k items =>
    refine ⟨c, cs ++ (l.item.toList ++ (l.newline depth ++ l.writeItems depth (k :: items))), ?_,
      hstart⟩
    simp [writeItems_cons_cons, hc]

theorem length_le_writeItems {items : List Json} (h : ∀ j ∈ items, ReadsBack l depth value j) :
    items.length ≤ (l.writeItems depth items).length := by
  induction items with
  | nil => exact Nat.le_refl 0
  | cons j items ih =>
    obtain ⟨hj, hitems⟩ := List.forall_mem_cons.1 h
    obtain ⟨c, cs, hc, -⟩ := hj.starts
    have hlength := ih hitems
    cases items with
    | nil => simp [writeItems_singleton, hc]
    | cons k items =>
      rw [writeItems_cons_cons, hc]
      simp only [List.length_append, List.length_cons] at hlength ⊢
      omega

theorem writeMembers_starts (l : Layout) (depth : Nat) {members : List (List UInt16 × Json)}
    (hne : members ≠ []) :
    ∃ cs, l.writeMembers depth members = '"' :: cs := by
  obtain ⟨m, members, rfl⟩ := List.exists_cons_of_ne_nil hne
  cases members <;> simp [writeMembers_singleton, writeMembers_cons_cons, quote]

theorem length_le_writeMembers (l : Layout) (depth : Nat) (members : List (List UInt16 × Json)) :
    members.length ≤ (l.writeMembers depth members).length := by
  induction members with
  | nil => exact Nat.le_refl 0
  | cons m members ih =>
    cases members with
    | nil => simp [writeMembers_singleton, quote]
    | cons m' members =>
      rw [writeMembers_cons_cons]
      simp only [quote, List.length_append, List.length_cons] at ih ⊢
      omega

theorem readItems_writeItems (hl : l.IsSpaced) {items : List Json}
    (hitems : ∀ j ∈ items, ReadsBack l depth value j) (hne : items ≠ [])
    (hs : ∀ c ∈ s, isSpace c = true) (rest : List Char) {fuel : Nat}
    (hfuel : items.length ≤ fuel) :
    readItems value fuel (l.writeItems depth items ++ (s ++ ']' :: rest)) = .ok (items, rest) := by
  obtain ⟨t, hitem, ht⟩ := hl.item
  induction items generalizing fuel with
  | nil => exact absurd rfl hne
  | cons j items ih =>
    obtain ⟨fuel, rfl⟩ : ∃ k, fuel = k + 1 := ⟨fuel - 1, by simp at hfuel; omega⟩
    obtain ⟨hj, hitems⟩ := List.forall_mem_cons.1 hitems
    cases items with
    | nil =>
      have hread := hj.reads (s ++ ']' :: rest) (stops_of_space hs (by decide) rest)
      have hend : skipSpace (s ++ ']' :: rest) = ']' :: rest := by
        rw [skipSpace_append hs, skipSpace_cons (by decide)]
      rw [writeItems_singleton, readItems, hread]
      simp only [bind, Except.bind, hend]
      rfl
    | cons k items =>
      -- Behind the separator the next item starts.
      obtain ⟨c, cs, hstart, hspace, -⟩ := writeItems_starts hitems (by simp)
      set next := l.writeItems depth (k :: items) ++ (s ++ ']' :: rest) with hdef
      have hwrite : l.writeItems depth (j :: k :: items) ++ (s ++ ']' :: rest) =
          l.write depth j ++ (',' :: ((t ++ l.newline depth) ++ next)) := by
        rw [hdef, writeItems_cons_cons, hitem]
        simp
      have hread := hj.reads (',' :: ((t ++ l.newline depth) ++ next))
        (stops_of_space (s := []) nofun (by decide) _)
      have hnext : skipSpace ((t ++ l.newline depth) ++ next) = next := by
        rw [skipSpace_append (List.forall_mem_append.2 ⟨ht, isSpace_newline l depth⟩),
          hdef, hstart, List.cons_append, skipSpace_cons hspace]
      have hrest := ih hitems (by simp) (Nat.le_of_succ_le_succ hfuel)
      rw [hwrite, readItems, hread]
      simp only [bind, Except.bind, skipSpace_cons (c := ',') (by decide), hnext, hrest]
      rfl

theorem insertMember_of_not_mem {k : List UInt16} {ms : List (List UInt16 × Json)}
    (h : k ∉ ms.map Prod.fst) (j : Json) : insertMember k j ms = ms ++ [(k, j)] := by
  induction ms with
  | nil => rfl
  | cons m ms ih =>
    rw [List.map_cons, List.mem_cons, not_or] at h
    rw [insertMember, if_neg (Ne.symm h.1), ih h.2]
    rfl

/-- What is read of one member, up to what stands behind its value. -/
theorem readMembers_succ (hl : l.IsSpaced) {k : List UInt16} {j : Json}
    (hj : ReadsBack l depth value j) (fuel : Nat) (read : List (List UInt16 × Json))
    {rest : List Char} (hrest : Stops rest) :
    readMembers value (fuel + 1) read (quote k ++ l.key.toList ++ l.write depth j ++ rest) =
      match skipSpace rest with
      | '\x7d' :: r => .ok (insertMember k j read, r)
      | ',' :: r => readMembers value fuel (insertMember k j read) (skipSpace r)
      | r => complain .comma r := by
  obtain ⟨t, hkey, ht⟩ := hl.key
  obtain ⟨c, cs, hc, hspace, -⟩ := hj.starts
  obtain ⟨ds, hquote, htext⟩ := readText_quote k (l.key.toList ++ (l.write depth j ++ rest))
  have hcolon : skipSpace (l.key.toList ++ (l.write depth j ++ rest)) =
      ':' :: (t ++ (l.write depth j ++ rest)) := by
    rw [hkey]
    exact skipSpace_cons (by decide) _
  have hvalue : skipSpace (t ++ (l.write depth j ++ rest)) = l.write depth j ++ rest := by
    rw [skipSpace_append ht, hc]
    exact skipSpace_cons hspace _
  rw [hquote] at htext
  rw [List.append_assoc, List.append_assoc, hquote, readMembers]
  simp only [bind, Except.bind, htext, hcolon, hvalue, hj.reads rest hrest]
  rfl

theorem readMembers_writeMembers (hl : l.IsSpaced) {members : List (List UInt16 × Json)}
    (hmembers : ∀ m ∈ members, ReadsBack l depth value m.2) (hne : members ≠ [])
    {read : List (List UInt16 × Json)} (hnames : ((read ++ members).map Prod.fst).Nodup)
    (hs : ∀ c ∈ s, isSpace c = true) (rest : List Char) {fuel : Nat}
    (hfuel : members.length ≤ fuel) :
    readMembers value fuel read (l.writeMembers depth members ++ (s ++ '\x7d' :: rest)) =
      .ok (read ++ members, rest) := by
  obtain ⟨t, hitem, ht⟩ := hl.item
  induction members generalizing read fuel with
  | nil => exact absurd rfl hne
  | cons m members ih =>
    obtain ⟨k, j⟩ := m
    obtain ⟨fuel, rfl⟩ : ∃ n, fuel = n + 1 := ⟨fuel - 1, by simp at hfuel; omega⟩
    obtain ⟨hj, hmembers⟩ := List.forall_mem_cons.1 hmembers
    have hj : ReadsBack l depth value j := hj
    have hnew : insertMember k j read = read ++ [(k, j)] := by
      refine insertMember_of_not_mem (fun hk => ?_) j
      rw [List.map_append, List.nodup_append] at hnames
      exact hnames.2.2 k hk k (by simp) rfl
    cases members with
    | nil =>
      have hend : skipSpace (s ++ '\x7d' :: rest) = '\x7d' :: rest := by
        rw [skipSpace_append hs, skipSpace_cons (by decide)]
      have hstops : Stops (s ++ '\x7d' :: rest) := stops_of_space hs (by decide) rest
      rw [writeMembers_singleton, readMembers_succ hl hj fuel read hstops, hend, hnew]
      rfl
    | cons m members =>
      -- Behind the separator the name of the next member starts.
      obtain ⟨cs, hstart⟩ := writeMembers_starts l depth (List.cons_ne_nil m members)
      set next := l.writeMembers depth (m :: members) ++ (s ++ '\x7d' :: rest) with hdef
      have hwrite : l.writeMembers depth ((k, j) :: m :: members) ++ (s ++ '\x7d' :: rest) =
          quote k ++ l.key.toList ++ l.write depth j ++
            (',' :: ((t ++ l.newline depth) ++ next)) := by
        rw [hdef, writeMembers_cons_cons, hitem]
        simp
      have hcomma := skipSpace_cons (c := ',') (by decide) ((t ++ l.newline depth) ++ next)
      have hnext : skipSpace ((t ++ l.newline depth) ++ next) = next := by
        rw [skipSpace_append (List.forall_mem_append.2 ⟨ht, isSpace_newline l depth⟩),
          hdef, hstart, List.cons_append, skipSpace_cons (by decide)]
      have hnames' : (((read ++ [(k, j)]) ++ m :: members).map Prod.fst).Nodup := by
        simpa using hnames
      have hrest := ih hmembers (by simp) hnames' (Nat.le_of_succ_le_succ hfuel)
      have hstops : Stops (',' :: ((t ++ l.newline depth) ++ next)) :=
        stops_of_space (s := []) nofun (by decide) _
      rw [hwrite, readMembers_succ hl hj fuel read hstops, hcomma]
      simp only [hnew, hnext, hrest]
      simp

end

/-! ## Values -/

/-- JSON with at most so many lists and objects within each other, in which no integer is too long
and the members of every object have distinct names. Floats are left out. -/
inductive IsReadable : Nat → Json → Prop where
  | null {depth : Nat} : IsReadable depth .null
  | bool {depth : Nat} (b : Bool) : IsReadable depth (.bool b)
  | int {depth : Nat} {i : Int} (h : LongInteger.isLong i = false) : IsReadable depth (.int i)
  | text {depth : Nat} (us : List UInt16) : IsReadable depth (.text us)
  | list {depth : Nat} {items : List Json} (h : ∀ j ∈ items, IsReadable depth j) :
    IsReadable (depth + 1) (.list items)
  | object {depth : Nat} {members : List (List UInt16 × Json)}
    (hnames : (members.map Prod.fst).Nodup) (h : ∀ m ∈ members, IsReadable depth m.2) :
    IsReadable (depth + 1) (.object members)

theorem readConstant?_of_word {word : String} {j : Json}
    (h : (word, j) ∈ [("null", .null), ("true", .bool true), ("false", .bool false)])
    (rest : List Char) : readConstant? (word.toList ++ rest) = some (j, rest) := by
  simp only [List.mem_cons, Prod.mk.injEq, List.not_mem_nil, or_false] at h
  rcases h with ⟨rfl, rfl⟩ | ⟨rfl, rfl⟩ | ⟨rfl, rfl⟩ <;> rfl

/-- What starts neither a text nor a list nor an object is a word or a number. -/
theorem readValue_cons {c : Char} (h : c ∉ ['"', '\x7b', '[']) (depth : Nat) (cs : List Char) :
    readValue depth (c :: cs) =
      match readConstant? (c :: cs) with
      | some found => .ok found
      | none => readNumber (c :: cs) := by
  simp only [List.mem_cons, List.not_mem_nil, or_false, not_or] at h
  obtain ⟨hquote, hobject, hlist⟩ := h
  unfold readValue
  split
  · next heq => exact absurd (List.cons.inj heq).1 hquote
  · next heq => exact absurd (List.cons.inj heq).1 hobject
  · next heq => exact absurd (List.cons.inj heq).1 hlist
  · rfl

/-- Numbers start with a digit, perhaps behind a sign. -/
theorem readValue_of_digit {sign : List Char} (hsign : sign = [] ∨ sign = ['-']) {c : Char}
    (hc : c.isDigit = true) (depth : Nat) (cs : List Char) :
    readValue depth (sign ++ c :: cs) = readNumber (sign ++ c :: cs) := by
  have hne (e : Char) (he : e.isDigit = false) : e ≠ c := by
    rintro rfl
    rw [hc] at he
    cases he
  rcases hsign with rfl | rfl
  · have hstart : c ∉ ['"', '\x7b', '['] := by
      simp [(hne '"' (by decide)).symm, (hne '\x7b' (by decide)).symm, (hne '[' (by decide)).symm]
    have hnone : readConstant? (c :: cs) = none := by
      simp [readConstant?, constants, hne 'n' (by decide), hne 't' (by decide),
        hne 'f' (by decide), hne 'N' (by decide), hne 'I' (by decide), hne '-' (by decide)]
    rw [List.nil_append, readValue_cons hstart, hnone]
  · have hnone : readConstant? ('-' :: c :: cs) = none := by
      simp [readConstant?, constants, hne 'I' (by decide)]
    rw [List.singleton_append, readValue_cons (by decide), hnone]

theorem readValue_quote (depth : Nat) (cs : List Char) :
    readValue depth ('"' :: cs) =
      (fun v => (.text v.1, v.2)) <$> readText (cs.length + 1) (cs.length + 2) cs := by
  cases depth <;> rfl

/-- The items of a list are read after its bracket. -/
theorem readValue_list {cs r : List Char} (h : skipSpace cs = r) (hne : r.head? ≠ some ']')
    (depth : Nat) : readValue (depth + 1) ('[' :: cs) =
      (fun v => (.list v.1, v.2)) <$> readItems (readValue depth) (r.length + 1) r := by
  rw [readValue.eq_def]
  simp only [h]
  split
  · contradiction
  · exact absurd rfl hne
  · next hdepth _ =>
    cases hdepth
    rfl

theorem readValue_object {cs r : List Char} (h : skipSpace cs = r) (hne : r.head? ≠ some '\x7d')
    (depth : Nat) : readValue (depth + 1) ('\x7b' :: cs) =
      (fun v => (.object v.1, v.2)) <$> readMembers (readValue depth) (r.length + 1) [] r := by
  rw [readValue.eq_def]
  simp only [h]
  split
  · contradiction
  · exact absurd rfl hne
  · next hdepth _ =>
    cases hdepth
    rfl

section

variable {l : Layout}

theorem readsBack_word (word : String) {j : Json}
    (h : (word, j) ∈ [("null", .null), ("true", .bool true), ("false", .bool false)])
    {n : Nat} (hwrite : l.write n j = word.toList) (depth : Nat) :
    ReadsBack l n (readValue depth) j := by
  obtain ⟨c, cs, hword, hspace, hne, hstart⟩ : ∃ c cs, word.toList = c :: cs ∧
      isSpace c = false ∧ c ∉ [']', '\uFEFF'] ∧ c ∉ ['"', '\x7b', '['] := by
    simp only [List.mem_cons, Prod.mk.injEq, List.not_mem_nil, or_false] at h
    rcases h with ⟨rfl, -⟩ | ⟨rfl, -⟩ | ⟨rfl, -⟩
    · exact ⟨'n', _, rfl, by decide⟩
    · exact ⟨'t', _, rfl, by decide⟩
    · exact ⟨'f', _, rfl, by decide⟩
  refine ⟨⟨c, cs, hwrite.trans hword, hspace, hne⟩, fun rest _ => ?_⟩
  have hconstant := readConstant?_of_word h rest
  rw [hword, List.cons_append] at hconstant
  rw [hwrite, hword, List.cons_append, readValue_cons hstart, hconstant]

theorem readsBack_int {i : Int} (hi : LongInteger.isLong i = false) (n depth : Nat) :
    ReadsBack l n (readValue depth) (.int i) := by
  obtain ⟨c, cs, hcs⟩ := List.exists_cons_of_ne_nil (Nat.toDigits_ne_nil (b := 10) (n := i.natAbs))
  have hc : c.isDigit = true :=
    Nat.isDigit_of_mem_toDigits (by decide) (by decide) (hcs ▸ List.mem_cons_self)
  obtain ⟨sign, hsign, htext⟩ : ∃ sign, (sign = [] ∨ sign = ['-']) ∧
      (toString i).toList = sign ++ c :: cs := by
    refine ⟨_, ?_, (toList_toString i).trans (congrArg _ hcs)⟩
    split_ifs
    · exact .inr rfl
    · exact .inl rfl
  constructor
  · have hspace (e : Char) (he : e.isDigit = true ∨ e = '-') :
        isSpace e = false ∧ e ∉ [']', '\uFEFF'] := by
      constructor
      · rw [Bool.eq_false_iff]
        intro hspace
        simp only [isSpace, Bool.or_eq_true, beq_iff_eq] at hspace
        rcases hspace with ((rfl | rfl) | rfl) | rfl <;> exact absurd he (by decide)
      · intro hmem
        simp only [List.mem_cons, List.not_mem_nil, or_false] at hmem
        rcases hmem with rfl | rfl <;> exact absurd he (by decide)
    rcases hsign with rfl | rfl
    · exact ⟨c, cs, htext, hspace c (.inl hc)⟩
    · exact ⟨'-', c :: cs, htext, hspace '-' (.inr rfl)⟩
  · intro rest hrest
    have hnumber := readNumber_toString hi hrest
    rw [htext, List.append_assoc, List.cons_append] at hnumber
    rw [write_int, htext, List.append_assoc, List.cons_append, readValue_of_digit hsign hc,
      hnumber]

theorem readsBack_text (us : List UInt16) (n depth : Nat) :
    ReadsBack l n (readValue depth) (.text us) := by
  constructor
  · exact ⟨'"', us.flatMap escapeUnit ++ ['"'], rfl, by decide, by decide⟩
  · intro rest _
    obtain ⟨cs, hquote, hread⟩ := readText_quote us rest
    rw [hquote] at hread
    rw [write_text, hquote, readValue_quote]
    exact congrArg _ hread

theorem readsBack_list (hl : l.IsSpaced) {items : List Json} {n depth : Nat}
    (h : ∀ j ∈ items, ReadsBack l (n + 1) (readValue depth) j) :
    ReadsBack l n (readValue (depth + 1)) (.list items) := by
  cases items with
  | nil => exact ⟨⟨'[', [']'], rfl, by decide, by decide⟩, fun rest _ => rfl⟩
  | cons j items =>
    refine ⟨⟨'[', _, rfl, by decide, by decide⟩, fun rest _ => ?_⟩
    obtain ⟨c, cs, hstart, hspace, hne⟩ := writeItems_starts h (List.cons_ne_nil j items)
    rw [List.mem_cons, not_or] at hne
    have hlength := length_le_writeItems h
    set text := c :: (cs ++ (l.newline n ++ ']' :: rest)) with htext
    have hfuel : (j :: items).length ≤ text.length + 1 := by
      rw [hstart] at hlength
      simp only [htext, List.length_cons, List.length_append] at hlength ⊢
      omega
    have hread := readItems_writeItems hl h (List.cons_ne_nil j items) (isSpace_newline l n) rest
      hfuel
    rw [hstart, List.cons_append, ← htext] at hread
    have hwrite : l.write n (.list (j :: items)) ++ rest = '[' :: (l.newline (n + 1) ++ text) := by
      rw [write_list_cons, hstart, htext]
      simp
    have hskip : skipSpace (l.newline (n + 1) ++ text) = text := by
      rw [skipSpace_append (isSpace_newline l (n + 1)), htext, skipSpace_cons hspace]
    rw [hwrite, readValue_list hskip (by simpa [htext] using hne.1), hread]
    rfl

theorem readsBack_object (hl : l.IsSpaced) {members : List (List UInt16 × Json)} {n depth : Nat}
    (hnames : (members.map Prod.fst).Nodup)
    (h : ∀ m ∈ members, ReadsBack l (n + 1) (readValue depth) m.2) :
    ReadsBack l n (readValue (depth + 1)) (.object members) := by
  cases members with
  | nil =>
    exact ⟨⟨'\x7b', ['\x7d'], rfl, by decide, by decide⟩, fun rest _ => rfl⟩
  | cons m members =>
    refine ⟨⟨'\x7b', _, rfl, by decide, by decide⟩, fun rest _ => ?_⟩
    obtain ⟨cs, hstart⟩ := writeMembers_starts l (n + 1) (List.cons_ne_nil m members)
    have hlength := length_le_writeMembers l (n + 1) (m :: members)
    set text := '"' :: (cs ++ (l.newline n ++ '\x7d' :: rest)) with htext
    have hfuel : (m :: members).length ≤ text.length + 1 := by
      rw [hstart] at hlength
      simp only [htext, List.length_cons, List.length_append] at hlength ⊢
      omega
    have hdistinct : (([] ++ m :: members).map Prod.fst).Nodup := hnames
    have hread := readMembers_writeMembers hl h (List.cons_ne_nil m members) hdistinct
      (isSpace_newline l n) rest hfuel
    rw [hstart, List.cons_append, ← htext] at hread
    have hwrite : l.write n (.object (m :: members)) ++ rest =
        '\x7b' :: (l.newline (n + 1) ++ text) := by
      rw [write_object_cons, hstart, htext]
      simp
    have hskip : skipSpace (l.newline (n + 1) ++ text) = text := by
      rw [skipSpace_append (isSpace_newline l (n + 1)), htext, skipSpace_cons (by decide)]
    rw [hwrite, readValue_object hskip (by simp [htext]), hread]
    rfl

end

theorem readsBack {l : Layout} (hl : l.IsSpaced) {depth : Nat} {j : Json} (h : IsReadable depth j)
    (n : Nat) : ReadsBack l n (readValue depth) j := by
  induction h generalizing n with
  | null => exact readsBack_word "null" (by simp) rfl _
  | bool b =>
    cases b with
    | false => exact readsBack_word "false" (by simp) rfl _
    | true => exact readsBack_word "true" (by simp) rfl _
  | int hi => exact readsBack_int hi n _
  | text us => exact readsBack_text us n _
  | list h ih => exact readsBack_list hl fun j hj => ih j hj (n + 1)
  | object hnames h ih => exact readsBack_object hl hnames fun m hm => ih m hm (n + 1)

/-! ## Texts of values -/

/-- The value of a text that may hold lists and objects of that depth. -/
def readWithin (depth : Nat) (text : List Char) : Except Failure Json :=
  if text.head? = some '\uFEFF' then complain .byteOrderMark text
  else do
    let (v, r) ← readValue depth (skipSpace text)
    match skipSpace r with
    | [] => return v
    | r => complain .extra r

theorem read_eq_readWithin (text : List Char) : read text = readWithin deepest text := rfl

theorem IsReadable.of_le {depth depth' : Nat} {j : Json} (h : IsReadable depth j)
    (hle : depth ≤ depth') : IsReadable depth' j := by
  induction h generalizing depth' with
  | null => exact .null
  | bool b => exact .bool b
  | int hi => exact .int hi
  | text us => exact .text us
  | list _ ih =>
    obtain ⟨depth', rfl⟩ : ∃ k, depth' = k + 1 := ⟨depth' - 1, by omega⟩
    exact .list fun j hj => ih j hj (Nat.le_of_succ_le_succ hle)
  | object hnames _ ih =>
    obtain ⟨depth', rfl⟩ : ∃ k, depth' = k + 1 := ⟨depth' - 1, by omega⟩
    exact .object hnames fun m hm => ih m hm (Nat.le_of_succ_le_succ hle)

/-- The text of a value is read as the value. -/
theorem readWithin_render {l : Layout} (hl : l.IsSpaced) {depth : Nat} {j : Json}
    (h : IsReadable depth j) : readWithin depth (render l j).toList = .ok j := by
  obtain ⟨⟨c, cs, hstart, hspace, hne⟩, hreads⟩ := readsBack hl h 0
  have hmark : c ≠ '\uFEFF' := by
    rintro rfl
    exact hne (by decide)
  have hread := hreads [] nofun
  rw [List.append_nil] at hread
  have hskip : skipSpace (l.write 0 j) = l.write 0 j := by rw [hstart, skipSpace_cons hspace]
  rw [render, String.toList_ofList, readWithin, if_neg (by simpa [hstart] using hmark), hskip,
    hread]
  rfl

end FlowPipeline.Json
