import FlowPipeline.Proofs.JsonRoundTrip
import FlowPipeline.Proofs.ScriptSentences
import Mathlib.Data.List.DropRight

/-! # Written numbers as tokens

A number that is written in decimals is one token of scripts, wherever something else follows. What
is written for integers and floats, up to the sign, are such numbers.
-/

namespace FlowPipeline.Script
open Scanner

variable {rest : List Char}

/-! ## Numerals -/

/-- What stands behind a number does not go on with it. -/
def EndsNumber (rest : List Char) : Prop := ∀ c ∈ rest.head?, isWordEnd c = true ∧ c ≠ '.'

/-- Digits without a zero in front of others. -/
def IsWhole (w : List Char) : Prop :=
  w = ['0'] ∨ ∃ c cs, w = c :: cs ∧ c ≠ '0' ∧ ∀ d ∈ w, d.isDigit = true

/-- Nothing, or a point and digits. -/
def IsFraction (f : List Char) : Prop := f = [] ∨ ∃ ds, f = '.' :: ds ∧ ∀ d ∈ ds, d.isDigit = true

/-- Nothing, or an exponent with a sign. -/
def IsExponent (e : List Char) : Prop :=
  e = [] ∨ ∃ s ds, e = 'e' :: s :: ds ∧ (s = '+' ∨ s = '-') ∧ ds ≠ [] ∧ ∀ d ∈ ds, d.isDigit = true

theorem more_cons {c : Char} (h : c ≠ '_') (f : Char → Bool) (cs : List Char) :
    digits.more f (c :: cs) = if f c then digits.more f cs + 1 else 0 := by
  rw [digits.more]
  exact fun _ _ hline => absurd hline h

/-- Behind digits stands something else, and no line between digits either. -/
def EndsDigits (rest : List Char) : Prop := ∀ c ∈ rest.head?, c.isDigit = false ∧ c ≠ '_'

theorem more_append {ds : List Char} (hds : ∀ d ∈ ds, d.isDigit = true) (hrest : EndsDigits rest) :
    digits.more Char.isDigit (ds ++ rest) = ds.length := by
  induction ds with
  | nil =>
    rcases rest with _ | ⟨c, cs⟩
    · rfl
    · obtain ⟨hdigit, hline⟩ := hrest c rfl
      simp [more_cons hline, hdigit]
  | cons d ds ih =>
    have hd := hds d List.mem_cons_self
    have hline : d ≠ '_' := by
      rintro rfl
      cases hd
    have hrec := ih fun c hc => hds c (List.mem_cons_of_mem _ hc)
    simp [more_cons hline, hd, hrec]

theorem digits_append {ds : List Char} (hds : ∀ d ∈ ds, d.isDigit = true)
    (hrest : EndsDigits rest) : digits Char.isDigit (ds ++ rest) = ds.length := by
  rcases ds with _ | ⟨d, ds⟩
  · rcases rest with _ | ⟨c, cs⟩
    · rfl
    · simp [digits, (hrest c rfl).1]
  · have hmore := more_append (fun c hc => hds c (List.mem_cons_of_mem _ hc)) hrest
    simp [digits, hds d List.mem_cons_self, hmore]

theorem mem_digits {c : Char} (h : c.isDigit = true) : c ∈ "0123456789".toList := by
  have hall : ∀ n < 58, 48 ≤ n → Char.ofNat n ∈ "0123456789".toList := by decide
  simp only [Char.isDigit, Bool.and_eq_true, decide_eq_true_eq] at h
  have hrange : 48 ≤ c.toNat ∧ c.toNat < 58 := ⟨h.1, Nat.lt_succ_of_le h.2⟩
  rw [← Char.ofNat_toNat c]
  exact hall _ hrange.2 hrange.1

theorem isWordEnd_digit {c : Char} (h : c.isDigit = true) : isWordEnd c = false := by
  have hall : "0123456789".toList.any isWordEnd = false := by decide
  simpa using List.any_eq_false.1 hall c (mem_digits h)

theorem EndsNumber.endsDigits (h : EndsNumber rest) : EndsDigits rest := by
  intro c hc
  obtain ⟨hend, -⟩ := h c hc
  refine ⟨?_, ?_⟩
  · by_contra hdigit
    simp [isWordEnd_digit (by simpa using hdigit)] at hend
  · rintro rfl
    exact absurd hend (by decide)

theorem exponent_append {e : List Char} (he : IsExponent e) (hrest : EndsNumber rest) :
    exponent (e ++ rest) = e.length := by
  rcases he with rfl | ⟨s, ds, rfl, hs, hne, hds⟩
  · rcases rest with _ | ⟨c, cs⟩
    · rfl
    · have hc : ¬(c = 'e' ∨ c = 'E') := by
        rintro (rfl | rfl) <;> exact absurd (hrest _ rfl).1 (by decide)
      simp [exponent, hc]
  · have hdigits := digits_append hds hrest.endsDigits
    have hlong := List.length_pos_iff.2 hne
    rcases hs with rfl | rfl <;> simp [exponent, run, hdigits, hlong] <;> omega

theorem whole_append {w : List Char} (hw : IsWhole w) (hrest : EndsDigits rest) :
    whole (w ++ rest) = w.length := by
  rcases hw with rfl | ⟨c, cs, rfl, hc, hdigits⟩
  · rcases rest with _ | ⟨c, cs⟩
    · rfl
    · have hzero : c ≠ '0' := by
        rintro rfl
        exact absurd (hrest _ rfl).1 (by decide)
      simp [whole, hzero, digits, (hrest c rfl).1]
  · have hlength := digits_append hdigits hrest
    rw [List.cons_append] at hlength ⊢
    simp [whole, hc, hlength]

/-- How many characters a number has behind its whole part. -/
def behindWhole : List Char → Nat
  | '.' :: r => 1 + digits Char.isDigit r + exponent (r.drop (digits Char.isDigit r))
  | r => exponent r

theorem broken_eq (n : Nat) (tail : List Char) :
    max (n + 1) (match n + 1, tail with
      | 0, '.' :: r =>
        if (r.headD ' ').isDigit then
          1 + digits Char.isDigit r + exponent (r.drop (digits Char.isDigit r))
        else 0
      | 0, _ => 0
      | n, '.' :: r => n + (1 + digits Char.isDigit r + exponent (r.drop (digits Char.isDigit r)))
      | n, r => if 0 < exponent r then n + exponent r else 0) = n + 1 + behindWhole tail := by
  rcases tail with _ | ⟨c, cs⟩
  · simp [behindWhole, exponent]
  · by_cases hc : c = '.'
    · subst hc
      simp only [behindWhole]
      omega
    · simp only [List.cons.injEq, hc, false_and, imp_self, implies_true, behindWhole]
      split_ifs <;> omega

theorem number_eq {w tail : List Char} (hw : IsWhole w) (htail : EndsDigits tail)
    (hbase : ∀ c ∈ tail.head?, c ∉ ['x', 'X', 'o', 'O', 'b', 'B', 'n']) :
    number (w ++ tail) = w.length + behindWhole tail := by
  have hdigits : digits Char.isDigit (w ++ tail) = w.length := by
    rcases hw with rfl | ⟨c, cs, rfl, -, hdigits⟩
    · exact digits_append (List.forall_mem_singleton.2 rfl) htail
    · exact digits_append hdigits htail
  have hwhole := whole_append hw htail
  have hlarge : tail.head? ≠ some 'n' := fun hn => hbase 'n' hn (by decide)
  unfold number
  simp only [hdigits, hwhole, List.drop_left]
  rcases hw with rfl | ⟨c, cs, rfl, hc, -⟩
  · rcases tail with _ | ⟨b, r⟩
    · simp [behindWhole, exponent]
    · have hb := hbase b rfl
      simp only [List.mem_cons, List.not_mem_nil, or_false, not_or] at hb
      obtain ⟨h₁, h₂, h₃, h₄, h₅, h₆, h₇⟩ := hb
      simp only [List.cons_append, List.nil_append, List.length_cons, List.length_nil,
        List.drop_succ_cons, List.drop_zero, List.head?_cons, Option.some_inj, h₁, h₂, h₃, h₄, h₅,
        h₆, h₇, or_self, if_false, decide_false, Bool.and_false, Bool.false_eq_true, Nat.max_zero,
        Nat.zero_max]
      exact broken_eq 0 (b :: r)
  · simp only [List.cons_append, List.cons.injEq, hc, false_and, imp_self, implies_true,
      List.length_cons, Nat.le_add_left, Nat.max_eq_right, Nat.zero_lt_succ, decide_true,
      List.drop_succ_cons, List.drop_left', hlarge, decide_false, Bool.and_false,
      Bool.false_eq_true, if_false, Nat.max_eq_left]
    exact broken_eq cs.length tail

theorem behindWhole_append {f e : List Char} (hf : IsFraction f) (he : IsExponent e)
    (hrest : EndsNumber rest) : behindWhole (f ++ (e ++ rest)) = f.length + e.length := by
  have hexponent := exponent_append he hrest
  rcases hf with rfl | ⟨ds, rfl, hds⟩
  · have hpoint : ∀ r, e ++ rest ≠ '.' :: r := by
      intro r heq
      rcases he with rfl | ⟨s, ds, rfl, -⟩
      · exact (hrest '.' (by simp [show rest = '.' :: r from heq])).2 rfl
      · cases heq
    have hbehind : behindWhole (e ++ rest) = exponent (e ++ rest) := by
      rw [behindWhole]
      exact hpoint
    rw [List.nil_append, hbehind, hexponent, List.length_nil, Nat.zero_add]
  · have hends : EndsDigits (e ++ rest) := by
      rcases he with rfl | ⟨s, ds, rfl, -⟩
      · exact hrest.endsDigits
      · rintro c ⟨⟩
        decide
    have hdigits := digits_append hds hends
    rw [List.cons_append, behindWhole, hdigits, List.drop_left, hexponent, List.length_cons]
    omega

/-- The characters of a number: whole part, fraction and exponent. -/
def IsNumeral (cs : List Char) : Prop :=
  ∃ w f e, cs = w ++ (f ++ e) ∧ IsWhole w ∧ IsFraction f ∧ IsExponent e

theorem number_append {cs : List Char} (h : IsNumeral cs) (hrest : EndsNumber rest) :
    number (cs ++ rest) = cs.length := by
  obtain ⟨w, f, e, rfl, hw, hf, he⟩ := h
  have htail : ∀ c ∈ (f ++ (e ++ rest)).head?,
      c.isDigit = false ∧ c ∉ ['_', 'x', 'X', 'o', 'O', 'b', 'B', 'n'] := by
    intro c hc
    rcases hf with rfl | ⟨ds, rfl, -⟩
    · rcases he with rfl | ⟨s, ds, rfl, -⟩
      · have hinside : ['_', 'x', 'X', 'o', 'O', 'b', 'B', 'n'].any isWordEnd = false := by decide
        exact ⟨(hrest.endsDigits c hc).1,
          fun hmem => List.any_eq_false.1 hinside c hmem (hrest c hc).1⟩
      · obtain rfl : 'e' = c := Option.some.inj hc
        decide
    · obtain rfl : '.' = c := Option.some.inj hc
      decide
  rw [List.append_assoc, List.append_assoc, number_eq hw, behindWhole_append hf he hrest]
  · simp
  · exact fun c hc => ⟨(htail c hc).1, fun hline => (htail c hc).2 (by simp [hline])⟩
  · exact fun c hc hmem => (htail c hc).2 (List.mem_cons_of_mem _ hmem)

theorem IsNumeral.exists_cons {cs : List Char} (h : IsNumeral cs) :
    ∃ c ds, cs = c :: ds ∧ c.isDigit = true := by
  obtain ⟨w, f, e, rfl, hw, -⟩ := h
  rcases hw with rfl | ⟨c, ds, rfl, -, hdigits⟩
  · exact ⟨'0', _, rfl, rfl⟩
  · exact ⟨c, _, rfl, hdigits c List.mem_cons_self⟩

theorem stands_number {cs : List Char} (h : IsNumeral cs) (hrest : EndsNumber rest) :
    Stands .number (cs ++ rest) rest := by
  intro p hp
  have hnumber := number_append h hrest
  have hbehind : (p.advance cs.length).rest = rest := by
    rw [Place.rest_advance, hp, List.drop_left]
  obtain ⟨c, ds, rfl, hdigit⟩ := h.exists_cons
  have hall : "0123456789".toList.all (fun d => !isBlank d && d != '/' && d != '#' &&
      Terminal.signs.all fun s => s.1.head? != some d && s.1 != []) = true := by decide
  obtain ⟨⟨⟨hblank, hslash⟩, hsharp⟩, hsigns⟩ : ((isBlank c = false ∧ c ≠ '/') ∧ c ≠ '#') ∧
      ∀ s ∈ Terminal.signs, s.1.head? ≠ some c ∧ s.1 ≠ [] := by
    simpa only [Bool.and_eq_true, Bool.not_eq_true', bne_iff_ne, List.all_eq_true] using
      List.all_eq_true.1 hall c (mem_digits hdigit)
  have hstart : p.dropWhile isBlank = p := by
    rw [Place.dropWhile, hp, List.cons_append, List.takeWhile_cons_of_neg (by simp [hblank])]
    rfl
  have hcomment : comment (c :: (ds ++ rest)) = 0 := by simp [comment, hslash]
  have hsign : sign free (c :: (ds ++ rest)) = none := by
    refine sign_eq_none (fun s hs hprefix => ?_) free
    obtain ⟨hhead, hne⟩ := hsigns s hs
    obtain ⟨d, ds', hcons⟩ := List.exists_cons_of_ne_nil hne
    rw [hcons] at hprefix hhead
    exact hhead (congrArg some (List.cons_prefix_cons.1 hprefix).1)
  have hfree : free.contains .number = true := contains_free .number (by decide)
  have hrivals : Terminal.number.rivals = free := rfl
  rw [List.cons_append] at hp hnumber
  rw [hrivals, token, contextual_free, inner_free]
  simp only [Option.none_or, hstart, hp, hcomment, hsharp, hsign, hfree, hnumber,
    Nat.lt_irrefl, if_false, if_true, decide_false, Bool.and_false, Bool.false_and,
    Bool.false_eq_true, List.length_cons, Nat.zero_lt_succ]
  exact ⟨trivial, hbehind⟩

theorem isDigit_of_mem_toDigits {n : Nat} : ∀ d ∈ Nat.toDigits 10 n, d.isDigit = true :=
  fun _ hd => Nat.isDigit_of_mem_toDigits (by decide) (by decide) hd

theorem isWhole_toDigits (n : Nat) : IsWhole (Nat.toDigits 10 n) := by
  by_cases hn : n = 0
  · rw [hn]
    exact .inl rfl
  · obtain ⟨c, cs, hcs, hc, -⟩ := Json.toDigits_eq_cons hn
    exact .inr ⟨c, cs, hcs, hc, isDigit_of_mem_toDigits⟩

theorem isNumeral_toDigits (n : Nat) : IsNumeral (Nat.toDigits 10 n) :=
  ⟨_, [], [], by simp, isWhole_toDigits n, .inl rfl, .inl rfl⟩

theorem padded_digits (width n : Nat) :
    Text.padded width n ≠ [] ∧ ∀ d ∈ Text.padded width n, d.isDigit = true := by
  refine ⟨by simp [Text.padded, Nat.toDigits_ne_nil], fun d hd => ?_⟩
  rcases List.mem_append.1 hd with hd | hd
  · rw [List.eq_of_mem_replicate hd]
    rfl
  · exact isDigit_of_mem_toDigits d hd

/-- The digits of a decimal start with a zero only if that is the whole number. -/
theorem toDigits_decimal (d : Decimal) : d.toDigits = (['0'], 1) ∨
    ∃ c cs point, d.toDigits = (c :: cs, point) ∧ c ≠ '0' ∧ ∀ e ∈ c :: cs, e.isDigit = true := by
  rw [Decimal.toDigits]
  by_cases hzero : d.coefficient = 0
  · rw [if_pos hzero]
    exact .inl rfl
  · rw [if_neg hzero]
    obtain ⟨c, cs, hcs, hc, -⟩ := Json.toDigits_eq_cons hzero
    obtain ⟨zeros, hprefix⟩ : (Nat.toDigits 10 d.coefficient).rdropWhile (· == '0') <+:
        Nat.toDigits 10 d.coefficient := List.rdropWhile_prefix _ _
    have hne : (Nat.toDigits 10 d.coefficient).rdropWhile (· == '0') ≠ [] := by
      intro hnil
      have hzeros := List.rdropWhile_eq_nil_iff.1 hnil c (by simp [hcs])
      exact hc (by simpa using hzeros)
    obtain ⟨e, es, hkept⟩ := List.exists_cons_of_ne_nil hne
    refine .inr ⟨e, es, _, congrArg (·, _) hkept, ?_, fun x hx => ?_⟩
    · rw [hkept, hcs, List.cons_append] at hprefix
      rwa [(List.cons.inj hprefix).1]
    · have hmem : x ∈ Nat.toDigits 10 d.coefficient := by
        rw [← hprefix, hkept]
        exact List.mem_append_left _ hx
      exact isDigit_of_mem_toDigits x hmem

theorem isNumeral_layOut_zero : IsNumeral (Binary64.layOut ['0'] 1) :=
  ⟨['0'], ['.', '0'], [], by decide, .inl rfl, .inr ⟨['0'], rfl, List.forall_mem_singleton.2 rfl⟩,
    .inl rfl⟩

theorem isNumeral_layOut {c : Char} {cs : List Char} (hc : c ≠ '0')
    (hdigits : ∀ e ∈ c :: cs, e.isDigit = true) (point : Int) :
    IsNumeral (Binary64.layOut (c :: cs) point) := by
  have hzeros (n : Nat) : ∀ d ∈ List.replicate n '0', d.isDigit = true := fun d hd => by
    rw [List.eq_of_mem_replicate hd]
    rfl
  have hcs : ∀ d ∈ cs, d.isDigit = true := fun d hd => hdigits d (List.mem_cons_of_mem _ hd)
  have hone : IsWhole [c] := .inr ⟨c, [], rfl, hc, fun d hd => hdigits d (by simp_all)⟩
  unfold Binary64.layOut
  by_cases hfar : point < -3 ∨ 16 < point
  · rw [if_pos hfar]
    dsimp only
    generalize he : 'e' :: (if point - 1 < 0 then '-' else '+') ::
      Text.padded 2 (point - 1).natAbs = e
    have hexponent : IsExponent e := by
      refine .inr ⟨_, _, he.symm, ?_, padded_digits 2 _⟩
      split_ifs
      · exact .inr rfl
      · exact .inl rfl
    rcases cs with _ | ⟨d, ds⟩
    · exact ⟨[c], [], e, rfl, hone, .inl rfl, hexponent⟩
    · exact ⟨[c], '.' :: d :: ds, e, rfl, hone, .inr ⟨_, rfl, hcs⟩, hexponent⟩
  rw [if_neg hfar]
  by_cases hsmall : point ≤ 0
  · rw [if_pos hsmall]
    refine ⟨['0'], '.' :: (List.replicate point.natAbs '0' ++ c :: cs), [], by simp, .inl rfl,
      .inr ⟨_, rfl, fun d hd => ?_⟩, .inl rfl⟩
    exact (List.mem_append.1 hd).elim (hzeros _ d) (hdigits d)
  · rw [if_neg hsmall]
    obtain ⟨n, hn⟩ : ∃ n, point.toNat = n + 1 := ⟨point.toNat - 1, by omega⟩
    dsimp only
    rw [hn]
    split_ifs with hshort
    · refine ⟨c :: cs ++ List.replicate (n + 1 - (c :: cs).length) '0', ['.', '0'], [], by simp,
        .inr ⟨c, _, rfl, hc, fun d hd => ?_⟩, .inr ⟨['0'], rfl, List.forall_mem_singleton.2 rfl⟩,
        .inl rfl⟩
      exact (List.mem_append.1 hd).elim (hdigits d) (hzeros _ d)
    · refine ⟨(c :: cs).take (n + 1), '.' :: (c :: cs).drop (n + 1), [], by simp,
        .inr ⟨c, _, List.take_succ_cons, hc, fun d hd => ?_⟩, .inr ⟨_, rfl, fun d hd => ?_⟩,
        .inl rfl⟩
      · exact hdigits d (List.mem_of_mem_take hd)
      · exact hdigits d (List.mem_of_mem_drop hd)

theorem isNumeral_decimal (d : Decimal) :
    IsNumeral (Binary64.layOut d.toDigits.1 d.toDigits.2) := by
  rcases toDigits_decimal d with h | ⟨c, cs, point, h, hc, hdigits⟩
  · rw [h]
    exact isNumeral_layOut_zero
  · rw [h]
    exact isNumeral_layOut hc hdigits point

end FlowPipeline.Script
