import FlowPipeline.Proofs.TokenPlaces
import FlowPipeline.Script.Grammar
import Mathlib.Data.List.TakeWhile

/-! # Scripts by the grammar

A rule reads a text from its start and leaves the rest of it. A token is as long as the characters
that are left let it be. Nothing is decided here between several readings: a text is a script if
there is one.
-/

namespace FlowPipeline.Script

/-! ## Places -/

namespace Place

theorem rest_advance (p : Place) (n : Nat) : (p.advance n).rest = p.rest.drop n := by
  induction n generalizing p with
  | zero => rfl
  | succ n ih =>
    rw [advance, ih, next]
    rcases h : p.rest with _ | ⟨c, cs⟩
    · simp [h]
    · rfl

end Place

/-! ## Readings -/

/-- The terminals among which one is told apart: those within texts, or all that can be told apart
without knowing what may come next. -/
def Terminal.rivals : Terminal → Terminals
  | .doubleText | .escape => .ofList [.doubleText, .escape, .doubleQuote]
  | _ => .ofList Terminal.contextFree

/-- A terminal stands at the start of a text, wherever that is, and leaves the rest of it. -/
def Stands (t : Terminal) (cs rest : List Char) : Prop :=
  ∀ p : Place, p.rest = cs →
    (Scanner.token t.rivals p).terminal = some t ∧ (Scanner.token t.rivals p).stop.rest = rest

/-- A rule reads a text from its start and leaves the rest of it. -/
inductive Reads : Rule → List Char → List Char → Prop where
  | nothing (cs : List Char) : Reads .nothing cs cs
  | terminal {t : Terminal} {cs rest : List Char} (h : Stands t cs rest) :
    Reads (.one (.terminal t)) cs rest
  | phrase {p : Phrase} {f : Form} {cs rest : List Char} (hf : f ∈ forms p)
    (h : Reads f.rule cs rest) : Reads (.one (.phrase p)) cs rest
  | both {a b : Rule} {cs ds rest : List Char} (h : Reads a cs ds) (h' : Reads b ds rest) :
    Reads (.both a b) cs rest
  | left {a b : Rule} {cs rest : List Char} (h : Reads a cs rest) : Reads (.either a b) cs rest
  | right {a b : Rule} {cs rest : List Char} (h : Reads b cs rest) : Reads (.either a b) cs rest

/-- The whole text is a script. -/
def IsScript (source : String) : Prop :=
  ∃ rest, Reads (.one (.phrase .script)) source.toList rest ∧ Stands .finish rest []

namespace Scanner

/-! ## Tokens that need no context -/

/-- The terminals that need no context. -/
abbrev free : Terminals := .ofList Terminal.contextFree

theorem contains_free : ∀ t ∈ Terminal.contextFree, free.contains t = true := by decide +kernel

theorem rivals_eq_free {t : Terminal} (h : t ∈ Terminal.contextFree) : t.rivals = free := by
  unfold Terminal.rivals
  split
  · exact absurd h (by decide)
  · exact absurd h (by decide)
  · rfl

theorem contextual_free (p : Place) : contextual free p = none := by
  obtain ⟨htemplate, hline, hsignature, hmark, hor⟩ : free.contains .templateText = false ∧
      free.contains .lineEnd = false ∧ free.contains .signatureEnd = false ∧
      free.contains .ternaryMark = false ∧ free.contains .orOr = true := by decide +kernel
  simp [contextual, htemplate, hline, hsignature, hmark, hor]

theorem inner_free (p : Place) : inner free p = none := by
  have hnone : ∀ t ∈ innerTokens.map Prod.fst, free.contains t = false := by decide +kernel
  rw [inner, List.findSome?_eq_none_iff]
  intro x hx
  simp [hnone x.1 (List.mem_map_of_mem hx)]

/-- A longer sign that may come next is preferred. -/
def longer (valid : Terminals) (cs : List Char) (best : Option (Nat × Terminal))
    (s : List Char × Terminal) : Option (Nat × Terminal) :=
  if (best.map (·.1)).getD 0 < s.1.length && s.1.isPrefixOf cs && valid.contains s.2 then
    some (s.1.length, s.2)
  else best

/-- Only the signs that stand at the start of the text count. -/
theorem sign_eq_foldl (valid : Terminals) (cs : List Char) :
    sign valid cs =
      (Terminal.signs.filter fun s => s.1.isPrefixOf cs).foldl (longer valid cs) none := by
  rw [List.foldl_filter]
  show Terminal.signs.foldl (longer valid cs) none = _
  congr 1
  funext best s
  split_ifs with hs
  · rfl
  · rw [longer, if_neg (by simp [hs])]

theorem sign_eq_none {cs : List Char} (h : ∀ s ∈ Terminal.signs, ¬s.1 <+: cs)
    (valid : Terminals) : sign valid cs = none := by
  have hnone : (Terminal.signs.filter fun s => s.1.isPrefixOf cs) = [] :=
    List.filter_eq_nil_iff.2 fun s hs => by simpa using h s hs
  rw [sign_eq_foldl, hnone]
  rfl

/-- Neither a digit nor a point, so that no number starts here. -/
theorem number_eq_zero {c : Char} (hdigit : c.isDigit = false) (hpoint : c ≠ '.')
    (cs : List Char) : number (c :: cs) = 0 := by
  have hzero : c ≠ '0' := by
    rintro rfl
    cases hdigit
  have hnone : digits Char.isDigit (c :: cs) = 0 := by simp [digits, hdigit]
  have hwhole : whole (c :: cs) = 0 := by simp [whole, hzero, hnone]
  simp [number, hzero, hnone, hwhole, hpoint]

/-- The first character of a token that is neither a number nor a comment nor a private name. -/
structure IsLead (c : Char) : Prop where
  blank : isBlank c = false
  digit : c.isDigit = false
  other : c ∉ ['.', '/', '#']

instance (c : Char) : Decidable (IsLead c) :=
  decidable_of_iff (isBlank c = false ∧ c.isDigit = false ∧ c ∉ ['.', '/', '#'])
    ⟨fun h => ⟨h.1, h.2.1, h.2.2⟩, fun h => ⟨h.1, h.2, h.3⟩⟩

namespace IsLead

variable {c : Char} {cs : List Char} {p : Place}

theorem start (h : IsLead c) (hp : p.rest = c :: cs) : p.dropWhile isBlank = p := by
  rw [Place.dropWhile, hp, List.takeWhile_cons_of_neg (by simp [h.blank])]
  rfl

theorem comment (h : IsLead c) (cs : List Char) : Scanner.comment (c :: cs) = 0 := by
  have hslash : c ≠ '/' := fun hc => h.other (by simp [hc])
  simp [Scanner.comment, hslash]

theorem number (h : IsLead c) (cs : List Char) : Scanner.number (c :: cs) = 0 :=
  number_eq_zero h.digit (fun hc => h.other (by simp [hc])) cs

theorem sharp (h : IsLead c) : c ≠ '#' := fun hc => h.other (by simp [hc])

/-- The token is the sign that stands here. -/
theorem token_sign (h : IsLead c) (hp : p.rest = c :: cs) {k : Nat} {t : Terminal}
    (hsign : sign free (c :: cs) = some (k, t)) :
    token free p = ⟨some t, p, p.advance k, false⟩ := by
  rw [token, contextual_free, inner_free]
  simp only [Option.none_or, h.start hp, hp, h.comment, h.number, h.sharp, hsign, ite_self,
    Nat.lt_irrefl, Nat.not_lt_zero, if_false, decide_false, Bool.and_false, Bool.false_and,
    Bool.false_eq_true]

/-- The token is the word that stands here, one of the grammar's or not. -/
theorem token_word (h : IsLead c) (hp : p.rest = c :: cs) (hsign : sign free (c :: cs) = none)
    (hword : word (c :: cs) ≠ 0) {t : Terminal}
    (ht : Terminal.words.lookup ((c :: cs).take (word (c :: cs))) = some t ∧
      free.contains t = true ∨
      Terminal.words.lookup ((c :: cs).take (word (c :: cs))) = none ∧ t = .name) :
    (token free p).terminal = some t ∧
      (token free p).stop = p.advance (word (c :: cs)) := by
  rw [token, contextual_free, inner_free]
  rcases ht with ⟨hlookup, hfree⟩ | ⟨hlookup, rfl⟩
  · simp only [Option.none_or, h.start hp, hp, h.comment, h.number, h.sharp, hsign, hword, hlookup,
      hfree, ite_self, if_true, Nat.lt_irrefl, if_false, decide_false, Bool.and_false,
      Bool.false_and, Bool.false_eq_true, and_self]
  · simp only [Option.none_or, h.start hp, hp, h.comment, h.number, h.sharp, hsign, hword, hlookup,
      ite_self, Nat.lt_irrefl, if_false, decide_false, Bool.and_false, Bool.false_and,
      Bool.false_eq_true, and_self]

end IsLead

end Scanner
open Scanner

/-! ## Where terminals stand -/

variable {t : Terminal} {c : Char} {cs rest w : List Char}

theorem isBlank_space : ∀ c ∈ [' '], isBlank c = true := List.forall_mem_singleton.2 (by decide)

theorem isBlank_line : ∀ c ∈ ['\n'], isBlank c = true := List.forall_mem_singleton.2 (by decide)

/-- A terminal that needs no context stands behind blanks as well. -/
theorem Stands.of_blanks (ht : t.rivals = free) {blanks : List Char}
    (hblanks : ∀ c ∈ blanks, isBlank c = true) (h : Stands t cs rest) :
    Stands t (blanks ++ cs) rest := by
  intro p hp
  have hbehind : (p.advance blanks.length).rest = cs := by
    rw [Place.rest_advance, hp, List.drop_left]
  have hskip : p.dropWhile isBlank = (p.advance blanks.length).dropWhile isBlank := by
    rw [Place.dropWhile, Place.dropWhile, hbehind, ← Place.advance_add, hp,
      List.takeWhile_append_of_pos hblanks, List.length_append]
  have htoken : token free p = token free (p.advance blanks.length) := by
    rw [token, token, contextual_free, contextual_free, inner_free, inner_free, hskip]
  rw [ht, htoken, ← ht]
  exact h _ hbehind

/-- A sign of one character stands where no other sign does. -/
theorem stands_sign (h : Terminal.signs.filter (fun s => s.1.isPrefixOf (c :: cs)) = [([c], t)])
    (hc : IsLead c) : Stands t (c :: cs) cs := by
  have hmem : ([c], t) ∈ Terminal.signs :=
    (List.mem_filter.1 (h ▸ List.mem_singleton_self ([c], t) : ([c], t) ∈ _)).1
  have hfree : t ∈ Terminal.contextFree := List.mem_append_right _ (List.mem_map_of_mem hmem)
  have hsign : sign free (c :: cs) = some (1, t) := by
    rw [sign_eq_foldl, h]
    simp [longer, contains_free t hfree]
  intro p hp
  rw [rivals_eq_free hfree, hc.token_sign hp hsign]
  exact ⟨rfl, by rw [Place.rest_advance, hp]; rfl⟩

/-- A word has no character that ends one, and it does not start with a digit. -/
structure IsWord (w : List Char) : Prop where
  start : ∃ c cs, w = c :: cs ∧ c.isDigit = false
  inside : ∀ c ∈ w, isWordEnd c = false

instance (w : List Char) : Decidable (IsWord w) :=
  decidable_of_iff (w.head?.map Char.isDigit = some false ∧ w.any isWordEnd = false) <| by
    simp only [List.any_eq_false, Bool.not_eq_true]
    refine ⟨fun h => ⟨?_, h.2⟩, fun h => ⟨?_, h.inside⟩⟩
    · obtain ⟨c, hc, hdigit⟩ := Option.map_eq_some_iff.1 h.1
      obtain ⟨cs, hcs⟩ := List.head?_eq_some_iff.1 hc
      exact ⟨c, cs, hcs, hdigit⟩
    · obtain ⟨c, cs, hcs, hdigit⟩ := h.start
      rw [hcs, List.head?_cons, Option.map_some, hdigit]

/-- The terminal that a word is: a word of the grammar is its own, any other is a name. -/
def wordTerminal (w : List Char) : Terminal := (Terminal.words.lookup w).getD .name

/-- What stands behind a word does not go on with it, nor does it open a hole behind a dollar. -/
def EndsWord (rest : List Char) : Prop :=
  ∀ c ∈ rest.head?, isWordEnd c = true ∧ c ≠ '\\' ∧ c ≠ '\x7b'

theorem wordFrom_append (hw : ∀ c ∈ w, isWordEnd c = false) (hrest : EndsWord rest) :
    wordFrom 0 (w ++ rest) = w.length := by
  induction w with
  | nil =>
    rcases rest with _ | ⟨c, cs⟩
    · rfl
    · obtain ⟨hc, hslash, -⟩ := hrest c rfl
      simp [wordFrom, hc, hslash]
  | cons c w ih =>
    have hc := hw c List.mem_cons_self
    have hslash : c ≠ '\\' := by
      rintro rfl
      exact absurd hc (by decide)
    have hrec := ih fun d hd => hw d (List.mem_cons_of_mem _ hd)
    simp [wordFrom, hc, hslash, hrec]

theorem isLead_of_isWordEnd (hc : isWordEnd c = false) (hdigit : c.isDigit = false) : IsLead c := by
  refine ⟨?_, hdigit, ?_⟩
  · rw [isWordEnd, Bool.or_eq_false_iff, Bool.or_eq_false_iff] at hc
    exact hc.1.2
  · intro hmem
    have hends : ∀ d ∈ ['.', '/', '#'], isWordEnd d = true := List.all_eq_true.1 (by decide)
    simp [hends c hmem] at hc

/-- No sign starts a word, as what stands behind a dollar does not open a hole. -/
theorem sign_word (hw : IsWord w) (hrest : EndsWord rest) (valid : Terminals) :
    sign valid (w ++ rest) = none := by
  obtain ⟨c, cs, rfl, -⟩ := hw.start
  have hc : isWordEnd c = false := hw.inside c List.mem_cons_self
  have hsigns : ∀ s ∈ Terminal.signs, s.1.head?.any isWordEnd = true ∨ s.1 = ['$', '\x7b'] := by
    decide
  refine sign_eq_none (fun s hs hprefix => ?_) valid
  rcases hsigns s hs with hany | hhole
  · obtain ⟨d, hd, hends⟩ := (Option.any_eq_true _ _).1 hany
    obtain ⟨ds, hds⟩ := List.head?_eq_some_iff.1 hd
    rw [hds, List.cons_append] at hprefix
    obtain ⟨rfl, -⟩ := List.cons_prefix_cons.1 hprefix
    simp [hc] at hends
  · rw [hhole, List.cons_append] at hprefix
    obtain ⟨-, hbrace⟩ := List.cons_prefix_cons.1 hprefix
    rcases cs with _ | ⟨d, cs⟩
    · obtain ⟨ds, rfl⟩ := hbrace
      exact (hrest '\x7b' rfl).2.2 rfl
    · rw [List.cons_append] at hbrace
      obtain ⟨rfl, -⟩ := List.cons_prefix_cons.1 hbrace
      exact absurd (hw.inside '\x7b' (by simp)) (by decide)

theorem contextFree_of_lookup (h : Terminal.words.lookup w = some t) :
    t ∈ Terminal.contextFree := by
  obtain ⟨before, after, hwords, -⟩ := List.lookup_eq_some_iff.1 h
  have hmem : (w, t) ∈ Terminal.words := by simp [hwords]
  exact List.mem_append_left _ (List.mem_append_right _ (List.mem_map_of_mem hmem))

theorem token_word (hw : IsWord w) (hrest : EndsWord rest) {p : Place} (hp : p.rest = w ++ rest) :
    (token free p).terminal = some (wordTerminal w) ∧ (token free p).stop.rest = rest := by
  have hword : word (w ++ rest) = w.length := by
    obtain ⟨c, cs, rfl, hdigit⟩ := hw.start
    have hlength := wordFrom_append hw.inside hrest
    rw [List.cons_append] at hlength ⊢
    simpa [word, hdigit] using hlength
  have hlookup : Terminal.words.lookup ((w ++ rest).take (word (w ++ rest))) =
      some (wordTerminal w) ∧ free.contains (wordTerminal w) = true ∨
      Terminal.words.lookup ((w ++ rest).take (word (w ++ rest))) = none ∧
        wordTerminal w = .name := by
    rw [hword, List.take_left, wordTerminal]
    rcases h : Terminal.words.lookup w with _ | t
    · exact .inr ⟨rfl, rfl⟩
    · exact .inl ⟨rfl, contains_free t (contextFree_of_lookup h)⟩
  have hsign := sign_word hw hrest free
  obtain ⟨c, cs, hcons, hdigit⟩ := hw.start
  have hlead : IsLead c := by
    refine isLead_of_isWordEnd (hw.inside c ?_) hdigit
    rw [hcons]
    exact List.mem_cons_self
  have hlong : word (w ++ rest) ≠ 0 := by
    rw [hword, hcons]
    exact Nat.succ_ne_zero _
  have htext : w ++ rest = c :: (cs ++ rest) := by rw [hcons, List.cons_append]
  rw [htext] at hp hsign hlong hlookup
  obtain ⟨hterminal, hstop⟩ := hlead.token_word hp hsign hlong hlookup
  refine ⟨hterminal, ?_⟩
  rw [hstop, ← htext, hword, Place.rest_advance, hp, ← htext, List.drop_left]

theorem rivals_wordTerminal (w : List Char) : (wordTerminal w).rivals = free := by
  rw [wordTerminal]
  rcases h : Terminal.words.lookup w with _ | t
  · rfl
  · exact rivals_eq_free (contextFree_of_lookup h)

/-- A word stands behind blanks. -/
theorem stands_word (hw : IsWord w) {blanks : List Char} (hblanks : ∀ c ∈ blanks, isBlank c = true)
    (hrest : EndsWord rest) : Stands (wordTerminal w) (blanks ++ (w ++ rest)) rest := by
  refine Stands.of_blanks (rivals_wordTerminal w) hblanks fun p hp => ?_
  rw [rivals_wordTerminal]
  exact token_word hw hrest hp

/-- The text is the phrase wherever it stands behind blanks and something that ends it follows. -/
def IsPhrase (p : Phrase) (Ends : List Char → Prop) (text : List Char) : Prop :=
  ∀ blanks rest : List Char, (∀ c ∈ blanks, isBlank c = true) → Ends rest →
    Reads (.one (.phrase p)) (blanks ++ (text ++ rest)) rest

/-! ## Readings that are put together -/

/-- The phrase may be a single terminal. -/
def IsAlone (p : Phrase) (t : Terminal) : Prop :=
  ∃ f ∈ forms p, (Symbol.terminal t, Rule.nothing) ∈ f.rule.heads

instance (p : Phrase) (t : Terminal) : Decidable (IsAlone p t) :=
  inferInstanceAs (Decidable (∃ f ∈ forms p, _))

namespace Reads

variable {a b r : Rule} {rs : List Rule} {p : Phrase} {ds : List Char}

theorem of_andThen (ha : ∀ r, a.andThen r = if r = .nothing then a else .both a r)
    (h : Reads a cs ds) (h' : Reads b ds rest) : Reads (a.andThen b) cs rest := by
  rw [ha]
  split_ifs with hb
  · subst hb
    cases h'
    exact h
  · exact .both h h'

theorem andThen (h : Reads a cs ds) (h' : Reads b ds rest) : Reads (a.andThen b) cs rest := by
  induction h generalizing b rest with
  | nothing cs => exact h'
  | both h₁ h₂ _ ih₂ => exact .both h₁ (ih₂ h')
  | terminal h => exact of_andThen (fun _ => rfl) (.terminal h) h'
  | phrase hf h => exact of_andThen (fun _ => rfl) (.phrase hf h) h'
  | left h => exact of_andThen (fun _ => rfl) (.left h) h'
  | right h => exact of_andThen (fun _ => rfl) (.right h) h'

theorem seq_nil (cs : List Char) : Reads (.seq []) cs cs := .nothing cs

theorem seq_cons (h : Reads r cs ds) (h' : Reads (.seq rs) ds rest) :
    Reads (.seq (r :: rs)) cs rest := h.andThen h'

theorem oneOf (hr : r ∈ rs) (h : Reads r cs rest) : Reads (.oneOf rs) cs rest := by
  induction rs with
  | nil => cases hr
  | cons first others ih =>
    rcases others with _ | ⟨second, others⟩
    · rw [List.mem_singleton.1 hr] at h
      exact h
    · rcases List.mem_cons.1 hr with rfl | hr
      · exact .left h
      · exact .right (ih hr)

/-- What is optional is there. -/
theorem present (h : Reads r cs rest) : Reads (.optional r) cs rest := .left h

/-- What is optional is left out. -/
theorem absent (r : Rule) (cs : List Char) : Reads (.optional r) cs cs := .right (.nothing cs)

theorem of_mayEnd (h : r.mayEnd = true) (cs : List Char) : Reads r cs cs := by
  induction r with
  | nothing => exact .nothing cs
  | one s => cases h
  | both a b iha ihb =>
    obtain ⟨ha, hb⟩ := Bool.and_eq_true_iff.1 h
    exact .both (iha ha) (ihb hb)
  | either a b iha ihb =>
    rcases Bool.or_eq_true_iff.1 h with ha | hb
    · exact .left (iha ha)
    · exact .right (ihb hb)

theorem nothing_of_andThen (h : a.andThen b = .nothing) : a = .nothing ∧ b = .nothing := by
  cases a with
  | nothing => exact ⟨rfl, h⟩
  | both a c => cases h
  | one s =>
    rw [Rule.andThen] at h
    split_ifs at h
    all_goals nofun
  | either a c =>
    rw [Rule.andThen] at h
    split_ifs at h
    all_goals nofun

/-- A symbol that may come first and leaves nothing to come is read alone. -/
theorem of_heads {s : Symbol} (hs : (s, .nothing) ∈ r.heads) (h : Reads (.one s) cs rest) :
    Reads r cs rest := by
  induction r with
  | nothing => cases hs
  | one s' =>
    obtain ⟨rfl, -⟩ := Prod.mk.inj (List.mem_singleton.1 hs)
    exact h
  | both a b iha ihb =>
    rcases List.mem_append.1 hs with hs | hs
    · obtain ⟨⟨s', r⟩, hhead, heq⟩ := List.mem_map.1 hs
      obtain ⟨rfl, hnothing⟩ := Prod.mk.inj heq
      obtain ⟨rfl, rfl⟩ := nothing_of_andThen hnothing
      exact .both (iha hhead) (.nothing rest)
    · split_ifs at hs with hend
      · exact .both (of_mayEnd hend cs) (ihb hs)
      · cases hs
  | either a b iha ihb =>
    rcases List.mem_append.1 hs with hs | hs
    · exact .left (iha hs)
    · exact .right (ihb hs)

/-- A phrase of a single form. -/
theorem single {f : Form} (hp : forms p = [f]) (h : Reads f.rule cs rest) :
    Reads (.one (.phrase p)) cs rest :=
  .phrase (by rw [hp]; exact List.mem_singleton_self f) h

theorem plain (hp : forms p = Form.plain r) (h : Reads r cs rest) :
    Reads (.one (.phrase p)) cs rest := single hp h

theorem alone {t : Terminal} (ht : IsAlone p t) (h : Stands t cs rest) :
    Reads (.one (.phrase p)) cs rest := by
  obtain ⟨f, hf, hheads⟩ := ht
  exact .phrase hf (of_heads hheads (.terminal h))

/-- A repetition reads what its parts read one after another. -/
inductive Repeats (r : Rule) : List Char → List Char → Prop where
  | one {cs rest : List Char} (h : Reads r cs rest) : Repeats r cs rest
  | more {cs ds rest : List Char} (h : Reads r cs ds) (h' : Repeats r ds rest) : Repeats r cs rest

theorem repeated (hp : forms p = Form.repeated p r) (h : Repeats r cs rest) :
    Reads (.one (.phrase p)) cs rest := by
  induction h with
  | one h => exact plain hp (.oneOf (by simp) h)
  | more h _ ih =>
    refine plain hp (.oneOf List.mem_cons_self (.seq_cons ?_ (.seq_cons ih (.seq_nil _))))
    exact plain hp (.oneOf (by simp) h)

/-- What is read one by one where each part ends the one before it. -/
theorem repeats_flatMap {α : Type} {text : α → List Char} {Ends : List Char → Prop} {xs : List α}
    (hreads : ∀ x ∈ xs, ∀ rest, Ends rest → Reads r (text x ++ rest) rest)
    (hends : ∀ x ∈ xs, ∀ rest, Ends (text x ++ rest)) (hrest : Ends rest) (hne : xs ≠ []) :
    Repeats r (xs.flatMap text ++ rest) rest := by
  induction xs with
  | nil => exact absurd rfl hne
  | cons x xs ih =>
    obtain ⟨hx, hreads⟩ := List.forall_mem_cons.1 hreads
    obtain ⟨-, hends⟩ := List.forall_mem_cons.1 hends
    rw [List.flatMap_cons, List.append_assoc]
    rcases xs with _ | ⟨y, ys⟩
    · exact .one (hx _ hrest)
    · have hbehind : Ends ((y :: ys).flatMap text ++ rest) := by
        rw [List.flatMap_cons, List.append_assoc]
        exact hends y List.mem_cons_self _
      exact .more (hx _ hbehind) (ih hreads hends (List.cons_ne_nil y ys))

/-- A repetition that may be left out reads any number of parts. -/
theorem optional_repeated {α : Type} (Ends : List Char → Prop) (text : α → List Char) (xs : List α)
    (hp : forms p = Form.repeated p r)
    (hreads : ∀ x ∈ xs, ∀ rest, Ends rest → Reads r (text x ++ rest) rest)
    (hends : ∀ x ∈ xs, ∀ rest, Ends (text x ++ rest)) (hrest : Ends rest) :
    Reads (.optional (.one (.phrase p))) (xs.flatMap text ++ rest) rest := by
  by_cases hne : xs = []
  · subst hne
    exact .absent _ _
  · exact .present (.repeated hp (repeats_flatMap hreads hends hrest hne))

end Reads

end FlowPipeline.Script
