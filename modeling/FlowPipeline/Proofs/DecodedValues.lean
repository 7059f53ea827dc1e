import FlowPipeline.Json.OfValue
import FlowPipeline.Proofs.JsonRoundTrip
import FlowPipeline.Proofs.Utf16RoundTrip
import FlowPipeline.Proofs.ValueErrors
import Mathlib.Data.List.Forall2
import Mathlib.Data.List.Nodup

/-! # Values behind JSON

A plain value holds truth values, integers, texts, lists and mappings whose keys are texts. It has a
JSON form unless one of its integers has too many digits, and what is written of that form, in any
layout, is decoded to the value itself.
-/

namespace FlowPipeline

/-- The mapping of names to values. -/
def Value.dict (members : List (String × Value)) : Value :=
  .map (members.map fun m => (.text m.1, m.2))

/-! ## Decoding -/

namespace Json

mutual

/-- The value that JSON stands for. -/
def toValue : Json → Value
  | .null => .null
  | .bool b => .scalar (.bool b)
  | .int i => .scalar (.int i)
  | .float x => .scalar (.float x)
  | .text us => .text (Text.Utf16.decode us)
  | .list items => .list (itemsToValue items)
  | .object members => .map (membersToValue members)

def itemsToValue : List Json → List Value
  | [] => []
  | j :: js => toValue j :: itemsToValue js

def membersToValue : List (List UInt16 × Json) → Mapping
  | [] => []
  | (k, j) :: ms => (.text (Text.Utf16.decode k), toValue j) :: membersToValue ms

end

/-- The value of a JSON text with at most so many lists and objects within each other. -/
def decode (depth : Nat) (text : String) : Option Value :=
  (readWithin depth text.toList).toOption.map toValue

/-- Readable JSON together with its value. -/
structure Stands (depth : Nat) (j : Json) (v : Value) : Prop where
  readable : IsReadable depth j
  value : j.toValue = v

/-- The member of an object for an entry of a mapping. -/
structure MemberStands (depth : Nat) (m : List UInt16 × Json) (e : Scalar × Value) : Prop where
  name : ∃ s, e.1 = .text s ∧ Text.Utf16.IsWhole s ∧ m.1 = Text.Utf16.encode s
  value : Stands depth m.2 e.2

namespace Stands

variable {depth : Nat} {j : Json} {v : Value}

theorem of_le {depth' : Nat} (h : Stands depth j v) (hle : depth ≤ depth') : Stands depth' j v :=
  ⟨h.readable.of_le hle, h.value⟩

theorem decode_render (h : Stands depth j v) {l : Layout} (hl : l.IsSpaced) :
    decode depth (render l j) = some v := by
  rw [decode, readWithin_render hl h.readable]
  exact congrArg some h.value

theorem null : Stands depth .null .null := ⟨.null, toValue.eq_def _⟩

theorem bool (b : Bool) : Stands depth (.bool b) (.scalar (.bool b)) := ⟨.bool b, toValue.eq_def _⟩

theorem str {s : String} (h : Text.Utf16.IsWhole s) : Stands depth (.str s) (.text s) := by
  refine ⟨.text _, ?_⟩
  rw [Json.str, toValue, Text.Utf16.decode_encode h]

theorem list {js : List Json} {vs : List Value} (h : List.Forall₂ (Stands depth) js vs) :
    Stands (depth + 1) (.list js) (.list vs) := by
  have hitems : itemsToValue js = vs := by
    induction h with
    | nil => rfl
    | cons hj _ ih => rw [itemsToValue, hj.value, ih]
  have hreadable : ∀ j ∈ js, IsReadable depth j := by
    clear hitems
    induction h with
    | nil => exact nofun
    | cons hj _ ih => exact List.forall_mem_cons.2 ⟨hj.readable, ih⟩
  exact ⟨.list hreadable, by rw [toValue, hitems]⟩

/-- The list of what parts make stands for the list of their values. -/
theorem listOf {α : Type} {json : α → Json} {value : α → Value} {as : List α}
    (h : ∀ a ∈ as, Stands depth (json a) (value a)) :
    Stands (depth + 1) (.list (as.map json)) (.list (as.map value)) :=
  .list (List.forall₂_map_left_iff.2 (List.forall₂_map_right_iff.2 (List.forall₂_same.2 h)))

theorem mem_names {ms : List (List UInt16 × Json)} {es : Mapping}
    (h : List.Forall₂ (MemberStands depth) ms es) {s : String} (hs : Text.Utf16.IsWhole s)
    (hmem : Text.Utf16.encode s ∈ ms.map Prod.fst) : Scalar.text s ∈ es.map Prod.fst := by
  induction h with
  | nil => cases hmem
  | cons hm _ ih =>
    rw [List.map_cons, List.mem_cons] at hmem ⊢
    refine hmem.imp (fun heq => ?_) ih
    obtain ⟨t, hkey, ht, hname⟩ := hm.name
    rw [hkey, Text.Utf16.encode_injective hs ht (heq.trans hname)]

theorem object {ms : List (List UInt16 × Json)} {es : Mapping}
    (h : List.Forall₂ (MemberStands depth) ms es) (hnames : (es.map Prod.fst).Nodup) :
    Stands (depth + 1) (.object ms) (.map es) := by
  have hmembers : membersToValue ms = es ∧ (ms.map Prod.fst).Nodup ∧
      ∀ m ∈ ms, IsReadable depth m.2 := by
    induction h with
    | nil => exact ⟨rfl, List.nodup_nil, nofun⟩
    | @cons m e ms es hm hms ih =>
      obtain ⟨hnew, hnames⟩ := List.nodup_cons.1 hnames
      obtain ⟨hvalue, hdistinct, hreadable⟩ := ih hnames
      obtain ⟨s, hkey, hs, hname⟩ := hm.name
      refine ⟨?_, List.nodup_cons.2 ⟨fun hmem => ?_, hdistinct⟩,
        List.forall_mem_cons.2 ⟨hm.value.readable, hreadable⟩⟩
      · rw [membersToValue, hvalue, hm.value.value, hname, Text.Utf16.decode_encode hs, ← hkey]
      · rw [hname] at hmem
        rw [hkey] at hnew
        exact hnew (mem_names hms hs hmem)
  obtain ⟨hvalue, hdistinct, hreadable⟩ := hmembers
  exact ⟨.object hdistinct hreadable, by rw [toValue, hvalue]⟩

end Stands

theorem MemberStands.named {depth : Nat} {name : String} (h : Text.Utf16.IsWhole name) {j : Json}
    {v : Value} (hv : Stands depth j v) :
    MemberStands depth (Text.Utf16.encode name, j) (.text name, v) :=
  ⟨⟨name, rfl, h, rfl⟩, hv⟩

/-- An object with given names stands for the mapping with these names. -/
theorem Stands.obj {depth : Nat} (names : List String) (hdistinct : names.Nodup)
    (hwhole : ∀ n ∈ names, Text.Utf16.IsWhole n) {members : List (String × Json)}
    {entries : List (String × Value)} (hmembers : members.map Prod.fst = names)
    (hentries : entries.map Prod.fst = names)
    (h : List.Forall₂ (Stands depth) (members.map Prod.snd) (entries.map Prod.snd)) :
    Stands (depth + 1) (.obj members) (.dict entries) := by
  refine .object ?_ ?_
  · clear hdistinct
    induction names generalizing members entries with
    | nil =>
      obtain rfl := List.map_eq_nil_iff.1 hmembers
      obtain rfl := List.map_eq_nil_iff.1 hentries
      exact .nil
    | cons name names ih =>
      obtain ⟨⟨_, j⟩, ms, rfl, rfl, hms⟩ := List.map_eq_cons_iff.1 hmembers
      obtain ⟨⟨_, v⟩, es, rfl, rfl, hes⟩ := List.map_eq_cons_iff.1 hentries
      obtain ⟨hname, hwhole⟩ := List.forall_mem_cons.1 hwhole
      obtain ⟨hv, h⟩ := List.forall₂_cons.1 h
      exact .cons (.named hname hv) (ih hwhole hms hes h)
  · have hkeys : (entries.map fun m => (Scalar.text m.1, m.2)).map Prod.fst =
        names.map Scalar.text := by
      rw [← hentries, List.map_map, List.map_map]
      rfl
    rw [hkeys]
    exact hdistinct.map fun s t hst => Scalar.text.inj hst

end Json

/-! ## Plain values -/

/-- No times, bytes or floats, and only whole texts. -/
def Scalar.IsPlain : Scalar → Prop
  | .null | .bool _ | .int _ => True
  | .text s => Text.Utf16.IsWhole s
  | _ => False

/-- The key is a text. -/
def Scalar.IsName : Scalar → Prop
  | .text s => Text.Utf16.IsWhole s
  | _ => False

/-- Lists and mappings with names of plain scalars, at most so many within each other. -/
def Value.IsPlain : (depth : Nat) → Value → Prop
  | _, .scalar s => s.IsPlain
  | depth + 1, .list items => ∀ v ∈ items, IsPlain depth v
  | depth + 1, .map entries =>
    (entries.map Prod.fst).Nodup ∧ ∀ e ∈ entries, e.1.IsName ∧ IsPlain depth e.2
  | _, _ => False

instance : DecidablePred Scalar.IsPlain
  | .null | .bool _ | .int _ => .isTrue trivial
  | .text s => inferInstanceAs (Decidable (Text.Utf16.IsWhole s))
  | .float _ | .bytes _ | .date _ | .moment _ => .isFalse id

instance : DecidablePred Scalar.IsName
  | .text s => inferInstanceAs (Decidable (Text.Utf16.IsWhole s))
  | .null | .bool _ | .int _ | .float _ | .bytes _ | .date _ | .moment _ => .isFalse id

instance Value.decidableIsPlain : (depth : Nat) → DecidablePred (IsPlain depth)
  | 0, .scalar s | _ + 1, .scalar s => inferInstanceAs (Decidable s.IsPlain)
  | 0, .list _ | 0, .map _ => .isFalse id
  | depth + 1, .list items =>
    have := decidableIsPlain depth
    inferInstanceAs (Decidable (∀ v ∈ items, IsPlain depth v))
  | depth + 1, .map entries =>
    have := decidableIsPlain depth
    inferInstanceAs (Decidable ((entries.map Prod.fst).Nodup ∧
      ∀ e ∈ entries, e.1.IsName ∧ IsPlain depth e.2))
  | 0, .tuple _ | 0, .set _ | 0, .cyclic _ _ | 0, .again _ _
  | _ + 1, .tuple _ | _ + 1, .set _ | _ + 1, .cyclic _ _ | _ + 1, .again _ _ => .isFalse id

/-! ## Writing -/

/-- What is written has a property, but for integers of too many digits nothing is written. -/
inductive Written {α : Type} (P : α → Prop) (long : Prop) : Except NotJson α → Prop where
  | ok {a : α} (hlong : ¬long) (h : P a) : Written P long (.ok a)
  | long (h : long) : Written P long (.error .long)

namespace Written

variable {α β γ : Type} {P : α → Prop} {Q : β → Prop} {p q : Prop} {r : Except NotJson α}

theorem exists_of_not (h : Written P p r) (hp : ¬p) : ∃ a, r = .ok a ∧ P a := by
  cases h with
  | ok _ ha => exact ⟨_, rfl, ha⟩
  | long hlong => exact absurd hlong hp

theorem eq_long (h : Written P p r) (hp : p) : r = .error .long := by
  cases h with
  | ok hlong _ => exact absurd hp hlong
  | long _ => rfl

theorem of_iff (h : Written P p r) (hpq : p ↔ q) : Written P q r := by
  rwa [← propext hpq]

theorem mono {P' : α → Prop} (h : Written P p r) (hP : ∀ a, P a → P' a) : Written P' p r := by
  cases h with
  | ok hlong ha => exact .ok hlong (hP _ ha)
  | long hlong => exact .long hlong

theorem map {f : α → β} (h : Written P p r) (hf : ∀ a, P a → Q (f a)) : Written Q p (f <$> r) := by
  cases h with
  | ok hlong ha => exact .ok hlong (hf _ ha)
  | long hlong => exact .long hlong

theorem bind {f : α → Except NotJson β} (h : Written P p r)
    (hf : ∀ a, P a → Written Q q (f a)) : Written Q (p ∨ q) (r >>= f) := by
  cases h with
  | @ok a hp ha =>
    show Written Q (p ∨ q) (f a)
    exact (hf a ha).of_iff (by simp [hp])
  | long hlong => exact .long (.inl hlong)

/-- Parts that are written one after another. -/
theorem parts {R : β → γ → Prop} {long : γ → Prop} {one : γ → Except NotJson β}
    (all : List γ → Except NotJson (List β)) (hnil : all [] = .ok [])
    (hcons : ∀ c cs, all (c :: cs) = one c >>= fun b => (b :: ·) <$> all cs) {cs : List γ}
    (h : ∀ c ∈ cs, Written (R · c) (long c) (one c)) :
    Written (fun bs => List.Forall₂ R bs cs) (∃ c ∈ cs, long c) (all cs) := by
  induction cs with
  | nil =>
    rw [hnil]
    exact .ok (by simp) .nil
  | cons c cs ih =>
    obtain ⟨hc, hcs⟩ := List.forall_mem_cons.1 h
    rw [hcons]
    have hall := hc.bind (Q := fun bs => List.Forall₂ R bs (c :: cs))
      fun b hb => (ih hcs).map fun bs hbs => .cons hb hbs
    exact hall.of_iff (by simp)

end Written

theorem Scalar.written_toJson {s : Scalar} (h : s.IsPlain) (depth : Nat) :
    Written (Json.Stands depth · (.scalar s)) (s.isLong = true) s.toJson := by
  cases s with
  | null => exact .ok (by simp [isLong]) .null
  | bool b => exact .ok (by simp [isLong]) (.bool b)
  | int i =>
    rw [toJson]
    split_ifs with hlong
    · exact .long hlong
    · refine .ok hlong ⟨.int (by simpa using hlong), Json.toValue.eq_def _⟩
  | text s => exact .ok (by simp [isLong]) (.str h)
  | _ => exact h.elim

/-- The member of an object that an entry of a mapping makes. -/
def Mapping.member (e : Scalar × Value) : Except NotJson (List UInt16 × Json) := do
  return (← e.1.memberName, ← e.2.toJson)

theorem Mapping.written_member {depth : Nat} {e : Scalar × Value} (hname : e.1.IsName)
    (h : Written (Json.Stands depth · e.2) (e.2.hasLong = true) e.2.toJson) :
    Written (Json.MemberStands depth · e) (e.1.isLong = true ∨ e.2.hasLong = true) (member e) := by
  obtain ⟨k, v⟩ := e
  cases k with
  | text s =>
    have hmember : member (.text s, v) = (Text.Utf16.encode s, ·) <$> v.toJson := rfl
    rw [hmember]
    exact (h.map fun j hj => .named hname hj).of_iff (by simp [Scalar.isLong])
  | _ => exact hname.elim

theorem Value.entriesToJson_cons (e : Scalar × Value) (es : Mapping) :
    entriesToJson (e :: es) = Mapping.member e >>= fun m => (m :: ·) <$> entriesToJson es := by
  obtain ⟨k, v⟩ := e
  rw [entriesToJson, Mapping.member]
  rcases k.memberName with _ | name <;> rcases v.toJson with _ | j <;> rfl

/-- A plain value has a JSON form that stands for it, unless it has an integer of too many
digits. -/
theorem Value.IsPlain.written {depth : Nat} {v : Value} (h : v.IsPlain depth) :
    Written (Json.Stands depth · v) (v.hasLong = true) v.toJson := by
  induction depth generalizing v with
  | zero =>
    cases v with
    | scalar s => exact Scalar.written_toJson h 0
    | _ => exact h.elim
  | succ depth ih =>
    cases v with
    | scalar s => exact Scalar.written_toJson h (depth + 1)
    | list items =>
      have hparts := Written.parts (R := Json.Stands depth) itemsToJson rfl
        (fun v vs => rfl) fun v hv => ih (h v hv)
      rw [toJson, hasLong]
      exact (hparts.map fun js hjs => .list hjs).of_iff anyLong_iff.symm
    | map entries =>
      obtain ⟨hnames, hentries⟩ := h
      have hparts := Written.parts (R := Json.MemberStands depth) entriesToJson rfl
        entriesToJson_cons fun e he => Mapping.written_member (hentries e he).1
          (ih (hentries e he).2)
      rw [toJson, hasLong]
      exact (hparts.map fun ms hms => .object hms hnames).of_iff anyLongEntry_iff.symm
    | _ => exact h.elim

end FlowPipeline
