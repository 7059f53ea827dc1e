import FlowPipeline.Proofs.TokenPlaces
import FlowPipeline.Script.Node
import Mathlib.Data.List.Basic

/-! # The order of readings

In an ordered reading the parts of each phrase lie within it and follow each other. The tree of such
a reading has its calls in the order of their lines.
-/

namespace FlowPipeline.Script
namespace Node

mutual

/-- A reading goes forwards, and so do its parts. -/
inductive IsOrdered : Node → Prop where
  | leaf {t : Terminal} {start stop : Place} (h : start.Reaches stop) :
    IsOrdered (.leaf t start stop)
  | branch {p : Phrase} {w : Int} {start stop : Place} {parts : List Node}
    (h : start.Reaches stop) (hparts : AreOrdered start stop parts) :
    IsOrdered (.branch p w start stop parts)

/-- From one place to another readings follow each other. -/
inductive AreOrdered : Place → Place → List Node → Prop where
  | nil {a b : Place} (h : a.Reaches b) : AreOrdered a b []
  | cons {a b : Place} {n : Node} {ns : List Node} (h : a.Reaches n.start) (hn : n.IsOrdered)
    (hns : AreOrdered n.stop b ns) : AreOrdered a b (n :: ns)

end

theorem IsOrdered.reaches {n : Node} (h : n.IsOrdered) : n.start.Reaches n.stop := by
  cases h with
  | leaf h => exact h
  | branch h => exact h

namespace AreOrdered

variable {a b c : Place} {n : Node} {ns ms : List Node}

theorem reaches (h : AreOrdered a b ns) : a.Reaches b := by
  induction ns generalizing a with
  | nil =>
    cases h with
    | nil h => exact h
  | cons n ns ih =>
    cases h with
    | cons h hn hns => exact (h.trans hn.reaches).trans (ih hns)

theorem of_reaches (hab : a.Reaches b) (h : AreOrdered b c ns) : AreOrdered a c ns := by
  cases h with
  | nil h => exact .nil (hab.trans h)
  | cons h hn hns => exact .cons (hab.trans h) hn hns

theorem append_iff :
    AreOrdered a c (ns ++ ms) ↔ ∃ b, AreOrdered a b ns ∧ AreOrdered b c ms := by
  induction ns generalizing a with
  | nil =>
    constructor
    · intro h
      exact ⟨a, .nil (.refl a), h⟩
    · rintro ⟨b, hns, hms⟩
      exact hms.of_reaches hns.reaches
  | cons n ns ih =>
    constructor
    · intro h
      cases h with
      | cons h hn hrest =>
        obtain ⟨b, hns, hms⟩ := ih.1 hrest
        exact ⟨b, .cons h hn hns, hms⟩
    · rintro ⟨b, hns, hms⟩
      cases hns with
      | cons h hn hrest => exact .cons h hn (ih.2 ⟨b, hrest, hms⟩)

theorem single_iff : AreOrdered a b [n] ↔ a.Reaches n.start ∧ n.IsOrdered ∧ n.stop.Reaches b := by
  constructor
  · intro h
    cases h with
    | cons h hn hrest => exact ⟨h, hn, hrest.reaches⟩
  · rintro ⟨h, hn, hb⟩
    exact .cons h hn (.nil hb)

end AreOrdered

/-! ## Phrases -/

variable {p : Phrase} {w : Int} {a b behind : Place} {parts : List Node}

/-- A phrase that is made of parts spans them. -/
theorem ordered_ofParts (h : AreOrdered a b parts) (ha : a.Reaches behind)
    (hb : behind.Reaches b) :
    AreOrdered a b [ofParts p w behind parts] := by
  cases parts with
  | nil =>
    exact .cons ha (.branch (.refl _) (.nil (.refl _))) (.nil hb)
  | cons n ns =>
    obtain ⟨m, hm⟩ : ∃ m, (n :: ns).getLast? = some m :=
      ⟨_, List.getLast?_eq_some_getLast (List.cons_ne_nil n ns)⟩
    have hsplit := List.dropLast_append_getLast? m hm
    -- The phrase ends where its last part does.
    rw [← hsplit] at h
    obtain ⟨c, hinit, hlast⟩ := AreOrdered.append_iff.1 h
    obtain ⟨hcm, hordered, hmb⟩ := AreOrdered.single_iff.1 hlast
    have hown : AreOrdered a m.stop (n :: ns) := by
      rw [← hsplit]
      exact AreOrdered.append_iff.2 ⟨c, hinit, AreOrdered.single_iff.2 ⟨hcm, hordered, .refl _⟩⟩
    cases hown with
    | cons han hn hns =>
      have hphrase : AreOrdered n.start m.stop (n :: ns) := .cons (.refl _) hn hns
      have heq : ofParts p w behind (n :: ns) = branch p
          ((n :: ns).foldl (fun w n => w + n.weight) w) n.start m.stop (n :: ns) := by
        simp only [ofParts, List.head?_cons, hm]
      rw [heq]
      exact .cons han (.branch hphrase.reaches hphrase) (.nil hmb)

theorem isOrdered_ofParts (h : AreOrdered a b parts) : (ofParts p w behind parts).IsOrdered := by
  cases parts with
  | nil => exact .branch (.refl _) (.nil (.refl _))
  | cons n ns =>
    have heq : ofParts p w behind (n :: ns) = ofParts p w a (n :: ns) := by
      obtain ⟨m, hm⟩ : ∃ m, (n :: ns).getLast? = some m :=
        ⟨_, List.getLast?_eq_some_getLast (List.cons_ne_nil n ns)⟩
      simp only [ofParts, List.head?_cons, hm]
    rw [heq]
    exact (AreOrdered.single_iff.1 (ordered_ofParts h (.refl a) h.reaches)).2.1

end Node

/-! ## Lines of calls -/

/-- Numbers that do not fall and lie between two bounds. -/
structure Rises (lo hi : Nat) (ns : List Nat) : Prop where
  within : ∀ n ∈ ns, lo ≤ n ∧ n ≤ hi
  sorted : ns.Pairwise (· ≤ ·)

namespace Rises

variable {lo hi lo' hi' : Nat} {ns ms : List Nat}

theorem nil : Rises lo hi [] := ⟨by simp, .nil⟩

theorem sublist (h : Rises lo hi ns) (hs : ms.Sublist ns) : Rises lo hi ms :=
  ⟨fun n hn => h.within n (hs.subset hn), h.sorted.sublist hs⟩

theorem widen (h : Rises lo hi ns) (hlo : lo' ≤ lo) (hhi : hi ≤ hi') : Rises lo' hi' ns := by
  refine ⟨fun n hn => ?_, h.sorted⟩
  have := h.within n hn
  omega

theorem cons (h : Rises lo hi ns) (hle : lo ≤ hi) : Rises lo hi (lo :: ns) := by
  constructor
  · intro n hn
    rcases List.mem_cons.1 hn with rfl | hn
    · omega
    · exact h.within n hn
  · exact List.pairwise_cons.2 ⟨fun n hn => (h.within n hn).1, h.sorted⟩

theorem append {mid : Nat} (h : Rises lo mid ns) (h' : Rises mid hi ms) (hlo : lo ≤ mid)
    (hhi : mid ≤ hi) : Rises lo hi (ns ++ ms) := by
  constructor
  · intro n hn
    rcases List.mem_append.1 hn with hn | hn
    · have := h.within n hn
      omega
    · have := h'.within n hn
      omega
  · refine List.pairwise_append.2 ⟨h.sorted, h'.sorted, fun n hn m hm => ?_⟩
    have := h.within n hn
    have := h'.within m hm
    omega

end Rises

namespace Tree

mutual

/-- The lines of the calls in a tree, in the order of the text. -/
def callLines : Tree → List Nat
  | identifier _ | literal _ => []
  | member object _ => callLines object
  | call line callee types args =>
    line :: (callLines callee ++ callLines types ++ allCallLines args)
  | await operand => callLines operand
  | function ts | group ts => allCallLines ts

def allCallLines : List Tree → List Nat
  | [] => []
  | t :: ts => callLines t ++ allCallLines ts

end

theorem allCallLines_append (ts us : List Tree) :
    allCallLines (ts ++ us) = allCallLines ts ++ allCallLines us := by
  induction ts with
  | nil => rfl
  | cons t ts ih => simp [allCallLines, ih]

theorem allCallLines_single (t : Tree) : allCallLines [t] = callLines t := by
  simp [allCallLines]

end Tree

namespace Node
open Script.Tree

theorem getLast?_callLines (ts : List Tree) {t : Tree} (h : ts.getLast? = some t) :
    allCallLines ts = allCallLines ts.dropLast ++ callLines t := by
  rw [← List.dropLast_append_getLast? t h, allCallLines_append, allCallLines_single]
  simp

/-- What a phrase is has no calls but those of its parts and perhaps itself. -/
theorem callLines_shape (p : Phrase) (start stop : Place) (ts : List Tree) :
    (callLines (shape p start stop ts)).Sublist (start.line :: allCallLines ts) := by
  have hparts : (allCallLines ts).Sublist (start.line :: allCallLines ts) :=
    List.sublist_cons_self _ _
  have hmember (object : Tree) (name : Option String) (rest : List Tree) :
      (callLines (.member object name)).Sublist
        (start.line :: allCallLines (object :: rest)) :=
    (List.sublist_append_left _ _).cons _
  have hcall (callee : Tree) {rest args : List Tree} (hlast : rest.getLast? = some (.group args)) :
      (callLines (.call start.line callee (.group rest.dropLast) args)).Sublist
        (start.line :: allCallLines (callee :: rest)) := by
    have hrest := getLast?_callLines rest hlast
    simp only [callLines, allCallLines, hrest, List.append_assoc, List.Sublist.refl]
  unfold shape
  split
  · exact List.nil_sublist _
  iterate 4
    · split
      · exact hmember _ _ _
      · exact hmember _ _ _
  iterate 4
    · split
      · next hlast => exact hcall _ hlast
      · exact hparts
  · -- Of an `await` only the last part is kept.
    rcases hlast : ts.getLast? with _ | t
    · exact List.nil_sublist _
    · rw [getLast?_callLines ts hlast]
      exact (List.sublist_append_right _ _).cons _
  all_goals exact hparts

mutual

/-- The calls in the trees of an ordered reading are in the order of their lines. -/
theorem IsOrdered.rises : {n : Node} → n.IsOrdered →
    Rises n.start.line n.stop.line (allCallLines n.trees)
  | .leaf t start stop, h => by
    have hnone : allCallLines (leaf t start stop).trees = [] := by
      unfold trees
      split_ifs <;> rfl
    rw [hnone]
    exact .nil
  | .branch p w start stop parts, .branch h hparts => by
    have hrises : Rises start.line stop.line (allCallLines (allTrees parts)) := hparts.rises
    unfold trees
    split_ifs
    · exact hrises
    · rw [allCallLines_single]
      exact (hrises.cons h.line_le).sublist (callLines_shape p start stop _)

theorem AreOrdered.rises : {a b : Place} → {ns : List Node} → AreOrdered a b ns →
    Rises a.line b.line (allCallLines (allTrees ns))
  | _, _, [], _ => .nil
  | a, b, n :: ns, .cons h hn hns => by
    have hfirst := hn.rises.widen h.line_le (Nat.le_refl _)
    have hle := Nat.le_trans h.line_le hn.reaches.line_le
    rw [allTrees, allCallLines_append]
    exact hfirst.append hns.rises hle hns.reaches.line_le

end

end Node
end FlowPipeline.Script
