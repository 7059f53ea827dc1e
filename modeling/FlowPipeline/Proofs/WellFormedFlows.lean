import FlowPipeline.Proofs.SelectedPackages
import FlowPipeline.Proofs.ShownValues

/-! # What a normalized flow is like

Whatever stands in its entry, a normalized flow names its models, scopes and cadence by texts that
are trimmed, and its models are those of the names that it returns, with the fields that the models
of the manifest have for them.
-/

namespace FlowPipeline

open Text (IsTrimmed)

theorem Value.eq_shown_of_written {v : Value} {text : String} (h : v.written = .ok text) :
    text = v.shown := by
  unfold written at h
  split_ifs at h
  exact (Except.ok.inj h).symm

namespace Flow

/-- What holds of every flow of a manifest with the given models. -/
structure IsWellFormed (models : Mapping) (f : Flow) : Prop where
  names : f.models.map Returned.name = f.returns
  returns : ∀ s ∈ f.returns, IsTrimmed s.toList
  scopes : ∀ s ∈ f.scopes, IsTrimmed s.toList
  cadence : ∀ s ∈ f.cadence, IsTrimmed s.toList
  resolved : ∀ r ∈ f.models, r.resolved = true ↔ Model.IsKnown models r.name
  fields : ∀ r ∈ f.models, ∃ fields, Model.fields? models r.name = .ok fields ∧
    r.fields = fields.getD []

/-! ## Texts of values -/

variable {models : Mapping} {v : Value} {ss : List String}

/-- Items and texts are trimmed; any other value is shown without blanks at its ends. -/
theorem isTrimmed_of_strings (h : strings v = .ok ss) : ∀ s ∈ ss, IsTrimmed s.toList := by
  have htrimmed (texts : List String) :
      ∀ s ∈ (texts.map Text.trim).filter (· != ""), IsTrimmed s.toList := by
    intro s hs
    obtain ⟨hs, hne⟩ := List.mem_filter.1 hs
    obtain ⟨text, -, rfl⟩ := List.mem_map.1 hs
    exact Text.isTrimmed_trim (by simpa using hne)
  unfold strings at h
  split at h
  · cases h
    exact nofun
  · next text =>
    cases h
    exact htrimmed [text]
  · cases h
    intro s hs
    obtain ⟨b, -, rfl⟩ := List.mem_map.1 hs
    exact isTrimmed_toString (Int.ofNat b.toNat)
  · obtain ⟨texts, -, h⟩ := Except.eq_ok_of_bind h
    cases h
    exact htrimmed texts
  · next hnotext _ _ =>
    obtain ⟨text, htext, h⟩ := Except.eq_ok_of_bind h
    cases h
    rw [List.forall_mem_singleton, Value.eq_shown_of_written htext]
    exact Value.isTrimmed_shown fun t ht => hnotext t ht

theorem isTrimmed_of_trimmed? {s : String} (h : trimmed? v = .ok (some s)) :
    IsTrimmed s.toList := by
  unfold trimmed? at h
  split at h
  · cases h
  · obtain ⟨text, -, h⟩ := Except.eq_ok_of_bind h
    obtain ⟨htrim, hne⟩ := Option.filter_eq_some_iff.1 (Except.ok.inj h)
    cases htrim
    exact Text.isTrimmed_trim (by simpa using hne)

/-! ## Flows of entries -/

theorem fields_of_returnedOf {names : List String} {rs : List Returned}
    (h : returnedOf models names = .ok rs) :
    ∀ r ∈ rs, ∃ fields, Model.fields? models r.name = .ok fields ∧ r.fields = fields.getD [] := by
  intro r hr
  obtain ⟨fields, hfields, heq, -⟩ := (returnedOf_eq_ok h).2 r hr
  exact ⟨fields, hfields, heq⟩

theorem IsReadFrom.isWellFormed {name : String} {definition : Mapping} {f : Flow}
    (h : f.IsReadFrom name definition models) : f.IsWellFormed models := by
  obtain ⟨hnames, hresolved⟩ := mem_returnedOf h.models
  refine ⟨hnames, isTrimmed_of_strings h.returns, isTrimmed_of_strings h.scopes, fun s hs => ?_,
    hresolved, fields_of_returnedOf h.models⟩
  exact isTrimmed_of_trimmed? (hs ▸ h.cadence)

end Flow

/-! ## Flows of manifests -/

namespace Integration

variable {i : Integration} {f : Flow}

theorem IsSorted.mem_actions_iff (h : i.IsSorted) (hf : f ∈ i.flows) :
    f ∈ i.actions ↔ f.type = "action" := by
  refine ⟨h.actions f, fun htype => ?_⟩
  rcases List.mem_append.1 hf with hsync | haction
  · exact absurd htype (h.syncs f hsync)
  · exact haction

end Integration

namespace Manifest

theorem IsNormalized.isWellFormed {m : Manifest} {is : List Integration} (h : m.IsNormalized is) :
    ∀ f ∈ is.flatMap Integration.flows, f.IsWellFormed m.models := by
  intro f hf
  obtain ⟨entry, hof⟩ := h.exists_entry hf
  exact (Flow.isReadFrom_of_ofEntries hof.described).isWellFormed

/-- Whatever a manifest holds, where it is normalized all flows are well formed, and the actions of
an integration are its flows of that very type. -/
theorem normalize_isWellFormed (m : Manifest) (log : Log) {is : List Integration}
    (h : (m.normalize.run log).1 = .ok is) :
    ∀ i ∈ is, ∀ f ∈ i.flows,
      f.IsWellFormed m.models ∧ (f ∈ i.actions ↔ f.type = "action") := by
  intro i hi f hf
  have hnormalized : m.IsNormalized is := .of_run h
  exact ⟨hnormalized.isWellFormed f (List.mem_flatMap.2 ⟨i, hi, hf⟩),
    (hnormalized.isSorted i hi).mem_actions_iff hf⟩

/-- A manifest with blanks around texts, and with other values where texts should stand. -/
def looseTexts : Manifest where
  integrations := [(.text "github", .map [
    (.text "push", .map [(.text "type", .text "action"), (.text "returns", .scalar (.int 7)),
      (.text "runs", .text " ")]),
    (.text "users", .map [(.text "runs", .text " every hour "),
      (.text "returns", .list [.text " Users", .text " ", .text "string", .null]),
      (.text "scopes", .text "read\n")])])]
  models := [(.text "User", .map [(.text "id", .text "integer")])]
  text := ""

theorem normalize_isWellFormed_loose : ∃ is, (looseTexts.normalize.run []).1 = .ok is ∧
    (is.flatMap Integration.flows).map (fun f => (f.returns, f.cadence, f.scopes, f.models)) =
      [(["Users", "string", "None"], some "every hour", ["read"],
        [⟨"Users", [⟨"id", "number"⟩], true⟩, ⟨"string", [], true⟩, ⟨"None", [], false⟩]),
       (["7"], none, [], [⟨"7", [], false⟩])] ∧
    ∀ i ∈ is, ∀ f ∈ i.flows,
      f.IsWellFormed looseTexts.models ∧ (f ∈ i.actions ↔ f.type = "action") := by
  have hflows : (looseTexts.normalize.run []).1.map (fun is => (is.flatMap Integration.flows).map
      fun f => (f.returns, f.cadence, f.scopes, f.models)) =
      .ok [(["Users", "string", "None"], some "every hour", ["read"],
        [⟨"Users", [⟨"id", "number"⟩], true⟩, ⟨"string", [], true⟩, ⟨"None", [], false⟩]),
       (["7"], none, [], [⟨"7", [], false⟩])] := by
    decide +kernel
  rcases hr : (looseTexts.normalize.run []).1 with e | is
  · rw [hr] at hflows
    cases hflows
  · rw [hr] at hflows
    exact ⟨is, rfl, Except.ok.inj hflows, normalize_isWellFormed looseTexts [] hr⟩

end Manifest
end FlowPipeline
