import FlowPipeline.Proofs.DecodedValues
import FlowPipeline.Proofs.SelectedPackages

/-! # Models in written JSON

The schema of a package holds the models of its flow as compact JSON. The type definitions hold all
flows with their models as indented JSON. Both are decoded to what they have been made of, so that
they agree on the models of every packaged flow. There are no type definitions where an attribute is
an integer of too many digits.
-/

namespace FlowPipeline

/-! ## Flows as values -/

/-- The value of a mapping under a name. -/
def Value.member? (name : String) : Value → Option Value
  | .map entries => Mapping.find? name entries
  | _ => none

/-- Texts as a list. -/
def Value.texts (ss : List String) : Value := .list (ss.map .text)

def Field.toDict (f : Field) : Value := .dict [("name", .text f.name), ("type", .text f.type)]

/-- A returned model with its fields. -/
def Returned.toDict (r : Returned) : Value :=
  .dict [("name", .text r.name), ("fields", .list (r.fields.map Field.toDict))]

def Flow.toDict (f : Flow) : Value :=
  .dict [
    ("name", .text f.name), ("type", .text f.type),
    ("runs", (f.cadence.map Value.text).getD .null),
    ("track_deletes", .scalar (.bool f.trackDeletes)),
    ("auto_start", .scalar (.bool f.autoStart)), ("attributes", .map f.attributes),
    ("returns", .texts f.returns), ("models", .list (f.models.map Returned.toDict)),
    ("description", .text f.description), ("scopes", .texts f.scopes)]

/-- An integration with its flows; an empty provider is left out. -/
def Integration.toDict (i : Integration) : Value :=
  let provider := if i.provider.getD "" = "" then [] else [("provider", .text (i.provider.getD ""))]
  .dict ([
    ("providerConfigKey", .text i.key), ("syncs", .list (i.syncs.map Flow.toDict)),
    ("actions", .list (i.actions.map Flow.toDict))] ++ provider)

/-- Among integrations, one of a key has a flow of a name with models. -/
def Value.Declares (is : List Value) (key flow : String) (models : Value) : Prop :=
  ∃ i ∈ is, i.member? "providerConfigKey" = some (.text key) ∧
    ∃ group ∈ ["syncs", "actions"], ∃ fs, i.member? group = some (.list fs) ∧
      ∃ f ∈ fs, f.member? "name" = some (.text flow) ∧ f.member? "models" = some models

open Text.Utf16 (IsWhole)

def Returned.texts (r : Returned) : List String :=
  r.name :: r.fields.flatMap fun f => [f.name, f.type]

/-- The texts of a flow, without those in its attributes. -/
def Flow.texts (f : Flow) : List String :=
  f.name :: f.type :: f.description ::
    (f.cadence.toList ++ f.returns ++ f.scopes ++ f.models.flatMap Returned.texts)

/-- The texts of the flow are whole, and its attributes are plain. -/
structure Flow.IsPlain (depth : Nat) (f : Flow) : Prop where
  texts : ∀ s ∈ f.texts, IsWhole s
  attributes : (Value.map f.attributes).IsPlain depth

instance (depth : Nat) : DecidablePred (Flow.IsPlain depth) := fun f =>
  decidable_of_iff ((∀ s ∈ f.texts, IsWhole s) ∧ (Value.map f.attributes).IsPlain depth)
    ⟨fun h => ⟨h.1, h.2⟩, fun h => ⟨h.texts, h.attributes⟩⟩

/-- An attribute of the flow is or holds an integer of too many digits. -/
def Flow.IsLong (f : Flow) : Prop := (Value.map f.attributes).hasLong = true

instance (f : Flow) : Decidable f.IsLong := inferInstanceAs (Decidable (_ = _))

structure Integration.IsPlain (depth : Nat) (i : Integration) : Prop where
  texts : ∀ s ∈ i.key :: i.provider.toList, IsWhole s
  flows : ∀ f ∈ i.flows, f.IsPlain depth

instance (depth : Nat) : DecidablePred (Integration.IsPlain depth) := fun i =>
  decidable_of_iff ((∀ s ∈ i.key :: i.provider.toList, IsWhole s) ∧ ∀ f ∈ i.flows, f.IsPlain depth)
    ⟨fun h => ⟨h.1, h.2⟩, fun h => ⟨h.texts, h.flows⟩⟩

theorem Flow.IsPlain.models {depth : Nat} {f : Flow} (h : f.IsPlain depth) :
    ∀ r ∈ f.models, ∀ s ∈ r.texts, IsWhole s := by
  intro r hr s hs
  refine h.texts s ?_
  simp only [Flow.texts, List.mem_cons, List.mem_append, List.mem_flatMap]
  exact .inr (.inr (.inr (.inr ⟨r, hr, hs⟩)))

namespace TypeDefinitions
open Json

/-! ## What is written -/

theorem stands_texts {ss : List String} (h : ∀ s ∈ ss, IsWhole s) (depth : Nat) :
    Stands (depth + 1) (texts ss) (.texts ss) :=
  .listOf fun s hs => .str (h s hs)

theorem stands_field {f : Field} (h : IsWhole f.name ∧ IsWhole f.type) (depth : Nat) :
    Stands (depth + 1) (.obj [("name", .str f.name), ("type", .str f.type)]) f.toDict :=
  .obj ["name", "type"] (by decide) (by decide) rfl rfl (.cons (.str h.1) (.cons (.str h.2) .nil))

theorem stands_returned {r : Returned} (h : ∀ s ∈ r.texts, IsWhole s) (depth : Nat) :
    Stands (depth + 3) (returnedJson r) r.toDict := by
  have hfield {f : Field} (hf : f ∈ r.fields) : IsWhole f.name ∧ IsWhole f.type :=
    ⟨h _ (List.mem_cons_of_mem _ (List.mem_flatMap.2 ⟨f, hf, by simp⟩)),
      h _ (List.mem_cons_of_mem _ (List.mem_flatMap.2 ⟨f, hf, by simp⟩))⟩
  exact .obj ["name", "fields"] (by decide) (by decide) rfl rfl <|
    .cons (.str (h r.name List.mem_cons_self)) <|
    .cons (.listOf fun f hf => stands_field (hfield hf) depth) .nil

theorem stands_models {f : Flow} (h : ∀ r ∈ f.models, ∀ s ∈ r.texts, IsWhole s) (depth : Nat) :
    Stands (depth + 4) (.list (f.models.map returnedJson))
      (.list (f.models.map Returned.toDict)) :=
  .listOf fun r hr => stands_returned (h r hr) depth

theorem stands_textOrNull {s : Option String} (h : ∀ t ∈ s, IsWhole t) (depth : Nat) :
    Stands depth (textOrNull s) ((s.map Value.text).getD .null) := by
  cases s with
  | none => exact .null
  | some t => exact .str (h t rfl)

variable {depth : Nat}

theorem written_flowJson {f : Flow} (h : f.IsPlain depth) :
    Written (Stands (depth + 5) · f.toDict) f.IsLong (flowJson f) := by
  have hflow : flowJson f = (fun attributes => .obj [
      ("name", .str f.name), ("type", .str f.type), ("runs", textOrNull f.cadence),
      ("track_deletes", .bool f.trackDeletes), ("auto_start", .bool f.autoStart),
      ("attributes", attributes), ("returns", texts f.returns),
      ("models", .list (f.models.map returnedJson)), ("description", .str f.description),
      ("scopes", texts f.scopes)]) <$> (Value.map f.attributes).toJson := rfl
  rw [hflow]
  have hname : IsWhole f.name := h.texts _ (by simp [Flow.texts])
  have htype : IsWhole f.type := h.texts _ (by simp [Flow.texts])
  have hdescription : IsWhole f.description := h.texts _ (by simp [Flow.texts])
  have hcadence : ∀ c ∈ f.cadence, IsWhole c := fun c hc =>
    h.texts c (by simp [Flow.texts, Option.mem_def.1 hc])
  have hreturns : ∀ s ∈ f.returns, IsWhole s := fun s hs => h.texts s (by simp [Flow.texts, hs])
  have hscopes : ∀ s ∈ f.scopes, IsWhole s := fun s hs => h.texts s (by simp [Flow.texts, hs])
  refine h.attributes.written.map fun attributes hattributes => ?_
  exact .obj ["name", "type", "runs", "track_deletes", "auto_start", "attributes", "returns",
      "models", "description", "scopes"] (by decide) (by decide) rfl rfl <|
    .cons (.str hname) <| .cons (.str htype) <| .cons (stands_textOrNull hcadence _) <|
    .cons (.bool _) <| .cons (.bool _) <| .cons (hattributes.of_le (by omega)) <|
    .cons (stands_texts hreturns _) <| .cons (stands_models h.models _) <|
    .cons (.str hdescription) <| .cons (stands_texts hscopes _) .nil

theorem written_flowsJson {fs : List Flow} (h : ∀ f ∈ fs, f.IsPlain depth) :
    Written (fun js => Stands (depth + 6) (.list js) (.list (fs.map Flow.toDict)))
      (∃ f ∈ fs, f.IsLong) (flowsJson fs) := by
  have hparts := Written.parts (R := fun j f => Stands (depth + 5) j f.toDict) flowsJson rfl
    (fun f fs => rfl) fun f hf => written_flowJson (h f hf)
  exact hparts.mono fun js hjs => .list (List.forall₂_map_right_iff.2 hjs)

/-- The provider is written unless it is empty. -/
theorem providerMember_eq (provider : Option String) :
    ((provider.filter (· != "")).map fun p => ("provider", Json.str p)).toList =
      if provider.getD "" = "" then [] else [("provider", .str (provider.getD ""))] := by
  rcases provider with _ | p
  · rfl
  · by_cases hp : p = "" <;> simp [hp]

theorem written_integrationJson {i : Integration} (h : i.IsPlain depth) :
    Written (Stands (depth + 7) · i.toDict) (∃ f ∈ i.flows, f.IsLong) (integrationJson i) := by
  have hsyncs : ∀ f ∈ i.syncs, f.IsPlain depth := fun f hf =>
    h.flows f (List.mem_append_left _ hf)
  have hactions : ∀ f ∈ i.actions, f.IsPlain depth := fun f hf =>
    h.flows f (List.mem_append_right _ hf)
  have hboth : ((∃ f ∈ i.syncs, f.IsLong) ∨ ∃ f ∈ i.actions, f.IsLong) ↔
      ∃ f ∈ i.flows, f.IsLong := by
    simp only [Integration.flows, List.mem_append, or_and_right, exists_or]
  refine ((written_flowsJson hsyncs).bind fun syncs hsyncs => ?_).of_iff hboth
  refine (written_flowsJson hactions).map fun actions hactions => ?_
  have hkey : IsWhole i.key := h.texts i.key List.mem_cons_self
  show Stands (depth + 7) (.obj (_ ++ _)) (.dict (_ ++ _))
  rw [providerMember_eq]
  split_ifs with hnone
  · exact .obj ["providerConfigKey", "syncs", "actions"] (by decide) (by decide) rfl rfl <|
      .cons (.str hkey) <| .cons hsyncs <| .cons hactions .nil
  · have hwhole : IsWhole (i.provider.getD "") := by
      rcases hp : i.provider with _ | p
      · exact absurd (by rw [hp]; rfl) hnone
      · exact h.texts p (by simp [hp])
    exact .obj ["providerConfigKey", "syncs", "actions", "provider"] (by decide) (by decide)
      rfl rfl <|
      .cons (.str hkey) <| .cons hsyncs <| .cons hactions <| .cons (.str hwhole) .nil

theorem written_integrationsJson {is : List Integration} (h : ∀ i ∈ is, i.IsPlain depth) :
    Written (fun js => Stands (depth + 8) (.list js) (.list (is.map Integration.toDict)))
      (∃ f ∈ is.flatMap Integration.flows, f.IsLong) (integrationsJson is) := by
  have hparts := Written.parts (R := fun j i => Stands (depth + 7) j i.toDict) integrationsJson rfl
    (fun i is => rfl) fun i hi => written_integrationJson (h i hi)
  refine .of_iff (hparts.mono fun js hjs => .list (List.forall₂_map_right_iff.2 hjs)) ?_
  simp only [List.mem_flatMap]
  exact ⟨fun ⟨i, hi, f, hf, hlong⟩ => ⟨f, ⟨i, hi, hf⟩, hlong⟩,
    fun ⟨f, ⟨i, hi, hf⟩, hlong⟩ => ⟨i, hi, f, hf, hlong⟩⟩

/-- What stands in front of the flows: interfaces and the declarations of the host. -/
def opening (own : List String) (hostTypes : Option String) : String :=
  let host :=
    match hostTypes.filter (· != "") with
    | none => []
    | some t => [if t.toList.getLast? = some '\n' then t else t ++ "\n"]
  Text.joined "\n" (Text.joined "\n" own :: host) ++ "\n"

theorem render_eq {is : List Integration} {js : List Json} (h : integrationsJson is = .ok js)
    (models : Mapping) (host : Option String) : render models is host =
      (fun own => opening own host ++ ("export const NangoFlows = " ++
        Json.render (.indented 2) (.list js) ++ " as const;\n")) <$>
          (interfaces models).mapError Failure.manifest := by
  rw [render, h]
  rcases interfaces models with e | own
  · rfl
  · exact congrArg Except.ok ((Text.joined_concat "\n" (List.cons_ne_nil _ _) _).trans
      (String.append_assoc ..).symm)

theorem render_eq_long {is : List Integration} (h : integrationsJson is = .error .long)
    {models : Mapping} {own : List String} (hown : interfaces models = .ok own)
    (host : Option String) : render models is host = .error (.json .long) := by
  rw [render, h, hown]
  rfl

end TypeDefinitions

/-! ## Models of packaged flows -/

theorem Integration.member?_key (i : Integration) :
    i.toDict.member? "providerConfigKey" = some (.text i.key) := rfl

theorem Integration.member?_syncs (i : Integration) :
    i.toDict.member? "syncs" = some (.list (i.syncs.map Flow.toDict)) := rfl

theorem Integration.member?_actions (i : Integration) :
    i.toDict.member? "actions" = some (.list (i.actions.map Flow.toDict)) := rfl

theorem Flow.member?_name (f : Flow) : f.toDict.member? "name" = some (.text f.name) := rfl

theorem Flow.member?_models (f : Flow) :
    f.toDict.member? "models" = some (.list (f.models.map Returned.toDict)) := rfl

namespace Value

theorem text_inj {s t : String} : text s = text t ↔ s = t := by simp [text]

theorem declares_iff {is : List Integration} {key name : String} {models : Value} :
    Declares (is.map Integration.toDict) key name models ↔ ∃ i ∈ is, i.key = key ∧
      ∃ f ∈ i.flows, f.name = name ∧ .list (f.models.map Returned.toDict) = models := by
  simp only [Declares, List.mem_map, exists_exists_and_eq_and, Integration.member?_key,
    List.mem_cons, List.not_mem_nil, or_false, exists_eq_left, Integration.member?_syncs,
    Integration.member?_actions, Option.some.injEq, list.injEq, Flow.member?_name,
    Flow.member?_models, text_inj, Integration.flows, List.mem_append, or_and_right, exists_or,
    exists_eq_left']

end Value

namespace Package
open Work TypeDefinitions

variable {m : Manifest} {log : Log} {is : List Integration} {depth limit : Nat}

/-- The schema is decoded to the models of the flow. -/
theorem decode_schema {p : Package} (h : ∀ r ∈ p.flow.models, ∀ s ∈ r.texts, IsWhole s)
    (hlimit : 4 ≤ limit) :
    Json.decode limit p.schema = some (.list (p.flow.models.map Returned.toDict)) :=
  ((stands_models h 0).of_le hlimit).decode_render Json.isSpaced_compact

/-- As names of flows are distinct, the models under a name are those of its flow. -/
theorem declares_flow (h : m.IsNormalized is) {i : Integration} (hi : i ∈ is) {f : Flow}
    (hf : f ∈ i.flows) (key : String) (models : Value) :
    Value.Declares (is.map Integration.toDict) key f.name models ↔
      key = i.key ∧ models = .list (f.models.map Returned.toDict) := by
  rw [Value.declares_iff]
  constructor
  · rintro ⟨j, hj, rfl, g, hg, hname, rfl⟩
    have hfound := h.found j hj g hg
    rw [hname, h.found i hi f hf] at hfound
    obtain ⟨rfl, rfl⟩ := Prod.mk.inj (Option.some.inj hfound)
    exact ⟨rfl, rfl⟩
  · rintro ⟨rfl, rfl⟩
    exact ⟨i, hi, rfl, f, hf, rfl, rfl⟩

/-- The schema of every package and the flows of the type definitions are decoded to what they have
been made of, and agree on the models of the flow. Without an integer of too many digits among the
attributes the flows are always written, else never. -/
theorem emitted_decodes (h : (m.normalize.run log).1 = .ok is) (hplain : ∀ i ∈ is, i.IsPlain depth)
    (hlimit : depth + 8 ≤ limit) :
    (∀ root output version wanted now x ps,
      ((all root output version wanted now is).on x).1 = .ok (some ps) → ∀ p ∈ ps,
        Json.decode limit p.schema = some (.list (p.flow.models.map Returned.toDict)) ∧
        ∀ key models, Value.Declares (is.map Integration.toDict) key p.flow.name models ↔
          key = p.key ∧ Json.decode limit p.schema = some models) ∧
    ((∀ f ∈ is.flatMap Integration.flows, ¬f.IsLong) → ∃ json,
      Json.decode limit json = some (.list (is.map Integration.toDict)) ∧
      ∀ models host, render models is host =
        (fun own => opening own host ++
          ("export const NangoFlows = " ++ json ++ " as const;\n")) <$>
            (interfaces models).mapError Failure.manifest) ∧
    ((∃ f ∈ is.flatMap Integration.flows, f.IsLong) → ∀ models host own,
      interfaces models = .ok own → render models is host = .error (.json .long)) := by
  have hwritten := written_integrationsJson hplain
  refine ⟨?_, fun hshort => ?_, fun hlong models host own hown => ?_⟩
  · intro root output version wanted now x ps hps p hp
    have hyields : Yields root output version now x (wanted.keyed is) ps :=
      .of_ofFlows (on_of_fst hps)
    obtain ⟨i, hi, hmem⟩ := List.mem_flatMap.1 (hyields.owner_mem p hp)
    obtain ⟨f, hf, heq⟩ := List.mem_map.1 hmem
    obtain ⟨hkey, rfl⟩ := Prod.mk.inj heq
    have hf : p.flow ∈ i.flows := wanted.flows_subset i hf
    have hschema := decode_schema ((hplain i hi).flows p.flow hf).models (by omega : 4 ≤ limit)
    refine ⟨hschema, fun key models => ?_⟩
    rw [declares_flow (.of_run h) hi hf, hkey, hschema, Option.some.injEq, eq_comm (a := models)]
  · obtain ⟨js, hjs, hstands⟩ := hwritten.exists_of_not (by simpa using hshort)
    exact ⟨_, (hstands.of_le hlimit).decode_render (Json.isSpaced_indented 2), render_eq hjs⟩
  · exact render_eq_long (hwritten.eq_long hlong) hown host

namespace Sample

/-- A sync with attributes, a description beyond ASCII and a model. -/
def noted : Manifest where
  integrations := [(.text "github", .map [
    (.text "report", .map [(.text "runs", .text "every hour"), (.text "returns", .text "Report"),
      (.text "description", .text "Says \"\\o/\"\n😀"), (.text "attributes", .map [
        (.text "limits", .list [.scalar (.int (-1)), .null, .map []])])])])]
  models := [(.text "Report", .map [(.text "id", .text "integer")])]
  text := ""

theorem emitted_decodes_noted : ∃ is ps, (noted.normalize.run []).1 = .ok is ∧
    (∀ i ∈ is, i.IsPlain 3) ∧ 3 + 8 ≤ 11 ∧
    ((all Path.root output "1" everything midnight is).on mixedWorld).1 = .ok (some ps) ∧
    ps.map (fun p => (p.key, p.schema)) = [("github",
      "[\x7b\"name\":\"Report\",\"fields\":[\x7b\"name\":\"id\",\"type\":\"number\"\x7d]\x7d]")] ∧
    (∀ p ∈ ps, Json.decode 11 p.schema = some (.list (p.flow.models.map Returned.toDict)) ∧
      ∀ key models, Value.Declares (is.map Integration.toDict) key p.flow.name models ↔
        key = p.key ∧ Json.decode 11 p.schema = some models) ∧
    ∃ json own, interfaces noted.models = .ok own ∧
      Json.decode 11 json = some (.list (is.map Integration.toDict)) ∧
      render noted.models is none =
        .ok (opening own none ++ ("export const NangoFlows = " ++ json ++ " as const;\n")) := by
  have hpackages : ((noted.normalize.run []).1.toOption.bind fun is =>
      ((all Path.root output "1" everything midnight is).on mixedWorld).1.toOption.join.map
        fun ps => (decide ((∀ i ∈ is, i.IsPlain 3) ∧ ∀ f ∈ is.flatMap Integration.flows, ¬f.IsLong),
          ps.map fun p => (p.key, p.schema))) =
      some (true, [("github",
        "[\x7b\"name\":\"Report\",\"fields\":[\x7b\"name\":\"id\",\"type\":\"number\"\x7d]\x7d]")]) :=
    by decide +kernel
  obtain ⟨own, hown⟩ : ∃ own, interfaces noted.models = .ok own := ⟨_, rfl⟩
  obtain ⟨is, his, hpackages⟩ := Option.bind_eq_some_iff.1 hpackages
  obtain ⟨ps, hps, hboth⟩ := Option.map_eq_some_iff.1 hpackages
  obtain ⟨hchecked, hschemas⟩ := Prod.mk.inj hboth
  obtain ⟨hplain, hshort⟩ := of_decide_eq_true hchecked
  have his := Except.eq_ok_of_toOption his
  have hps := Except.eq_ok_of_toOption (Option.join_eq_some_iff.1 hps)
  obtain ⟨hpackages, hflows, -⟩ := emitted_decodes his hplain (le_refl (3 + 8))
  obtain ⟨json, hjson, hrender⟩ := hflows hshort
  refine ⟨is, ps, his, hplain, le_refl _, hps, hschemas, hpackages _ _ _ _ _ _ _ hps,
    json, own, hown, hjson, ?_⟩
  rw [hrender, hown]
  rfl

/-- An attribute of too many digits. -/
def longAttribute : Manifest where
  integrations := [(.text "github", .map [(.text "create", .map [
    (.text "type", .text "action"), (.text "attributes", .map [(.text "limit", .tooLong)])])])]
  models := []
  text := ""

theorem not_emitted_longAttribute : ∃ is, (longAttribute.normalize.run []).1 = .ok is ∧
    (∀ i ∈ is, i.IsPlain 1) ∧ ∀ text, render longAttribute.models is none ≠ .ok text := by
  have hlong : ((longAttribute.normalize.run []).1.toOption.map fun is =>
      decide ((∀ i ∈ is, i.IsPlain 1) ∧ ∃ f ∈ is.flatMap Integration.flows, f.IsLong)) =
        some true := by
    decide +kernel
  obtain ⟨is, his, hlong⟩ := Option.map_eq_some_iff.1 hlong
  obtain ⟨hplain, hlong⟩ := of_decide_eq_true hlong
  refine ⟨is, Except.eq_ok_of_toOption his, hplain, fun text htext => ?_⟩
  have herror := (written_integrationsJson hplain).eq_long hlong
  have hnone : interfaces longAttribute.models = .ok [] := rfl
  rw [render_eq_long herror hnone] at htext
  cases htext

end Sample
end Package

end FlowPipeline
