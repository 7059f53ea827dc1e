import FlowPipeline.Flow
import FlowPipeline.Proofs.ModelExtension
import Mathlib.Data.List.Duplicate
import Mathlib.Data.List.Flatten
import Mathlib.Data.List.Forall2

/-! # The flows of a normalized manifest

Normalizing makes one flow of each entry of an integration, except for the entry that names the
provider, and puts the actions apart. As no two flows have one name, a flow is found by its name.
Where normalizing fails, the manifest is to blame: with an error that is reported to the user, or
with one that a value of the manifest causes.
-/

namespace FlowPipeline

/-- The error is reported to the user, or a value or the models of the manifest cause it. -/
def ManifestError.StemsFrom (v : Value) (models : Mapping) (e : ManifestError) : Prop :=
  e.isReported = true ∨ v.Causes e ∨ (Value.map models).Causes e

namespace Flow

theorem strings_causes (v : Value) : FailsOnly v.Causes (strings v) := by
  unfold strings
  split
  · exact .ok _
  · exact .ok _
  · exact .ok _
  · next items _ _ _ hitems =>
    refine .bind (.mapM fun w hw => ?_) fun texts _ => .ok _
    refine (Value.failsOnly_written w).mono fun e he => ?_
    rw [he.1]
    exact .long (Value.hasLong_of_mem_items hitems hw he.2)
  · exact .bind (Value.written_causes _) fun text _ => .ok _

theorem trimmed?_causes (v : Value) : FailsOnly v.Causes (trimmed? v) := by
  unfold trimmed?
  split
  · exact .ok none
  · exact .bind (Value.written_causes _) fun text _ => .ok _

/-- What is found for the names that a flow returns. -/
theorem returnedOf_eq_ok {models : Mapping} {names : List String} {rs : List Returned}
    (h : returnedOf models names = .ok rs) :
    rs.map Returned.name = names ∧ ∀ r ∈ rs, ∃ fields, Model.fields? models r.name = .ok fields ∧
      r.fields = fields.getD [] ∧
      r.resolved = (fields.isSome || FieldType.primitives.contains r.name) := by
  induction names generalizing rs with
  | nil =>
    cases h
    exact ⟨rfl, nofun⟩
  | cons name names ih =>
    rw [returnedOf] at h
    obtain ⟨fields, hfields, h⟩ := Except.eq_ok_of_bind h
    obtain ⟨rest, hrest, h⟩ := Except.eq_ok_of_bind h
    cases h
    obtain ⟨hnames, hrest⟩ := ih hrest
    exact ⟨congrArg _ hnames, List.forall_mem_cons.2 ⟨⟨fields, hfields, rfl, rfl⟩, hrest⟩⟩

theorem failsOnly_returnedOf (models : Mapping) (names : List String) :
    FailsOnly (fun e => e.isReported = true ∨ (Value.map models).Causes e)
      (returnedOf models names) := by
  induction names with
  | nil => exact .ok []
  | cons name names ih =>
    rw [returnedOf]
    refine .bind ((Model.failsOnly_fields? models name).mono ?_) fun fields _ =>
      .bind ih fun rest _ => .ok _
    rintro e ⟨root, -, ⟨c, rfl, -⟩ | hspoiled⟩
    · exact .inl rfl
    · exact .inr hspoiled.causes

theorem failsOnly_ofEntries (name : String) (definition models : Mapping) :
    FailsOnly (ManifestError.StemsFrom (.map definition) models) (ofEntries name definition models) := by
  have hown {key : String} {e : ManifestError} (he : (Mapping.get key definition).Causes e) :
      ManifestError.StemsFrom (.map definition) models e := .inr (.inl (.of_get he))
  have hdefault {v : Value} {s : String} {e : ManifestError}
      (hv : v.Causes e → ManifestError.StemsFrom (.map definition) models e)
      (he : (v.orElse (.text s)).Causes e) : ManifestError.StemsFrom (.map definition) models e := by
    exact hv ((Value.Causes.of_orElse he).resolve_right Value.Causes.not_text)
  -- What is described outside of the metadata, is described in it.
  have hdescribed {key : String} {e : ManifestError}
      (he : ((Mapping.get key definition).orElse (Mapping.get key
        (((Mapping.get "metadata" definition).mapping?).getD []))).Causes e) :
      ManifestError.StemsFrom (.map definition) models e := by
    rcases Value.Causes.of_orElse he with he | he
    · exact hown he
    · exact hown (.of_mapping?_getD (.of_get he))
  unfold ofEntries
  refine .bind ((strings_causes _).mono fun e he => hown he) fun returns _ => ?_
  refine .bind ((failsOnly_returnedOf models returns).mono fun e he => he.imp_right .inr) ?_
  intro returned _
  refine .bind ((Value.written_causes _).mono fun e he => hdefault hown he) fun type _ => ?_
  refine .bind ((trimmed?_causes _).mono fun e he => hown he) fun cadence _ => ?_
  refine .bind ((Value.written_causes _).mono fun e he => hdefault hdescribed he) ?_
  intro description _
  exact .bind ((strings_causes _).mono fun e he => hdescribed he) fun scopes _ => .ok _

/-- What each part of a flow is read from. -/
structure IsReadFrom (name : String) (definition models : Mapping) (f : Flow) : Prop where
  name : f.name = name
  type : ((Mapping.get "type" definition).orElse (.text FlowKind.sync.name)).written = .ok f.type
  cadence : trimmed? (Mapping.get "runs" definition) = .ok f.cadence
  returns : strings (Mapping.get "returns" definition) = .ok f.returns
  models : returnedOf models f.returns = .ok f.models
  scopes : strings ((Mapping.get "scopes" definition).orElse
    (Mapping.get "scopes" (((Mapping.get "metadata" definition).mapping?).getD []))) = .ok f.scopes

theorem isReadFrom_of_ofEntries {name : String} {definition models : Mapping} {f : Flow}
    (h : ofEntries name definition models = .ok f) : f.IsReadFrom name definition models := by
  obtain ⟨returns, hreturns, h⟩ := Except.eq_ok_of_bind h
  obtain ⟨returned, hreturned, h⟩ := Except.eq_ok_of_bind h
  obtain ⟨type, htype, h⟩ := Except.eq_ok_of_bind h
  obtain ⟨cadence, hcadence, h⟩ := Except.eq_ok_of_bind h
  obtain ⟨description, -, h⟩ := Except.eq_ok_of_bind h
  obtain ⟨scopes, hscopes, h⟩ := Except.eq_ok_of_bind h
  cases h
  exact ⟨rfl, htype, hcadence, hreturns, hreturned, hscopes⟩

end Flow

namespace Normalizing

/-! ## What normalizing ensures -/

variable {α β : Type} {P : α → Prop} {Q : β → Prop} {E : ManifestError → Prop}
  {x : Normalizing α} {f : α → Normalizing β}

/-- Whatever the log, the value has one property and the error another one. -/
def Ensures (x : Normalizing α) (P : α → Prop) (E : ManifestError → Prop) : Prop :=
  ∀ log, (∀ a, (x.run log).1 = .ok a → P a) ∧ FailsOnly E (x.run log).1

theorem run_bind (x : Normalizing α) (f : α → Normalizing β) (log : Log) :
    (x >>= f).run log = match x.run log with
      | (.ok a, log) => (f a).run log
      | (.error e, log) => (.error e, log) := by
  show (ExceptT.bind x f).run log = _
  simp only [ExceptT.run, ExceptT.bind, ExceptT.mk, bind, StateT.bind]
  rcases (x : StateM Log _) log with ⟨_ | _, log'⟩ <;> rfl

namespace Ensures

theorem pure {a : α} (h : P a) : Ensures (Pure.pure a) P E := by
  refine fun log => ⟨fun b hb => ?_, .ok a⟩
  cases hb
  exact h

theorem throw {e : ManifestError} (h : E e) : Ensures (MonadExcept.throw e) P E :=
  fun _ => ⟨nofun, .error h⟩

theorem ofExcept {r : Except ManifestError α} (hok : ∀ a, r = .ok a → P a) (herror : FailsOnly E r) :
    Ensures (ofExcept r) P E :=
  fun _ => ⟨hok, herror⟩

theorem bind (hx : Ensures x P E) (hf : ∀ a, P a → Ensures (f a) Q E) : Ensures (x >>= f) Q E := by
  intro log
  obtain ⟨hok, herror⟩ := hx log
  rw [run_bind]
  rcases hr : x.run log with ⟨e | a, log'⟩
  · rw [hr] at herror
    exact ⟨nofun, .error (herror e rfl)⟩
  · rw [hr] at hok
    exact hf a (hok a rfl) log'

theorem mono {P' : α → Prop} {E' : ManifestError → Prop} (h : Ensures x P E) (hP : ∀ a, P a → P' a)
    (hE : ∀ e, E e → E' e) : Ensures x P' E' :=
  fun log => ⟨fun a ha => hP a ((h log).1 a ha), (h log).2.mono hE⟩

end Ensures

/-! ## Flows of entries -/

/-- The entries of an integration; there are none if nothing stands there. -/
def sectionEntries? : Value → Option Mapping
  | .scalar .null => some []
  | v => v.mapping?

/-- The entries of an integration that stand for flows. -/
def flowEntries (entries : Mapping) : Mapping := entries.filter fun entry => !isProvider entry

/-- The flow that an entry stands for. -/
structure IsFlowOf (models : Mapping) (entry : Scalar × Value) (f : Flow) : Prop where
  name : entry.1.written = .ok f.name
  described : Flow.ofEntries f.name (entry.2.mapping?.getD []) models = .ok f

/-- The integration that an entry stands for, with its flows in the order of their entries. -/
structure IsIntegrationOf (models : Mapping) (entry : Scalar × Value) (i : Integration) : Prop where
  key : entry.1.written = .ok i.key
  flows : ∃ entries fs, sectionEntries? entry.2 = some entries ∧
    List.Forall₂ (IsFlowOf models) (flowEntries entries) fs ∧
    i.syncs = fs.filter (fun f => f.type ≠ "action") ∧
    i.actions = fs.filter (fun f => f.type = "action")

variable {models entries : Mapping} {seen : List String}

/-- The entries of a flow, with a warning if the definition is no mapping. -/
def definedBy (name : String) (v : Value) : Normalizing Mapping :=
  match v, v.mapping? with
  | _, some entries => pure entries
  | .scalar .null, none => pure []
  | _, none => do
    let warning := "Flow '" ++ name ++ "' is not a mapping; treating it as an empty definition."
    modifyGet fun log => ((), log ++ [(.warning, warning)])
    pure []

theorem flow_eq (name : String) (v : Value) (models : Mapping) :
    flow name v models = definedBy name v >>= fun entries =>
      ofExcept (Flow.ofEntries name entries models) := by
  rcases hv : v.mapping? with _ | entries
  · by_cases hnull : v = .scalar .null
    · subst hnull
      rfl
    · simp only [flow, definedBy, hv]
      rfl
  · simp only [flow, definedBy, hv]

/-- The entries of an integration; nothing but a mapping has any, unless nothing stands there. -/
def sectionOf (k : Scalar) (v : Value) : Normalizing Mapping :=
  match v, v.mapping? with
  | _, some entries => pure entries
  | .scalar .null, none => pure []
  | _, none => do throw (.integration (← ofExcept k.written))

/-- The provider that the entries of an integration name. -/
def providerOf (entries : Mapping) : Option String :=
  match Mapping.get "provider" entries with
  | .scalar (.text p) => some p
  | _ => none

theorem integrations_cons (models : Mapping) (seen : List String) (k : Scalar) (v : Value)
    (es : Mapping) :
    integrations models seen ((k, v) :: es) = sectionOf k v >>= fun entries =>
      flows models seen entries >>= fun r => ofExcept k.written >>= fun key =>
        integrations models r.2 es >>= fun is =>
          pure (⟨key, r.1.filter fun f => !f.isAction, r.1.filter Flow.isAction,
            providerOf entries⟩ :: is) := by
  rcases hv : v.mapping? with _ | entries
  · by_cases hnull : v = .scalar .null
    · subst hnull
      rfl
    · simp only [integrations, sectionOf, hv]
      funext log
      rcases k.written with e | key <;> rfl
  · simp only [integrations, sectionOf, hv]
    rfl

theorem flows_cons_provider {k : Scalar} {v : Value} (h : isProvider (k, v) = true) (es : Mapping) :
    flows models seen ((k, v) :: es) = flows models seen es := by
  rw [flows, if_pos h]

theorem flows_cons {k : Scalar} {v : Value} (h : isProvider (k, v) = false) (es : Mapping) :
    flows models seen ((k, v) :: es) = ofExcept k.written >>= fun name =>
      if seen.contains name then throw (.duplicate name)
      else flow name v models >>= fun f => flows models (name :: seen) es >>= fun r =>
        pure (f :: r.1, r.2) := by
  rw [flows, if_neg (by simp [h])]
  rfl

theorem ensures_definedBy (name : String) (v : Value) :
    Ensures (definedBy name v) (fun entries => entries = v.mapping?.getD []) fun _ => False := by
  unfold definedBy
  split
  · next hv => exact .pure (by rw [hv]; rfl)
  · exact .pure rfl
  · next hv =>
    intro log
    refine ⟨fun entries h => ?_, nofun⟩
    cases h
    rw [hv]
    rfl

theorem ensures_flow (name : String) (v : Value) (models : Mapping) :
    Ensures (flow name v models) (fun f => Flow.ofEntries name (v.mapping?.getD []) models = .ok f)
      (ManifestError.StemsFrom v models) := by
  rw [flow_eq]
  refine .bind ((ensures_definedBy name v).mono (fun _ h => h) nofun) ?_
  rintro entries rfl
  refine .ofExcept (fun f hf => hf) ((Flow.failsOnly_ofEntries name _ models).mono fun e he => ?_)
  exact he.imp_right (Or.imp_left .of_mapping?_getD)

theorem ensures_sectionOf (k : Scalar) (v : Value) :
    Ensures (sectionOf k v) (fun entries => sectionEntries? v = some entries)
      fun e => e.isReported = true ∨ e = .long ∧ k.isLong = true := by
  unfold sectionOf
  split
  · next entries hv =>
    refine .pure ?_
    unfold sectionEntries?
    split
    · cases hv
    · exact hv
  · exact .pure rfl
  · have hkey := (Scalar.failsOnly_written k).mono fun e he =>
      (.inr he : e.isReported = true ∨ e = .long ∧ k.isLong = true)
    exact .bind (.ofExcept (P := fun _ => True) (fun _ _ => trivial) hkey) fun key _ =>
      .throw (.inl rfl)

/-! ## Flows of an integration -/

/-- What a run over entries gives: their flows, with names that are new and distinct. -/
structure AreFlowsOf (models : Mapping) (seen : List String) (entries : Mapping)
    (r : List Flow × List String) : Prop where
  flows : List.Forall₂ (IsFlowOf models) (flowEntries entries) r.1
  distinct : (r.1.map Flow.name).Nodup
  new : ∀ f ∈ r.1, f.name ∉ seen
  names : ∀ name, name ∈ r.2 ↔ name ∈ seen ∨ name ∈ r.1.map Flow.name

theorem AreFlowsOf.passOver {k : Scalar} {v : Value} {r : List Flow × List String}
    (hprovider : isProvider (k, v) = true) (hr : AreFlowsOf models seen entries r) :
    AreFlowsOf models seen ((k, v) :: entries) r := by
  have hentries : flowEntries ((k, v) :: entries) = flowEntries entries :=
    List.filter_cons_of_neg (by rw [hprovider]; decide)
  exact ⟨hentries ▸ hr.flows, hr.distinct, hr.new, hr.names⟩

theorem AreFlowsOf.cons {k : Scalar} {v : Value} {f : Flow} {r : List Flow × List String}
    (hprovider : isProvider (k, v) = false) (hf : IsFlowOf models (k, v) f) (hseen : f.name ∉ seen)
    (hr : AreFlowsOf models (f.name :: seen) entries r) :
    AreFlowsOf models seen ((k, v) :: entries) (f :: r.1, r.2) := by
  have hentries : flowEntries ((k, v) :: entries) = (k, v) :: flowEntries entries := by
    rw [flowEntries, List.filter_cons_of_pos (by rw [hprovider]; rfl), flowEntries]
  refine ⟨?_, ?_, ?_, fun name => ?_⟩
  · rw [hentries]
    exact .cons hf hr.flows
  · refine List.nodup_cons.2 ⟨fun hmem => ?_, hr.distinct⟩
    obtain ⟨g, hg, heq⟩ := List.mem_map.1 hmem
    exact hr.new g hg (heq ▸ List.mem_cons_self)
  · exact List.forall_mem_cons.2 ⟨hseen, fun g hg hmem =>
      hr.new g hg (List.mem_cons_of_mem _ hmem)⟩
  · rw [hr.names, List.mem_cons, List.map_cons, List.mem_cons, or_assoc, or_left_comm]

theorem ensures_flows (models : Mapping) (seen : List String) (entries : Mapping) :
    Ensures (flows models seen entries) (AreFlowsOf models seen entries)
      (ManifestError.StemsFrom (.map entries) models) := by
  induction entries generalizing seen with
  | nil =>
    rw [flows]
    exact .pure ⟨.nil, List.nodup_nil, nofun, by simp⟩
  | cons entry entries ih =>
    obtain ⟨k, v⟩ := entry
    have hmem : (k, v) ∈ (k, v) :: entries := List.mem_cons_self
    have htail : ∀ e, ManifestError.StemsFrom (.map entries) models e →
        ManifestError.StemsFrom (.map ((k, v) :: entries)) models e :=
      fun e he => he.imp_right (Or.imp_left .of_tail)
    -- The entry that names the provider is passed over, any other one makes a flow.
    rcases hprovider : isProvider (k, v) with _ | _
    · rw [flows_cons hprovider]
      refine .bind (.ofExcept (fun name h => h)
        ((Scalar.written_causes hmem).mono fun e he => .inr (.inl he))) fun name hname => ?_
      split_ifs with hseen
      · exact .throw (.inl rfl)
      · refine .bind ((ensures_flow name v models).mono (fun _ h => h) fun e he =>
          he.imp_right (Or.imp_left (.of_mem hmem))) fun f hf => ?_
        refine .bind ((ih (name :: seen)).mono (fun _ h => h) htail) fun r hr => .pure ?_
        obtain rfl := (Flow.isReadFrom_of_ofEntries hf).name
        rw [List.contains_iff_mem] at hseen
        exact .cons hprovider ⟨hname, hf⟩ hseen hr
    · rw [flows_cons_provider hprovider]
      exact (ih seen).mono (fun r => .passOver hprovider) htail

/-! ## Integrations of a manifest -/

theorem isAction_eq (f : Flow) : f.isAction = decide (f.type = "action") := by
  unfold Flow.isAction Flow.kind?
  split_ifs with hsync haction
  · rw [hsync]
    rfl
  · rw [haction]
    rfl
  · exact (decide_eq_false haction).symm

/-- Putting the actions behind the syncs leaves no flow out. -/
theorem flows_perm {i : Integration} {fs : List Flow}
    (hsyncs : i.syncs = fs.filter (fun f => f.type ≠ "action"))
    (hactions : i.actions = fs.filter (fun f => f.type = "action")) : i.flows.Perm fs := by
  have hsplit := List.filter_append_perm (fun f : Flow => decide (f.type = "action")) fs
  simp only [Integration.flows, hsyncs, hactions, ne_eq, decide_not]
  exact List.perm_append_comm.trans hsplit

/-- What a run over integrations gives, with names of flows that are new and distinct. -/
structure AreIntegrationsOf (models : Mapping) (seen : List String) (es : Mapping)
    (is : List Integration) : Prop where
  sections : List.Forall₂ (IsIntegrationOf models) es is
  distinct : ((is.flatMap Integration.flows).map Flow.name).Nodup
  new : ∀ f ∈ is.flatMap Integration.flows, f.name ∉ seen

theorem AreIntegrationsOf.cons {k : Scalar} {v : Value} {es : Mapping} {i : Integration}
    {r : List Flow × List String} {is : List Integration} (hkey : k.written = .ok i.key)
    (hentries : sectionEntries? v = some entries) (hr : AreFlowsOf models seen entries r)
    (hsyncs : i.syncs = r.1.filter (fun f => f.type ≠ "action"))
    (hactions : i.actions = r.1.filter (fun f => f.type = "action"))
    (his : AreIntegrationsOf models r.2 es is) :
    AreIntegrationsOf models seen ((k, v) :: es) (i :: is) := by
  -- The names seen before the rest are those of `seen` and of the flows in hand.
  have hperm : i.flows.Perm r.1 := flows_perm hsyncs hactions
  refine ⟨.cons ⟨hkey, entries, r.1, hentries, hr.flows, hsyncs, hactions⟩ his.sections, ?_, ?_⟩
  · rw [List.flatMap_cons, List.map_append, List.nodup_append]
    refine ⟨((hperm.map Flow.name).nodup_iff).2 hr.distinct, his.distinct, ?_⟩
    rintro name hname name' hname' rfl
    obtain ⟨g, hg, rfl⟩ := List.mem_map.1 hname'
    exact his.new g hg ((hr.names _).2 (.inr ((hperm.map Flow.name).mem_iff.1 hname)))
  · intro f hf
    rw [List.flatMap_cons, List.mem_append] at hf
    rcases hf with hf | hf
    · exact hr.new f (hperm.mem_iff.1 hf)
    · exact fun hseen => his.new f hf ((hr.names _).2 (.inl hseen))

theorem ensures_integrations (models : Mapping) (seen : List String) (es : Mapping) :
    Ensures (integrations models seen es) (AreIntegrationsOf models seen es)
      (ManifestError.StemsFrom (.map es) models) := by
  induction es generalizing seen with
  | nil =>
    rw [integrations]
    exact .pure ⟨.nil, List.nodup_nil, nofun⟩
  | cons entry es ih =>
    obtain ⟨k, v⟩ := entry
    have hmem : (k, v) ∈ (k, v) :: es := List.mem_cons_self
    rw [integrations_cons]
    refine .bind ((ensures_sectionOf k v).mono (fun _ h => h) ?_) fun entries hentries => ?_
    · rintro e (he | ⟨rfl, he⟩)
      · exact .inl he
      · exact .inr (.inl (.long (Value.anyLongEntry_iff.2 ⟨_, hmem, .inl he⟩)))
    refine .bind ((ensures_flows models seen entries).mono (fun _ h => h) fun e he =>
      he.imp_right (Or.imp_left fun he => ?_)) fun r hr => ?_
    · unfold sectionEntries? at hentries
      split at hentries
      · cases hentries
        exact absurd he Value.Causes.not_empty
      · exact .of_mem hmem (.of_mapping? hentries he)
    refine .bind (.ofExcept (fun key h => h)
      ((Scalar.written_causes hmem).mono fun e he => .inr (.inl he))) fun key hkey => ?_
    refine .bind ((ih r.2).mono (fun _ h => h) fun e he =>
      he.imp_right (Or.imp_left .of_tail)) fun is his => .pure ?_
    refine .cons hkey hentries hr ?_ ?_ his
    · exact List.filter_congr fun f _ => by simp [isAction_eq]
    · exact List.filter_congr fun f _ => isAction_eq f

end Normalizing

/-! ## Names of flows -/

namespace Integration

/-- With distinct names, a flow is what its name finds. -/
theorem find?_of_mem {fs : List Flow} (h : (fs.map Flow.name).Nodup) {f : Flow} (hf : f ∈ fs) :
    (fs.find? fun g => g.name == f.name) = some f := by
  induction fs with
  | nil => cases hf
  | cons g fs ih =>
    obtain ⟨hg, hfs⟩ := List.nodup_cons.1 h
    rcases List.mem_cons.1 hf with rfl | hf
    · exact List.find?_cons_of_pos (by simp)
    · have hne : g.name ≠ f.name := fun heq => hg (heq ▸ List.mem_map_of_mem hf)
      rw [List.find?_cons_of_neg (by simpa using hne)]
      exact ih hfs hf

theorem findFlow?_of_mem {is : List Integration}
    (h : ((is.flatMap Integration.flows).map Flow.name).Nodup) {i : Integration} {f : Flow}
    (hi : i ∈ is) (hf : f ∈ i.flows) : findFlow? is f.name = some (i, f) := by
  induction is with
  | nil => cases hi
  | cons j is ih =>
    rw [List.flatMap_cons, List.map_append, List.nodup_append] at h
    obtain ⟨hj, his, hdisjoint⟩ := h
    rw [findFlow?, List.findSome?_cons]
    rcases List.mem_cons.1 hi with rfl | hi
    · rw [find?_of_mem hj hf]
      rfl
    · have hname : f.name ∈ (is.flatMap Integration.flows).map Flow.name :=
        List.mem_map_of_mem (List.mem_flatMap.2 ⟨i, hi, hf⟩)
      have hnone : (j.flows.find? fun g => g.name == f.name) = none := by
        refine List.find?_eq_none.2 fun g hg heq => ?_
        exact hdisjoint _ (List.mem_map_of_mem hg) _ hname (by simpa using heq)
      rw [hnone]
      exact ih his hi

theorem findFlow?_of_not_mem {is : List Integration} {name : String}
    (h : name ∉ (is.flatMap Integration.flows).map Flow.name) : findFlow? is name = none := by
  refine List.findSome?_eq_none_iff.2 fun i hi => ?_
  rw [Option.map_eq_none_iff]
  refine List.find?_eq_none.2 fun f hf heq => h ?_
  rw [← eq_of_beq heq]
  exact List.mem_map_of_mem (List.mem_flatMap.2 ⟨i, hi, hf⟩)

end Integration

namespace Manifest

open Normalizing

/-- The names of the flows that the entries of a manifest stand for. -/
def flowNames (m : Manifest) : List String :=
  m.integrations.flatMap fun entry =>
    (flowEntries ((sectionEntries? entry.2).getD [])).map fun entry => entry.1.shown

theorem map_name_of_forall₂ {models entries : Mapping} {fs : List Flow}
    (h : List.Forall₂ (IsFlowOf models) entries fs) :
    entries.map (fun entry => entry.1.shown) = fs.map Flow.name := by
  induction h with
  | nil => rfl
  | @cons entry f entries fs hf hfs ih =>
    have hname : entry.1.shown = f.name := by
      have hwritten := hf.name
      unfold Scalar.written at hwritten
      split_ifs at hwritten
      exact Except.ok.inj hwritten
    rw [List.map_cons, List.map_cons, hname, ih]

theorem flowNames_perm {models es : Mapping} {is : List Integration} (text : String)
    (h : List.Forall₂ (IsIntegrationOf models) es is) :
    (flowNames ⟨es, models, text⟩).Perm ((is.flatMap Integration.flows).map Flow.name) := by
  induction h with
  | nil => exact .nil
  | @cons entry i es is hi his ih =>
    obtain ⟨entries, fs, hentries, hfs, hsyncs, hactions⟩ := hi.flows
    have hnames : (flowEntries ((sectionEntries? entry.2).getD [])).map (fun e => e.1.shown) =
        fs.map Flow.name := by
      rw [hentries]
      exact map_name_of_forall₂ hfs
    rw [flowNames, List.flatMap_cons, hnames, List.flatMap_cons, List.map_append]
    exact ((flows_perm hsyncs hactions).symm.map Flow.name).append ih

/-- The integrations of a manifest, no flow of which is lost or doubled. -/
structure IsNormalized (m : Manifest) (is : List Integration) : Prop where
  sections : List.Forall₂ (IsIntegrationOf m.models) m.integrations is
  distinct : ((is.flatMap Integration.flows).map Flow.name).Nodup
  found : ∀ i ∈ is, ∀ f ∈ i.flows, Integration.findFlow? is f.name = some (i, f)
  unknown : ∀ name, name ∉ (is.flatMap Integration.flows).map Flow.name →
    Integration.findFlow? is name = none

theorem IsNormalized.of_run {m : Manifest} {log : Log} {is : List Integration}
    (h : (m.normalize.run log).1 = .ok is) : m.IsNormalized is := by
  obtain ⟨hok, -⟩ := ensures_integrations m.models [] m.integrations log
  obtain ⟨hsections, hdistinct, -⟩ := hok is h
  exact ⟨hsections, hdistinct, fun i hi f hf => Integration.findFlow?_of_mem hdistinct hi hf,
    fun name => Integration.findFlow?_of_not_mem⟩

/-- Where normalizing succeeds, no flow is lost or doubled. It fails if two entries have one name:
with an error that is reported, unless an integer of too many digits or a mapping that contains
itself causes another error first. -/
theorem normalize_isNormalized (m : Manifest) (log : Log) :
    (∀ is, (m.normalize.run log).1 = .ok is → m.IsNormalized is) ∧
    ∀ name, List.Duplicate name m.flowNames → ∃ e, (m.normalize.run log).1 = .error e ∧
      e.StemsFrom (.map m.integrations) m.models := by
  refine ⟨fun is => .of_run, fun name hname => ?_⟩
  obtain ⟨-, herror⟩ := ensures_integrations m.models [] m.integrations log
  rcases hr : (m.normalize.run log).1 with e | is
  · exact ⟨e, rfl, herror e hr⟩
  · have hperm := flowNames_perm m.text (IsNormalized.of_run hr).sections
    have hnodup : m.flowNames.Nodup := hperm.nodup_iff.2 (IsNormalized.of_run hr).distinct
    exact absurd hnodup (List.exists_duplicate_iff_not_nodup.1 ⟨name, hname⟩)

/-- A manifest with one integration, of a sync and an action. -/
def twoFlows : Manifest where
  integrations := [(.text "github", .map [(.text "provider", .text "github"),
    (.text "issues", .map [(.text "returns", .text "Issue")]),
    (.text "create", .map [(.text "type", .text "action")])])]
  models := [(.text "Issue", .map [(.text "id", .text "integer")])]
  text := ""

/-- A second integration has a flow of the same name. -/
def doubledFlows : Manifest where
  integrations := twoFlows.integrations ++ [(.text "gitlab", .map [(.text "create", .null)])]
  models := twoFlows.models
  text := ""

theorem normalize_twoFlows :
    (∃ is, (twoFlows.normalize.run []).1 = .ok is ∧ twoFlows.IsNormalized is ∧
      is.map Integration.key = ["github"] ∧
      (is.flatMap Integration.flows).map Flow.name = ["issues", "create"]) ∧
    ∃ e, (doubledFlows.normalize.run []).1 = .error e ∧
      e.StemsFrom (.map doubledFlows.integrations) doubledFlows.models := by
  have hnames : (twoFlows.normalize.run []).1.map (fun is =>
      (is.map Integration.key, (is.flatMap Integration.flows).map Flow.name)) =
      .ok (["github"], ["issues", "create"]) := by decide
  have hdoubled : List.Duplicate "create" doubledFlows.flowNames := by decide
  refine ⟨?_, (normalize_isNormalized doubledFlows []).2 "create" hdoubled⟩
  rcases hr : (twoFlows.normalize.run []).1 with e | is
  · rw [hr] at hnames
    cases hnames
  · rw [hr] at hnames
    obtain ⟨hkeys, hflows⟩ := Prod.mk.inj (Except.ok.inj hnames)
    exact ⟨is, rfl, (normalize_isNormalized twoFlows []).1 is hr, hkeys, hflows⟩

/-- Two flows of one name, the first of a type that has too many digits. -/
def longType : Manifest where
  integrations := [(.text "github", .map [(.text "create", .map [(.text "type", .tooLong)])]),
    (.text "gitlab", .map [(.text "create", .map [(.text "type", .text "action")])])]
  models := []
  text := ""

theorem normalize_longType : List.Duplicate "create" longType.flowNames ∧
    (longType.normalize.run []).1 = .error .long ∧ ManifestError.long.isReported = false := by
  have hlong : (longType.normalize.run []).1.map (fun _ => ()) = .error .long := by
    decide +kernel
  refine ⟨by decide, ?_, rfl⟩
  rcases hr : (longType.normalize.run []).1 with e | is
  · rw [hr] at hlong
    cases hlong
    rfl
  · rw [hr] at hlong
    cases hlong

end Manifest
end FlowPipeline
