import FlowPipeline.Proofs.NormalizedFlows

/-! # Entries that name providers

An entry of an integration with the key `provider` names the provider if its value is a text. It is
no flow then: without it, normalizing gives the same flows, the same warnings and the same error.
With a value of any other kind the entry is a flow of that name, as any other entry is.
-/

namespace FlowPipeline

/-- The value with nothing but those of its entries that are kept. -/
def Value.keeping (keep : Scalar × Value → Bool) (v : Value) : Value :=
  v.mapping?.elim v fun entries => .map (entries.filter keep)

/-- The manifest with nothing but those entries of its integrations that are kept. -/
def Manifest.keeping (keep : Scalar × Value → Bool) (m : Manifest) : Manifest :=
  { m with integrations := m.integrations.map fun entry => (entry.1, entry.2.keeping keep) }

/-- The integration without the name of its provider. -/
def Integration.unnamed (i : Integration) : Integration := { i with provider := none }

namespace Normalizing

variable {models entries : Mapping} {seen : List String}

/-! ## Entries that are passed over -/

theorem flows_flowEntries (models : Mapping) (seen : List String) (entries : Mapping) :
    flows models seen (flowEntries entries) = flows models seen entries := by
  unfold flowEntries
  induction entries generalizing seen with
  | nil => rfl
  | cons entry entries ih =>
    obtain ⟨k, v⟩ := entry
    rcases hprovider : isProvider (k, v) with _ | _
    · rw [List.filter_cons_of_pos (by rw [hprovider]; rfl), flows_cons hprovider,
        flows_cons hprovider]
      simp only [ih]
    · rw [List.filter_cons_of_neg (by rw [hprovider]; decide), flows_cons_provider hprovider, ih]

theorem isProvider_text {v : Value} :
    isProvider (.text "provider", v) = false ↔ ∀ p, v ≠ .scalar (.text p) := by
  unfold isProvider
  split
  · next h =>
    obtain rfl := (Prod.mk.inj h).2
    exact ⟨nofun, fun hne => absurd rfl (hne _)⟩
  · next h => exact ⟨fun _ p hp => h p (by rw [hp]), fun _ => rfl⟩

theorem providerOf_flowEntries (entries : Mapping) : providerOf (flowEntries entries) = none := by
  unfold flowEntries
  induction entries with
  | nil => rfl
  | cons entry entries ih =>
    obtain ⟨k, v⟩ := entry
    rcases hprovider : isProvider (k, v) with _ | _
    · rw [List.filter_cons_of_pos (by rw [hprovider]; rfl)]
      by_cases hk : k = .text "provider"
      · subst hk
        have hv := isProvider_text.1 hprovider
        unfold providerOf
        simp only [Mapping.get, Mapping.find?, if_true, Option.getD_some]
      · unfold providerOf at ih ⊢
        simpa only [Mapping.get, Mapping.find?, if_neg hk] using ih
    · rw [List.filter_cons_of_neg (by rw [hprovider]; decide), ih]

theorem sectionOf_keeping (k : Scalar) (v : Value) :
    sectionOf k (v.keeping fun entry => !isProvider entry) = flowEntries <$> sectionOf k v := by
  unfold Value.keeping
  rcases hv : v.mapping? with _ | entries
  · rw [Option.elim_none]
    by_cases hnull : v = .scalar .null
    · subst hnull
      rfl
    · simp only [sectionOf, hv]
      funext log
      rcases k.written with e | key <;> rfl
  · rw [Option.elim_some]
    simp only [sectionOf, hv]
    rfl

/-- Entries that name providers make no difference but to the names of the providers. -/
theorem integrations_keeping (models : Mapping) (seen : List String) (es : Mapping) :
    integrations models seen
        (es.map fun entry => (entry.1, entry.2.keeping fun entry => !isProvider entry)) =
      List.map Integration.unnamed <$> integrations models seen es := by
  induction es generalizing seen with
  | nil => rfl
  | cons entry es ih =>
    obtain ⟨k, v⟩ := entry
    rw [List.map_cons, integrations_cons, integrations_cons, sectionOf_keeping]
    simp only [bind_map_left, map_bind, map_pure, flows_flowEntries, providerOf_flowEntries, ih,
      List.map_cons]
    rfl

/-! ## What becomes of the entries -/

/-- The integration has the provider that its entries name, and has a flow of each of the other
entries, also of those with the key of a provider that do not name one. -/
structure IsLifted (models entries : Mapping) (i : Integration) : Prop where
  provider : i.provider = providerOf entries
  flows : ∃ fs, List.Forall₂ (IsFlowOf models) (flowEntries entries) fs ∧ i.flows.Perm fs
  others : ∀ v, (.text "provider", v) ∈ entries → (∀ p, v ≠ .scalar (.text p)) →
    ∃ f ∈ i.flows, IsFlowOf models (.text "provider", v) f

theorem exists_isFlowOf {fs : List Flow} (h : List.Forall₂ (IsFlowOf models) entries fs)
    {entry : Scalar × Value} (hmem : entry ∈ entries) : ∃ f ∈ fs, IsFlowOf models entry f := by
  induction h with
  | nil => cases hmem
  | @cons entry' f entries fs hf hfs ih =>
    rcases List.mem_cons.1 hmem with rfl | hmem
    · exact ⟨f, List.mem_cons_self, hf⟩
    · obtain ⟨g, hg, hentry⟩ := ih hmem
      exact ⟨g, List.mem_cons_of_mem f hg, hentry⟩

theorem IsLifted.of_flows {i : Integration} {fs : List Flow}
    (hprovider : i.provider = providerOf entries)
    (hfs : List.Forall₂ (IsFlowOf models) (flowEntries entries) fs) (hperm : i.flows.Perm fs) :
    IsLifted models entries i := by
  refine ⟨hprovider, ⟨fs, hfs, hperm⟩, fun v hv htext => ?_⟩
  have hmem : (.text "provider", v) ∈ flowEntries entries :=
    List.mem_filter.2 ⟨hv, by rw [isProvider_text.2 htext]; rfl⟩
  obtain ⟨f, hf, hentry⟩ := exists_isFlowOf hfs hmem
  exact ⟨f, hperm.mem_iff.2 hf, hentry⟩

theorem ensures_isLifted (models : Mapping) (seen : List String) (es : Mapping) :
    Ensures (integrations models seen es)
      (List.Forall₂ (fun entry i => ∃ entries, sectionEntries? entry.2 = some entries ∧
        IsLifted models entries i) es) fun _ => True := by
  induction es generalizing seen with
  | nil => exact .pure .nil
  | cons entry es ih =>
    obtain ⟨k, v⟩ := entry
    rw [integrations_cons]
    refine .bind ((ensures_sectionOf k v).mono (fun _ h => h) fun _ _ => trivial)
      fun entries hentries => ?_
    refine .bind ((ensures_flows models seen entries).mono (fun _ h => h) fun _ _ => trivial)
      fun r hr => ?_
    refine .bind (.ofExcept (fun key hkey => hkey) fun _ _ => trivial) fun key _ => ?_
    refine .bind (ih r.2) fun is his => .pure (.cons ⟨entries, hentries, ?_⟩ his)
    refine .of_flows rfl hr.flows (flows_perm ?_ ?_)
    · exact List.filter_congr fun f _ => by simp [isAction_eq]
    · exact List.filter_congr fun f _ => isAction_eq f

end Normalizing

namespace Manifest

open Normalizing

/-- Normalizing comes to the same without the entries that name providers, but for the names of the
providers: with the same flows, the same warnings, and the same error if there is one. Where it
succeeds, each integration has the provider that it names, and any other entry is a flow. -/
theorem normalize_keeping (m : Manifest) :
    (m.keeping fun entry => !isProvider entry).normalize =
        List.map Integration.unnamed <$> m.normalize ∧
      ∀ log is, (m.normalize.run log).1 = .ok is →
        List.Forall₂ (fun entry i => ∃ entries, sectionEntries? entry.2 = some entries ∧
          IsLifted m.models entries i) m.integrations is :=
  ⟨integrations_keeping m.models [] m.integrations,
    fun log is h => (ensures_isLifted m.models [] m.integrations log).1 is h⟩

theorem normalize_keeping_twoFlows : ∃ is, (twoFlows.normalize.run []).1 = .ok is ∧
    is.map Integration.provider = [some "github"] ∧
    List.Forall₂ (fun entry i => ∃ entries, sectionEntries? entry.2 = some entries ∧
      IsLifted twoFlows.models entries i) twoFlows.integrations is := by
  have hproviders : (twoFlows.normalize.run []).1.map (List.map Integration.provider) =
      .ok [some "github"] := by decide
  rcases hr : (twoFlows.normalize.run []).1 with e | is <;> rw [hr] at hproviders
  · cases hproviders
  · exact ⟨is, rfl, Except.ok.inj hproviders, (normalize_keeping twoFlows).2 [] is hr⟩

/-- A manifest with two integrations that name no provider, where the name should be. -/
def namelessProviders : Manifest where
  integrations := [(.text "github", .map [(.text "provider", .null)]),
    (.text "gitlab", .map [(.text "provider", .null)])]
  models := []
  text := ""

/-- What names no provider is a flow, and two of them have one name. -/
theorem not_normalize_keeping : ¬∀ m : Manifest,
    (m.keeping fun entry => entry.1 ≠ .text "provider").normalize =
      List.map Integration.unnamed <$> m.normalize := by
  intro hall
  have hrun := congrArg (fun r => ((r.run []).1.map fun _ => ()).toOption)
    (hall namelessProviders)
  have hleft : (((namelessProviders.keeping fun entry => entry.1 ≠ .text "provider").normalize.run
      []).1.map fun _ => ()).toOption = some () := by decide
  have hright : (((List.map Integration.unnamed <$> namelessProviders.normalize).run []).1.map
      fun _ => ()).toOption = none := by decide
  rw [hleft, hright] at hrun
  cases hrun

end Manifest
end FlowPipeline
