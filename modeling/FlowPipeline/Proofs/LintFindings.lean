import FlowPipeline.Proofs.CallAddresses
import FlowPipeline.Proofs.ParseOrder
import FlowPipeline.Proofs.Results
import Mathlib.Data.List.DropRight

/-! # What linting finds

Linting a script visits the calls of the host in the order of the text. A call counts as awaited if
anything around it awaits or continues, also beyond the function in which it stands. Only the wrong
use of a call keeps a script from being compiled.
-/

namespace FlowPipeline

/-! ## The calls that are checked -/

namespace HostCall

variable {name : String} {call : HostCall}

theorem mem_names (h : ofName? name = some call) : (name, call) ∈ names := by
  obtain ⟨before, after, hsplit, -⟩ := List.lookup_eq_some_iff.1 h
  rw [hsplit]
  exact List.mem_append_right _ List.mem_cons_self

theorem isForSyncs_iff (h : ofName? name = some call) : call.isForSyncs = true ↔
    name ∈ ["batchSend", "batchSave", "batchDelete", "setLastSyncDate"] := by
  have hall : ∀ p ∈ names, p.2.isForSyncs = true ↔
      p.1 ∈ ["batchSend", "batchSave", "batchDelete", "setLastSyncDate"] := by decide
  exact hall _ (mem_names h)

theorem namesModel_iff (h : ofName? name = some call) : call.namesModel = true ↔
    name ∈ ["batchSave", "batchDelete"] := by
  have hall : ∀ p ∈ names, p.2.namesModel = true ↔ p.1 ∈ ["batchSave", "batchDelete"] := by decide
  exact hall _ (mem_names h)

end HostCall

namespace Lint
open Script (Tree)

/-- What is said about a call. -/
def Site.diagnostics (isAction : Bool) (models : List String) (s : Site) : List Diagnostic :=
  (s.findings isAction models).map fun f => ⟨f, s.name, s.line⟩

/-- What is said about the calls in the tree of a script. -/
def diagnosticsOf (isAction : Bool) (models : List String) (t : Tree) : List Diagnostic :=
  (sites ⟨false, false⟩ t).flatMap (Site.diagnostics isAction models)

variable {source type label : String} {models : List String} {bytes : List UInt8} {t : Tree}
  {isAction : Bool} {a : List Nat} {b : Site}

theorem lint_eq (hbytes : Text.Utf8.encoded source = .ok bytes)
    (ht : Script.parse source = .ok t) (type : String) (models : List String) (label : String) :
    lint source type models label =
      .ok ⟨label, models, diagnosticsOf (type = FlowKind.action.name) models t⟩ := by
  unfold lint
  rw [hbytes, ht]
  rfl

/-- A script whose call is awaited only beyond the function around it. -/
def callback : String := "await(()=>nango.batchSave(\"\"))"

def callbackTree : Tree :=
  let call : Tree := .call 1 (.member (.identifier "nango") (some "batchSave")) .empty
    [.literal ""]
  let function : Tree := .function [.group [.empty], call]
  .group [.group [.group [.group [.await (.group [function]), .empty]]]]

def callbackSite : Site :=
  { call := .batchSave
    name := "batchSave"
    line := 1
    last := some (.literal "")
    awaited := true
    continued := false }

theorem parse_callback : Script.parse callback = .ok callbackTree := by
  have hparse : (Script.parse callback).toOption = some callbackTree := by
    decide +kernel
  exact Except.eq_ok_of_toOption hparse

theorem encoded_callback : ∃ bytes, Text.Utf8.encoded callback = .ok bytes := ⟨_, rfl⟩

theorem isSite_callback :
    IsSite ⟨false, false⟩ callbackTree [0, 0, 0, 0, 0, 0, 1] callbackSite :=
  ⟨⟨_, _, rfl, rfl⟩, rfl, rfl, rfl⟩

theorem lint_callback (type : String) (models : List String) (label : String) :
    lint callback type models label =
      .ok ⟨label, models, diagnosticsOf (type = FlowKind.action.name) models callbackTree⟩ := by
  obtain ⟨bytes, hbytes⟩ := encoded_callback
  exact lint_eq hbytes parse_callback type models label

/-! ## The findings at a call -/

/-- The findings about the model that the last argument of a call names. -/
def Site.modelFindings (models : List String) (s : Site) : List Finding :=
  match s.last with
  | some (.literal name) => if models.contains name then [] else [.invalidModel name]
  | _ => [.unverifiedModel]

theorem Site.mem_modelFindings_iff {f : Finding} : f ∈ b.modelFindings models ↔
    (∃ name, b.last = some (.literal name) ∧ name ∉ models ∧ f = .invalidModel name) ∨
      (∀ name, b.last ≠ some (.literal name)) ∧ f = .unverifiedModel := by
  unfold modelFindings
  split
  · next name hlast => simp [hlast]
  · next hlast =>
    have hne (name : String) : b.last ≠ some (.literal name) := hlast name
    simp [hne]

theorem Site.findings_eq (s : Site) : s.findings isAction models =
    (s.call.replacement?.map Finding.deprecated).toList ++
      (if isAction && s.call.isForSyncs then [.disallowedInAction] else []) ++
      (if s.awaited || s.continued then [] else [.missingAwait]) ++
      (if s.call.namesModel then s.modelFindings models else []) := rfl

theorem Site.mem_findings_iff {f : Finding} : f ∈ b.findings isAction models ↔
    (∃ replacement, b.call.replacement? = some replacement ∧ f = .deprecated replacement) ∨
      ((isAction = true ∧ b.call.isForSyncs = true) ∧ f = .disallowedInAction) ∨
      ((b.awaited = false ∧ b.continued = false) ∧ f = .missingAwait) ∨
      b.call.namesModel = true ∧ f ∈ b.modelFindings models := by
  simp only [findings_eq, List.mem_append, or_assoc]
  refine or_congr ?_ (or_congr ?_ (or_congr ?_ ?_))
  · cases b.call.replacement? <;> simp
  · simp
  · simp
  · simp

/-! ## Calls that are awaited -/

/-- None of the trees awaits or continues what is in it. -/
def Unawaited (us : List Tree) : Prop := ∀ u ∈ us, u.isAwait = false ∧ u.isContinuation = false

instance (us : List Tree) : Decidable (Unawaited us) :=
  inferInstanceAs (Decidable (∀ u ∈ us, u.isAwait = false ∧ u.isContinuation = false))

theorem unawaited_append_iff {us vs : List Tree} :
    Unawaited (us ++ vs) ↔ Unawaited us ∧ Unawaited vs := List.forall_mem_append

theorem Site.missingAwait_mem_iff :
    .missingAwait ∈ b.findings isAction models ↔ b.awaited = false ∧ b.continued = false := by
  simp [Site.mem_findings_iff, Site.mem_modelFindings_iff]

theorem IsSite.missingAwait_iff (h : IsSite ⟨false, false⟩ t a b) :
    ⟨.missingAwait, b.name, b.line⟩ ∈ b.diagnostics isAction models ↔ Unawaited (t.around a) := by
  have hmem : ⟨.missingAwait, b.name, b.line⟩ ∈ b.diagnostics isAction models ↔
      .missingAwait ∈ b.findings isAction models := by
    simp [Site.diagnostics]
  rw [hmem, Site.missingAwait_mem_iff, h.awaited, h.continued, Bool.false_or, Bool.false_or,
    List.any_eq_false, List.any_eq_false]
  simp only [Unawaited, Bool.not_eq_true, forall_and]

/-! ## The order of what is found -/

mutual

theorem lines_sublist : (s : Scope) → (t : Tree) →
    ((sites s t).map Site.line).Sublist t.callLines
  | s, .identifier _ | s, .literal _ => .refl _
  | s, .member object name => lines_sublist _ object
  | s, .call line callee types args => by
    have hown : (((hostCall? callee).map fun (call, name) =>
        (⟨call, name, line, args.getLast?, s.awaited, s.continued⟩ : Site)).toList.map
          Site.line).Sublist [line] := by
      cases hostCall? callee with
      | none => exact List.nil_sublist _
      | some c => exact .refl _
    simp only [sites, Tree.callLines, List.map_append, List.append_assoc]
    exact hown.append <| (lines_sublist s callee).append <|
      (lines_sublist s types).append (allLines_sublist s args)
  | s, .await operand => lines_sublist _ operand
  | s, .function ts | s, .group ts => allLines_sublist s ts

theorem allLines_sublist : (s : Scope) → (ts : List Tree) →
    ((allSites s ts).map Site.line).Sublist (Tree.allCallLines ts)
  | _, [] => .refl _
  | s, t :: ts => by
    simp only [allSites, Tree.allCallLines, List.map_append]
    exact (lines_sublist s t).append (allLines_sublist s ts)

end

theorem Site.line_of_mem {d : Diagnostic} (h : d ∈ b.diagnostics isAction models) :
    d.line = b.line := by
  obtain ⟨f, -, rfl⟩ := List.mem_map.1 h
  rfl

theorem diagnosticsOf_sorted (h : t.callLines.Pairwise (· ≤ ·)) :
    (diagnosticsOf isAction models t).Pairwise fun d e => d.line ≤ e.line := by
  have hsites := h.sublist (lines_sublist ⟨false, false⟩ t)
  rw [List.pairwise_map] at hsites
  refine List.pairwise_flatMap.2 ⟨fun b _ => ?_, hsites.imp fun hle d hd e he => ?_⟩
  · refine List.pairwise_of_forall_mem_list fun d hd e he => ?_
    rw [Site.line_of_mem hd, Site.line_of_mem he]
  · rw [Site.line_of_mem hd, Site.line_of_mem he]
    exact hle

/-- Each call of the host is checked once, in the order of the text. It is said not to be awaited
unless something around it awaits or continues, and the lines of what is said do not fall. -/
theorem checks_each_call :
    (∀ t, Lists (IsSite ⟨false, false⟩ t) (sites ⟨false, false⟩ t) ∧
      ∀ a b, IsSite ⟨false, false⟩ t a b → ∀ isAction models,
        (⟨.missingAwait, b.name, b.line⟩ ∈ b.diagnostics isAction models ↔
          Unawaited (t.around a))) ∧
      ∀ source bytes t, Text.Utf8.encoded source = .ok bytes → Script.parse source = .ok t →
        ∀ type models label, ∃ r, lint source type models label = .ok r ∧
          r.diagnostics = (sites ⟨false, false⟩ t).flatMap
            (Site.diagnostics (type = FlowKind.action.name) models) ∧
          r.diagnostics.Pairwise fun d e => d.line ≤ e.line := by
  refine ⟨fun t => ⟨lists_sites t _, fun a b h isAction models => h.missingAwait_iff⟩, ?_⟩
  intro source bytes t hbytes ht type models label
  exact ⟨_, lint_eq hbytes ht type models label, rfl,
    diagnosticsOf_sorted (Script.callLines_sorted ht)⟩

theorem checks_each_call_callback :
    IsSite ⟨false, false⟩ callbackTree [0, 0, 0, 0, 0, 0, 1] callbackSite ∧
      (⟨.missingAwait, "batchSave", 1⟩ ∈ callbackSite.diagnostics false [] ↔
        Unawaited (callbackTree.around [0, 0, 0, 0, 0, 0, 1])) ∧
      Script.parse callback = .ok callbackTree ∧
      ∃ r, lint callback "sync" [] "a.ts" = .ok r ∧
        r.diagnostics = [⟨.invalidModel "", "batchSave", 1⟩] ∧
        r.diagnostics.Pairwise fun d e => d.line ≤ e.line := by
  obtain ⟨hsites, hreports⟩ := checks_each_call
  obtain ⟨bytes, hbytes⟩ := encoded_callback
  obtain ⟨r, hr, hdiagnostics, hsorted⟩ :=
    hreports callback bytes callbackTree hbytes parse_callback "sync" [] "a.ts"
  have hlist : (sites ⟨false, false⟩ callbackTree).flatMap
      (Site.diagnostics ("sync" = FlowKind.action.name) []) =
        [⟨.invalidModel "", "batchSave", 1⟩] := by
    decide
  exact ⟨isSite_callback, (hsites callbackTree).2 _ _ isSite_callback false [], parse_callback,
    r, hr, hdiagnostics.trans hlist, hsorted⟩

/-! ## Functions around calls -/

/-- The trees around an address that are inside the innermost function around it. -/
def within (t : Tree) (a : List Nat) : List Tree := (t.around a).rtakeWhile fun u => !u.isFunction

/-- The innermost function around an address, and the trees around this function. -/
def beyond (t : Tree) (a : List Nat) : List Tree := (t.around a).rdropWhile fun u => !u.isFunction

theorem beyond_append_within (t : Tree) (a : List Nat) : beyond t a ++ within t a = t.around a :=
  List.rdropWhile_append_rtakeWhile

/-- A call that nothing awaits or continues in its function is said not to be awaited unless
something around the function awaits or continues. -/
theorem missingAwait_iff_beyond (hbytes : Text.Utf8.encoded source = .ok bytes)
    (ht : Script.parse source = .ok t) (type : String) (models : List String) (label : String) :
    ∃ r, lint source type models label = .ok r ∧
      r.diagnostics = (sites ⟨false, false⟩ t).flatMap
        (Site.diagnostics (type = FlowKind.action.name) models) ∧
      ∀ a b, IsSite ⟨false, false⟩ t a b → Unawaited (within t a) →
        (⟨.missingAwait, b.name, b.line⟩ ∈ b.diagnostics (type = FlowKind.action.name) models ↔
          Unawaited (beyond t a)) := by
  refine ⟨_, lint_eq hbytes ht type models label, rfl, fun a b hb hwithin => ?_⟩
  rw [hb.missingAwait_iff, ← beyond_append_within, unawaited_append_iff]
  exact and_iff_left hwithin

theorem unawaited_within_callback : Unawaited (within callbackTree [0, 0, 0, 0, 0, 0, 1]) := by
  decide

theorem missingAwait_iff_beyond_callback :
    IsSite ⟨false, false⟩ callbackTree [0, 0, 0, 0, 0, 0, 1] callbackSite ∧
      Unawaited (within callbackTree [0, 0, 0, 0, 0, 0, 1]) ∧
      (⟨.missingAwait, "batchSave", 1⟩ ∈ callbackSite.diagnostics false [""] ↔
        Unawaited (beyond callbackTree [0, 0, 0, 0, 0, 0, 1])) := by
  obtain ⟨bytes, hbytes⟩ := encoded_callback
  obtain ⟨r, -, -, hmissing⟩ :=
    missingAwait_iff_beyond hbytes parse_callback "sync" [""] "a.ts"
  exact ⟨isSite_callback, unawaited_within_callback,
    hmissing _ _ isSite_callback unawaited_within_callback⟩

/-- An `await` beyond the function hides that the call is not awaited in it. -/
theorem not_missingAwait_within : ¬∀ source bytes t type models label r,
    Text.Utf8.encoded source = .ok bytes → Script.parse source = .ok t →
      lint source type models label = .ok r → ∀ a b, IsSite ⟨false, false⟩ t a b →
        Unawaited (within t a) → ⟨.missingAwait, b.name, b.line⟩ ∈ r.diagnostics := by
  intro h
  obtain ⟨bytes, hbytes⟩ := encoded_callback
  have hmissing := h callback bytes callbackTree "sync" [""] "a.ts" _ hbytes parse_callback
    (lint_callback "sync" [""] "a.ts") _ callbackSite isSite_callback unawaited_within_callback
  have hnone : diagnosticsOf false [""] callbackTree = [] := by decide
  exact List.not_mem_nil (hnone ▸ hmissing)

/-! ## Calls that are in the way of compiling -/

/-- A call that a script of the given type may not make, or one that names a model that is not
known. -/
inductive IsMisuse (type : String) (models : List String) : Tree → Prop where
  | disallowed {line : Nat} {name : String} {types : Tree} {args : List Tree}
    (htype : type = FlowKind.action.name)
    (hname : name ∈ ["batchSend", "batchSave", "batchDelete", "setLastSyncDate"]) :
    IsMisuse type models (.call line (.member (.identifier "nango") (some name)) types args)
  | unknownModel {line : Nat} {name text : String} {types : Tree} {args : List Tree}
    (hname : name ∈ ["batchSave", "batchDelete"]) (hlast : args.getLast? = some (.literal text))
    (htext : text ∉ models) :
    IsMisuse type models (.call line (.member (.identifier "nango") (some name)) types args)

theorem Report.isEligible_eq_false_iff {r : Report} :
    r.isEligible = false ↔ ∃ d ∈ r.diagnostics, d.finding.severity = .error := by
  simp [isEligible, errors]

theorem Site.error_mem_iff :
    (∃ f ∈ b.findings isAction models, f.severity = .error) ↔
      (isAction = true ∧ b.call.isForSyncs = true) ∨
        b.call.namesModel = true ∧ ∃ text, b.last = some (.literal text) ∧ text ∉ models := by
  simp only [mem_findings_iff, mem_modelFindings_iff]
  constructor
  · rintro ⟨f, (⟨_, -, rfl⟩ | ⟨h, rfl⟩ | ⟨-, rfl⟩ | ⟨hmodel, ⟨text, hlast, htext, rfl⟩ | ⟨-, rfl⟩⟩),
      herror⟩
    · cases herror
    · exact .inl h
    · cases herror
    · exact .inr ⟨hmodel, text, hlast, htext⟩
    · cases herror
  · rintro (h | ⟨hmodel, text, hlast, htext⟩)
    · exact ⟨.disallowedInAction, .inr (.inl ⟨h, rfl⟩), rfl⟩
    · exact ⟨.invalidModel text,
        .inr (.inr (.inr ⟨hmodel, .inl ⟨text, hlast, htext, rfl⟩⟩)), rfl⟩

theorem IsMisuse.host_call {u : Tree} (h : IsMisuse type models u) :
    ∃ call line name types args, HostCall.ofName? name = some call ∧
      u = .call line (.member (.identifier "nango") (some name)) types args ∧
      (type = FlowKind.action.name ∧ call.isForSyncs = true ∨ call.namesModel = true ∧
        ∃ text, args.getLast? = some (.literal text) ∧ text ∉ models) := by
  have hknown : ∀ n ∈ ["batchSend", "batchSave", "batchDelete", "setLastSyncDate"],
      (HostCall.ofName? n).isSome = true := by decide
  cases h with
  | @disallowed line name types args htype hname =>
    obtain ⟨call, hcall⟩ := Option.isSome_iff_exists.1 (hknown name hname)
    exact ⟨call, line, name, types, args, hcall, rfl,
      .inl ⟨htype, (HostCall.isForSyncs_iff hcall).2 hname⟩⟩
  | @unknownModel line name text types args hname hlast htext =>
    have hall : name ∈ ["batchSend", "batchSave", "batchDelete", "setLastSyncDate"] := by
      simp only [List.mem_cons] at hname ⊢
      tauto
    obtain ⟨call, hcall⟩ := Option.isSome_iff_exists.1 (hknown name hall)
    exact ⟨call, line, name, types, args, hcall, rfl,
      .inr ⟨(HostCall.namesModel_iff hcall).2 hname, text, hlast, htext⟩⟩

/-- What is said about a tree is in the way of compiling exactly if a call in it is. -/
theorem error_mem_diagnosticsOf_iff :
    (∃ d ∈ diagnosticsOf (type = FlowKind.action.name) models t, d.finding.severity = .error) ↔
      ∃ a u, t.at? a = some u ∧ IsMisuse type models u := by
  constructor
  · rintro ⟨d, hd, herror⟩
    obtain ⟨b, hb, hd⟩ := List.mem_flatMap.1 hd
    obtain ⟨f, hf, rfl⟩ := List.mem_map.1 hd
    obtain ⟨a, ⟨types, args, hat, hlast⟩, hknown, -, -⟩ := (lists_sites t _).mem_iff.1 hb
    refine ⟨a, _, hat, ?_⟩
    rcases Site.error_mem_iff.1 ⟨f, hf, herror⟩ with ⟨htype, hcall⟩ | ⟨hcall, text, htext, hmodels⟩
    · exact .disallowed (of_decide_eq_true htype) ((HostCall.isForSyncs_iff hknown).1 hcall)
    · exact .unknownModel ((HostCall.namesModel_iff hknown).1 hcall) (hlast ▸ htext) hmodels
  · rintro ⟨a, u, hat, hmisuse⟩
    obtain ⟨call, line, name, types, args, hknown, rfl, herror⟩ := hmisuse.host_call
    obtain ⟨b, hb, rfl, hlast⟩ := exists_isSite ⟨false, false⟩ hat hknown
    rw [← hlast] at herror
    obtain ⟨f, hf, hsevere⟩ := Site.error_mem_iff.2
      (herror.imp_left fun h => ⟨decide_eq_true h.1, h.2⟩)
    exact ⟨_, List.mem_flatMap.2 ⟨b, (lists_sites t _).mem_iff.2 ⟨a, hb⟩,
      List.mem_map_of_mem hf⟩, hsevere⟩

/-- For an action the same is said as for any other flow, and besides what it may not call. -/
theorem Site.filter_diagnostics (s : Site) (models : List String) :
    (s.diagnostics true models).filter (fun d => d.finding != .disallowedInAction) =
      s.diagnostics false models := by
  have hmodel : (s.modelFindings models).filter (· != .disallowedInAction) =
      s.modelFindings models := by
    refine List.filter_eq_self.2 fun f hf => ?_
    rcases Site.mem_modelFindings_iff.1 hf with ⟨name, -, -, rfl⟩ | ⟨-, rfl⟩ <;> rfl
  have hfindings : (s.findings true models).filter (· != .disallowedInAction) =
      s.findings false models := by
    simp only [findings_eq, List.filter_append]
    congr 1
    · congr 1
      · cases s.call.replacement? <;> cases s.call.isForSyncs <;> rfl
      · split_ifs <;> rfl
    · split_ifs
      · exact hmodel
      · rfl
  rw [diagnostics, List.filter_map, diagnostics, ← hfindings]
  rfl

theorem filter_diagnosticsOf (models : List String) (t : Tree) :
    (diagnosticsOf true models t).filter (fun d => d.finding != .disallowedInAction) =
      diagnosticsOf false models t := by
  simp only [diagnosticsOf, List.filter_flatMap, Site.filter_diagnostics]

/-- A script is in the way of compiling exactly if it misuses a call of the host. For an action the
same is said as for any other flow, and besides what it may not call. -/
theorem isEligible_iff (hbytes : Text.Utf8.encoded source = .ok bytes)
    (ht : Script.parse source = .ok t) (type : String) (models : List String) (label : String) :
    ∃ r, lint source type models label = .ok r ∧
      (r.isEligible = false ↔ ∃ a u, t.at? a = some u ∧ IsMisuse type models u) ∧
      ∃ r', lint source FlowKind.action.name models label = .ok r' ∧
        (type ≠ FlowKind.action.name → { r' with
          diagnostics := r'.diagnostics.filter fun d => d.finding != .disallowedInAction } = r) := by
  refine ⟨_, lint_eq hbytes ht type models label, ?_, _,
    lint_eq hbytes ht FlowKind.action.name models label, fun htype => ?_⟩
  · rw [Report.isEligible_eq_false_iff, error_mem_diagnosticsOf_iff]
  · simp only [decide_true, htype, decide_false, filter_diagnosticsOf]

theorem isEligible_iff_callback :
    ∃ r, lint callback "sync" [] "a.ts" = .ok r ∧ r.isEligible = false ∧
      ∃ r', lint callback "action" [] "a.ts" = .ok r' ∧ { r' with
        diagnostics := r'.diagnostics.filter fun d => d.finding != .disallowedInAction } = r := by
  obtain ⟨bytes, hbytes⟩ := encoded_callback
  obtain ⟨r, hr, heligible, r', hr', hsame⟩ :=
    isEligible_iff hbytes parse_callback "sync" [] "a.ts"
  have hmisuse : IsMisuse "sync" [] (.call 1 (.member (.identifier "nango") (some "batchSave"))
      .empty [.literal ""]) :=
    .unknownModel List.mem_cons_self rfl List.not_mem_nil
  exact ⟨r, hr, heligible.2 ⟨[0, 0, 0, 0, 0, 0, 1], _, rfl, hmisuse⟩, r', hr', hsame (by decide)⟩

end Lint
end FlowPipeline
