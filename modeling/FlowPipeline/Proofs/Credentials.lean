import FlowPipeline.Proofs.SecretKeys
import FlowPipeline.Proofs.Utf8RoundTrip
import Mathlib.Data.List.Basic

/-! # Credentials

A request to deploy carries the key that is configured: the first variable for the tag that is set
to more than blanks. Hosted services get the key as it is. Other hosts get it as the name of a user,
from which they can read it. There are two exceptions. A variable for the tag alone that is set to
blanks hides the common one. And for a key without bytes there is no request to a host that is not
hosted.
-/

namespace FlowPipeline

/-! ## Digits read back -/

namespace Text.Base64

theorem value?_digit : ∀ n < 64, value? (digit n) = some n := by decide

theorem value?_padding : value? '=' = none := by decide

section

variable {x y z n : Nat} {cs : List Char}

theorem decodeGroup_digit (h : n < 64) {group : List Nat} (hgroup : group.length < 3) :
    decodeGroup (digit n :: cs) group = decodeGroup cs (group ++ [n]) := by
  match group, hgroup with
  | [], _ | [_], _ | [_, _], _ => simp only [decodeGroup, value?_digit n h]

theorem decodeGroup_digit_last (h : n < 64) :
    decodeGroup (digit n :: cs) [x, y, z] = (decodeGroup cs []).map
      (.ofNat (x * 4 + y / 16) :: .ofNat (y % 16 * 16 + z / 4) ::
        .ofNat (z % 4 * 64 + n) :: ·) := by
  simp only [decodeGroup, value?_digit n h]

end

theorem ofNat_eq {n : Nat} {a : UInt8} (h : n = a.toNat) : UInt8.ofNat n = a := by
  rw [h, UInt8.ofNat_toNat]

/-- Bytes can be read back from their digits. -/
theorem decode_encode (bs : List UInt8) : decode (encode bs) = some bs := by
  unfold decode
  induction bs using encode.induct with
  | case1 => rfl
  | case2 a =>
    have ha := a.toNat_lt
    have hfirst : UInt8.ofNat (a.toNat / 4 * 4 + a.toNat % 4 * 16 / 16) = a :=
      ofNat_eq (by omega)
    rw [encode, decodeGroup_digit (by omega) (by decide), decodeGroup_digit (by omega) (by simp)]
    simp only [List.nil_append, List.cons_append, decodeGroup, value?_padding, hfirst,
      List.filter_cons, List.filter_nil, true_or, decide_true, if_true, List.head?_cons]
  | case3 a b =>
    have ha := a.toNat_lt
    have hb := b.toNat_lt
    have hfirst : UInt8.ofNat (a.toNat / 4 * 4 + (a.toNat % 4 * 16 + b.toNat / 16) / 16) = a :=
      ofNat_eq (by omega)
    have hsecond : UInt8.ofNat ((a.toNat % 4 * 16 + b.toNat / 16) % 16 * 16 +
        b.toNat % 16 * 4 / 4) = b := ofNat_eq (by omega)
    rw [encode, decodeGroup_digit (by omega) (by decide), decodeGroup_digit (by omega) (by simp),
      decodeGroup_digit (by omega) (by simp)]
    simp only [List.nil_append, List.cons_append, decodeGroup, value?_padding, if_true, hfirst,
      hsecond]
  | case4 a b c bs ih =>
    have ha := a.toNat_lt
    have hb := b.toNat_lt
    have hc := c.toNat_lt
    have hfirst : UInt8.ofNat (a.toNat / 4 * 4 + (a.toNat % 4 * 16 + b.toNat / 16) / 16) = a :=
      ofNat_eq (by omega)
    have hsecond : UInt8.ofNat ((a.toNat % 4 * 16 + b.toNat / 16) % 16 * 16 +
        (b.toNat % 16 * 4 + c.toNat / 64) / 4) = b := ofNat_eq (by omega)
    have hthird : UInt8.ofNat ((b.toNat % 16 * 4 + c.toNat / 64) % 4 * 64 + c.toNat % 64) = c :=
      ofNat_eq (by omega)
    rw [encode, decodeGroup_digit (by omega) (by decide), decodeGroup_digit (by omega) (by simp),
      decodeGroup_digit (by omega) (by simp)]
    simp only [List.nil_append, List.cons_append]
    rw [decodeGroup_digit_last (by omega), ih, Option.map_some, hfirst, hsecond, hthird]

end Text.Base64

/-! ## The key that is configured -/

namespace Host

/-- The variables that may hold the secret key of a tag; earlier ones come first. -/
def keyVariables (tag : String) : List String :=
  (scopedVariable? tag).toList ++ ["NANGO_SECRET_KEY"]

/-- The first of the keys for a tag that is more than blanks, without the blanks around it. -/
def configuredKey? (tag : String) (env : Environment) : Option String :=
  (keyVariables tag).findSome? (setting? · env)

/-- The variable for the tag alone is set to blanks. -/
def IsBlanked (tag : String) (env : Environment) : Prop :=
  ∃ name value, scopedVariable? tag = some name ∧ env.lookup name = some value ∧
    value ≠ "" ∧ Text.trim value = ""

variable {tag : String} {env : Environment} {key : String}

theorem setting?_of_none {name : String} (h : env.lookup name = none) :
    setting? name env = none := by
  rw [setting?, h]
  rfl

theorem setting?_of_some {name value : String} (h : env.lookup name = some value) :
    setting? name env = (some (Text.trim value)).filter (· != "") := by
  rw [setting?, h]
  rfl

theorem ne_empty_of_configuredKey? (h : configuredKey? tag env = some key) : key ≠ "" := by
  obtain ⟨name, -, hname⟩ := List.exists_of_findSome?_eq_some h
  simpa using (Option.filter_eq_some_iff.1 hname).2

theorem secretKey?_of_isBlanked (h : IsBlanked tag env) : secretKey? tag env = none := by
  obtain ⟨name, value, hname, hvalue, hne, hblank⟩ := h
  simp [secretKey?, hname, hvalue, hne, hblank, Option.filter_some]

/-- The key of the settings is the one that is configured, unless it is hidden by blanks. -/
theorem secretKey?_eq_configuredKey? (h : ¬IsBlanked tag env) :
    secretKey? tag env = configuredKey? tag env := by
  unfold secretKey? configuredKey? keyVariables
  cases hname : scopedVariable? tag with
  | none => simp
  | some name =>
    cases hvalue : env.lookup name with
    | none => simp [hvalue, setting?_of_none hvalue]
    | some value =>
      by_cases hempty : value = ""
      · have htrim : Text.trim "" = "" := by decide
        simp [hvalue, hempty, htrim, setting?_of_some hvalue, Option.filter_some]
      · have hblank : Text.trim value ≠ "" := fun hblank =>
          h ⟨name, value, hname, hvalue, hempty, hblank⟩
        simp [hvalue, hempty, hblank, setting?_of_some hvalue, Option.filter_some]

end Host

/-! ## The key in the request -/

namespace Deployment

/-- The request carries the key: as it is for a hosted service, and as the name of a user, with
nothing for a password, for other hosts. -/
def Presents (dep : Deployment) (key : String) : Prop :=
  if Host.isCloud dep.address then
    dep.headers.lookup "Authorization" = some ("Bearer " ++ key)
  else
    ∃ token bytes, dep.headers.lookup "Authorization" = some ("Basic " ++ token) ∧
      Text.Base64.decode token.toList = some bytes ∧ Text.Utf8.decode bytes = .ok (key ++ ":")

variable {dep : Deployment} {key : String}

theorem lookup_authorization_of_none (h : dep.secretKey = none) :
    dep.headers.lookup "Authorization" = none := by
  unfold headers
  rw [h]
  rfl

theorem lookup_authorization_of_some (h : dep.secretKey = some key) (hne : key ≠ "") :
    dep.headers.lookup "Authorization" = some (authorization dep.address key) := by
  have hkey : (some key).filter (· != "") = some key := by simp [hne]
  unfold headers
  rw [h, hkey]
  rfl

theorem presents_of_some (h : dep.secretKey = some key) (hne : key ≠ "") : dep.Presents key := by
  have hlookup := lookup_authorization_of_some h hne
  unfold Presents
  unfold authorization at hlookup
  split_ifs at hlookup ⊢
  · exact hlookup
  · refine ⟨_, _, hlookup, ?_, Text.Utf8.decode_encode (key ++ ":")⟩
    rw [String.toList_ofList, Text.Base64.decode_encode]

theorem sendable_of_none (h : dep.secretKey = none) : dep.sendable = .ok dep := by
  have hcolon : Text.Utf8.encoded ("" ++ ":") = .ok [58] := by decide
  unfold sendable
  rw [h, Option.getD_none, hcolon]
  cases Host.isCloud dep.address <;> rfl

/-- A request carries the key that is configured, unless a variable for the tag alone is set to
blanks, which leaves it without credentials, or the host needs the bytes of a key that has none. If
no key is configured then it has no credentials. -/
theorem presents_of_resolve {d : Disk} {w : Wishes} {s : Settings}
    (h : Settings.resolve d w = .ok s) (manifest : Option String) (single : Bool)
    (ps : List Package) :
    let dep := ofPackages s manifest single ps
    let tag := Text.trim w.tag
    (∀ key, Host.configuredKey? tag w.environment = some key → ¬Host.IsBlanked tag w.environment →
      (dep.sendable = .ok dep ∧ dep.Presents key) ∨
      ∃ e, Host.isCloud s.address = false ∧ Text.Utf8.encoded (key ++ ":") = .error e ∧
        dep.sendable = .error e) ∧
    (Host.configuredKey? tag w.environment = none ∨ Host.IsBlanked tag w.environment →
      dep.sendable = .ok dep ∧ dep.headers.lookup "Authorization" = none) := by
  intro dep tag
  have hown : dep.secretKey = Host.secretKey? tag w.environment := (Settings.host_of_resolve h).2
  refine ⟨fun key hkey hshown => ?_, fun hnone => ?_⟩
  · rw [Host.secretKey?_eq_configuredKey? hshown, hkey] at hown
    cases hsend : dep.sendable with
    | ok sent =>
      rw [sendable_eq_ok hsend]
      exact .inl ⟨rfl, presents_of_some hown (Host.ne_empty_of_configuredKey? hkey)⟩
    | error e =>
      obtain ⟨hcloud, hbytes⟩ := sendable_eq_error_iff.1 hsend
      rw [hown] at hbytes
      exact .inr ⟨e, hcloud, hbytes, rfl⟩
  · have hkey : dep.secretKey = none := by
      rw [hown]
      by_cases hblank : Host.IsBlanked tag w.environment
      · exact Host.secretKey?_of_isBlanked hblank
      · rw [Host.secretKey?_eq_configuredKey? hblank]
        exact hnone.resolve_right hblank
    exact ⟨sendable_of_none hkey, lookup_authorization_of_none hkey⟩

/-! ## A key that is hidden -/

namespace Keyed

/-- An environment with a common key and with one for development. -/
def environment (own common : String) : Environment :=
  [("NANGO_SECRET_KEY_DEV", own), ("NANGO_SECRET_KEY", common)]

/-- The settings of the small project in that environment. -/
def settings (own common : String) : Settings :=
  Sample.settings.withHost (Host.address "dev" (environment own common))
    (Host.secretKey? "dev" (environment own common))

theorem resolve_eq (own common : String) : Settings.resolve (Sample.project "" none)
    (Sample.wishes.inside (environment own common)) = .ok (settings own common) := by
  have htag : Text.trim Sample.wishes.tag = "dev" := by decide
  have hown : Settings.resolve (Sample.project "" none) Sample.wishes = .ok Sample.settings :=
    Sample.resolve_eq "" none
  rw [Settings.resolve_withHost Sample.wishes (environment own common) rfl, hown, htag]
  rfl

theorem presents_of_resolve_keyed :
    (ofPackages (settings "" " key ") none false []).sendable =
        .ok (ofPackages (settings "" " key ") none false []) ∧
      (ofPackages (settings "" " key ") none false []).Presents "key" := by
  have hkey : Host.configuredKey? (Text.trim Sample.wishes.tag) (environment "" " key ") =
      some "key" := by decide
  have hshown : ¬Host.IsBlanked (Text.trim Sample.wishes.tag) (environment "" " key ") := by
    rintro ⟨name, value, hname, hvalue, hne, -⟩
    have hdev : some name = some "NANGO_SECRET_KEY_DEV" := hname.symm.trans (by decide)
    rw [Option.some.inj hdev] at hvalue
    exact hne (Option.some.inj (hvalue.symm.trans rfl))
  rcases (presents_of_resolve (resolve_eq "" " key ") none false []).1 "key" hkey hshown with
    hsent | ⟨e, hcloud, -⟩
  · exact hsent
  · have hhosted : Host.isCloud (settings "" " key ").address = true := by decide
    rw [hhosted] at hcloud
    cases hcloud

/-- Blanks for a key hide the common one. -/
theorem not_presents_of_resolve : ¬∀ (d : Disk) (w : Wishes) (s : Settings)
    (manifest : Option String) (single : Bool) (ps : List Package) (key : String),
    Settings.resolve d w = .ok s →
    Host.configuredKey? (Text.trim w.tag) w.environment = some key →
    (ofPackages s manifest single ps).sendable = .ok (ofPackages s manifest single ps) ∧
      (ofPackages s manifest single ps).Presents key := by
  intro hall
  have hkey : Host.configuredKey? (Text.trim Sample.wishes.tag) (environment " " "key") =
      some "key" := by decide
  have hpresents := (hall _ _ _ none false [] "key" (resolve_eq " " "key") hkey).2
  have hlookup : (ofPackages (settings " " "key") none false []).headers.lookup "Authorization" =
      none := lookup_authorization_of_none (by decide)
  have hhosted : Host.isCloud (ofPackages (settings " " "key") none false []).address = true := by
    decide
  rw [Presents, hhosted, if_pos rfl, hlookup] at hpresents
  cases hpresents

end Keyed

end Deployment
end FlowPipeline
