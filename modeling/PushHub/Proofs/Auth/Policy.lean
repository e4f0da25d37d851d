import PushHub.Proofs.Auth.Chain
import PushHub.Proofs.Config.Validation
import PushHub.Proofs.Text.Named

/-! The verifier of a configuration answers as its section on credentials says: by the table of fixed
tokens first, and by the secret for every token that the table does not have. An accepted configuration
always has such a verifier. -/
namespace PushHub

namespace Auth

variable {now : UInt64} {token : String} {best e : AuthError} {u : UserId}

/-! ## Tables -/

namespace TokenTable

variable {t : TokenTable} {entries : List (String × UInt64)}

theorem lookup_of_ofEntries (h : ofEntries entries = .ok t) (token : String) :
    (t.entries.lookup token).map UserId.value = entries.lookup token := by
  unfold ofEntries at h
  obtain ⟨es, hes, h⟩ := bind_eq_ok.mp h
  cases h
  show (es.lookup token).map UserId.value = _
  clear h
  induction entries generalizing es with
  | nil =>
    cases hes
    rfl
  | cons entry entries ih =>
    rw [List.mapM_cons] at hes
    obtain ⟨first, hfirst, hes⟩ := bind_eq_ok.mp hes
    obtain ⟨rest, hrest, hes⟩ := bind_eq_ok.mp hes
    cases hes
    obtain ⟨name, id⟩ := entry
    dsimp only at hfirst
    cases hid : UserId.ofUInt64 id with
    | error e =>
      rw [hid] at hfirst
      cases hfirst
    | ok u =>
      rw [hid] at hfirst
      cases hfirst
      rw [Named.lookup_cons, Named.lookup_cons, ← ih rest hrest, ← UserId.ofUInt64_eq_ok.mp hid]
      split <;> rfl

theorem verifier_of_lookup (h : t.entries.lookup token = some u) :
    t.verifier now token = .ok u := by
  unfold verifier
  rw [h]

theorem verifier_of_unknown (h : t.entries.lookup token = none) :
    t.verifier now token = .error .invalidToken := by
  unfold verifier
  rw [h]

end TokenTable

/-! ## Chains -/

theorem SigningKey.error_cases {k : SigningKey} (h : k.verifier now token = .error e) :
    e = .invalidToken ∨ e = .expired ∨ e = .unknownUser := by
  unfold SigningKey.verifier at h
  split at h
  · exact .inl (Except.error.inj h).symm
  · split at h
    · exact .inr (.inl (Except.error.inj h).symm)
    · split at h
      · exact .inl (Except.error.inj h).symm
      · split at h
        · cases h
        · exact .inr (.inr (Except.error.inj h).symm)

namespace Verifier

variable {v : Verifier} {rest : List Verifier}

theorem chain_of_ok (h : v now token = .ok u) : chain (v :: rest) now token = .ok u := by
  rw [chain_cons]
  exact otherwise_of_ok _ h

theorem chain_of_error (h : v now token = .error e) :
    chain (v :: rest) now token = (chain rest now token).mapError e.worse := by
  rw [chain_cons]
  exact otherwise_of_error _ h

theorem chain_singleton (v : Verifier) : chain [v] = v := by
  rw [chain_cons]
  funext now token
  cases hv : v now token with
  | ok u => exact otherwise_of_ok _ hv
  | error e =>
    rw [otherwise_of_error _ hv]
    exact congrArg Except.error (AuthError.worse_noVerifier e)

theorem mapError_worse (h : ∀ e, v now token = .error e → best.worse e = e) :
    (v now token).mapError best.worse = v now token := by
  cases hv : v now token with
  | ok u => rfl
  | error e => exact congrArg Except.error (h e hv)

end Verifier

variable {a : AuthConfig} {ts : List Verifier}

theorem tables_eq_ok (h : tables a = .ok ts) :
    (a.tokens = [] ∧ ts = []) ∨ ∃ t : TokenTable, a.tokens ≠ [] ∧ ts = [t.verifier] ∧
      ∀ token, (t.entries.lookup token).map UserId.value =
        (a.tokens.lookup token).map UInt64.ofNat := by
  unfold tables at h
  by_cases hempty : a.tokens = []
  · rw [hempty] at h
    exact .inl ⟨hempty, (Except.ok.inj h).symm⟩
  · rw [if_neg (mt List.isEmpty_iff.mp hempty)] at h
    obtain ⟨t, ht, h⟩ := bind_eq_ok.mp h
    refine .inr ⟨t, hempty, (Except.ok.inj h).symm, fun token => ?_⟩
    rw [TokenTable.lookup_of_ofEntries ht]
    induction a.tokens with
    | nil => rfl
    | cons entry entries ih =>
      rw [List.map_cons, Named.lookup_cons, Named.lookup_cons, ih]
      by_cases hname : token = entry.1
      · rw [if_pos hname, if_pos hname]
        rfl
      · rw [if_neg hname, if_neg hname]

end Auth

/-! ## What a configuration says of credentials -/

open Auth (SigningKey)

namespace AuthConfig

def secret? (a : AuthConfig) : Option String := a.jwtSecret.filter (! ·.isEmpty)

/-- A verifier does as a configuration says: it knows each token of the table, the key decides on the
others, and without a key they are refused, in one way if there is a table and in another if not. -/
structure Describes (a : AuthConfig) (v : Auth.Verifier) : Prop where
  fixed : ∀ (now : UInt64) (token : String) (id : UInt64), a.tokens.lookup token = some id.toNat →
    ∃ u, v now token = .ok u ∧ u.value = id
  signed : ∀ (now : UInt64) (token secret : String) (leeway : UInt64),
    a.tokens.lookup token = none → a.secret? = some secret → leeway.toNat = a.jwtLeewaySecs →
      v now token = (⟨Text.utf8 secret, leeway⟩ : SigningKey).verifier now token
  unknown : ∀ (now : UInt64) (token : String), a.tokens.lookup token = none → a.secret? = none →
    a.tokens ≠ [] → v now token = .error .invalidToken
  nobody : ∀ (now : UInt64) (token : String), a.secret? = none → a.tokens = [] →
    v now token = .error .noVerifier

variable {a : AuthConfig} {secret : String} {v : Auth.Verifier}

theorem signed_of_secret (h : a.secret? = some secret) :
    Auth.signed a = [(⟨Text.utf8 secret, UInt64.ofNat a.jwtLeewaySecs⟩ : SigningKey).verifier] := by
  obtain ⟨hsecret, hfull⟩ := Option.filter_eq_some_iff.mp h
  unfold Auth.signed
  rw [hsecret]
  exact if_neg fun hempty => absurd hempty (by simpa using hfull)

theorem signed_of_none (h : a.secret? = none) : Auth.signed a = [] := by
  unfold Auth.signed
  split
  · rename_i secret hsecret
    unfold secret? at h
    rw [hsecret, Option.filter_eq_none_iff] at h
    exact if_pos (by simpa using h secret rfl)
  · rfl

theorem describes_of_policy (h : Auth.policy a = .ok v) : a.Describes v := by
  unfold Auth.policy at h
  obtain ⟨ts, hts, h⟩ := bind_eq_ok.mp h
  cases h
  -- Without entries there is no table in the chain. With some it is asked first, and what it does not
  -- know is left to the key.
  rcases Auth.tables_eq_ok hts with ⟨hempty, rfl⟩ | ⟨t, hfull, rfl, hlookup⟩
  · constructor
    case fixed =>
      intro now token id hknown
      rw [hempty] at hknown
      cases hknown
    case signed =>
      intro now token secret leeway _ hsecret hleeway
      rw [signed_of_secret hsecret, ← hleeway, UInt64.ofNat_toNat, List.nil_append,
        Auth.Verifier.chain_singleton]
    case unknown =>
      intro now token _ _ hne
      exact absurd hempty hne
    case nobody =>
      intro now token hnone _
      rw [signed_of_none hnone]
      rfl
  · have hmissing : ∀ token now, a.tokens.lookup token = none →
        t.verifier now token = .error .invalidToken := by
      intro token now hnone
      have hentry := hlookup token
      rw [hnone, Option.map_none, Option.map_eq_none_iff] at hentry
      exact Auth.TokenTable.verifier_of_unknown hentry
    constructor
    case fixed =>
      intro now token id hknown
      have hentry := hlookup token
      rw [hknown, Option.map_some, UInt64.ofNat_toNat, Option.map_eq_some_iff] at hentry
      obtain ⟨u, hu, hvalue⟩ := hentry
      exact ⟨u, Auth.Verifier.chain_of_ok (Auth.TokenTable.verifier_of_lookup hu), hvalue⟩
    case signed =>
      intro now token secret leeway hnone hsecret hleeway
      rw [signed_of_secret hsecret, ← hleeway, UInt64.ofNat_toNat, List.singleton_append]
      refine (Auth.Verifier.chain_of_error (hmissing token now hnone)).trans ?_
      rw [Auth.Verifier.chain_singleton]
      refine Auth.Verifier.mapError_worse fun e he => ?_
      rcases SigningKey.error_cases he with rfl | rfl | rfl <;> rfl
    case unknown =>
      intro now token hnone hsecret _
      rw [signed_of_none hsecret]
      exact Auth.Verifier.chain_of_error (hmissing token now hnone)
    case nobody =>
      intro now token _ hempty
      exact absurd hempty hfull

end AuthConfig

namespace Hub

variable {c : Config} {clock : UInt64} {h : Hub}

theorem describes_of_ofConfig (hc : ofConfig c clock = .ok h) : c.auth.Describes h.verifier := by
  unfold ofConfig at hc
  obtain ⟨verifier, hverifier, hc⟩ := bind_eq_ok.mp hc
  obtain ⟨channels, _, hc⟩ := bind_eq_ok.mp hc
  dsimp only at hc
  split at hc
  · cases hc
  · cases hc
    exact AuthConfig.describes_of_policy (mapError_eq_ok.mp hverifier)

/-- There is a hub for every accepted configuration, with the verifier that it describes, unless the
machine gives no queue of its length; and what a hub is refused for, a check refuses as well. -/
theorem ofConfig_describes (c : Config) (clock : UInt64) :
    (c.validate = .ok () → c.hub.commandBuffer ≤ longestQueue →
      ∃ h, ofConfig c clock = .ok h ∧ c.auth.Describes h.verifier) ∧
    ∀ f, ofConfig c clock = .error (.invalid f) → ∃ g, c.validate = .error g := by
  constructor
  · intro hvalid hqueue
    obtain ⟨verifier, channels, heq⟩ := ofConfig_of_valid (Config.validate_eq_ok.mp hvalid) clock
    rw [if_neg (Nat.not_lt_of_le hqueue)] at heq
    exact ⟨_, heq, describes_of_ofConfig heq⟩
  · intro f hrefused
    cases hvalid : c.validate with
    | error g => exact ⟨g, rfl⟩
    | ok _ =>
      obtain ⟨verifier, channels, heq⟩ := ofConfig_of_valid (Config.validate_eq_ok.mp hvalid) clock
      rw [hrefused] at heq
      split at heq <;> cases heq

def guarded (id : Nat) : Config :=
  { auth := { jwtSecret := some "s3cret", tokens := [("dev-token", id)] } }

/-- The token of the table is that of its user, and on any other text the key decides. A table with the
user 0 makes no hub, nor does it pass the checks. -/
theorem guarded_describes :
    (∃ h, ofConfig (guarded 42) 1000 = .ok h ∧
      (∃ u, h.verify "dev-token" = .ok u ∧ u.value = 42) ∧
      h.verify "other" = (⟨Text.utf8 "s3cret", 60⟩ : SigningKey).verifier 1000 "other") ∧
    ∃ g, (guarded 0).validate = .error g := by
  constructor
  · obtain ⟨h, hstart, hdescribes⟩ := (ofConfig_describes (guarded 42) 1000).1 rfl (by decide)
    obtain ⟨verifier, channels, rfl⟩ := eq_start_of_ofConfig hstart
    exact ⟨_, hstart, hdescribes.fixed 1000 "dev-token" 42 rfl,
      hdescribes.signed 1000 "other" "s3cret" 60 rfl rfl rfl⟩
  · exact (ofConfig_describes (guarded 0) 1000).2 (.credentials .unknownUser) rfl

end Hub

end PushHub
