import PushHub.Proofs.Auth.Policy
import PushHub.Proofs.Config.Reading
import PushHub.Proofs.ServerFrame

/-! A user is a number, and the same one wherever it comes from: a word, a text, a JSON text, a table of
tokens or the subject of a signed token. No way leads to the user zero. -/
namespace PushHub

namespace Json.Outline

theorem unexpected_ne_ok {α : Type} {v : Outline} {expected : String} {a : α} :
    v.unexpected expected ≠ .ok a := by
  intro h
  unfold unexpected at h
  split at h <;> cases h

theorem asInteger_eq_ok {low high i : Int} {expected : String} {v : Outline} :
    v.asInteger low high expected = .ok i ↔
      ∃ w : WireInt, v = .number (some (.integer w)) ∧ w.value = i ∧ low ≤ i ∧ i ≤ high := by
  constructor
  · intro h
    unfold asInteger at h
    split at h
    · rename_i w
      split at h
      · cases h
        exact ⟨w, rfl, rfl, ‹_›⟩
      · cases h
    · exact absurd h unexpected_ne_ok
  · rintro ⟨w, rfl, rfl, hbounds⟩
    exact if_pos hbounds

theorem asUInt64_eq_ok {v : Outline} {m : UInt64} : v.asUInt64 = .ok m ↔
    ∃ w : WireInt, v = .number (some (.integer w)) ∧ w.value = m.toNat := by
  constructor
  · intro h
    unfold asUInt64 at h
    cases hread : v.asInteger 0 0xffffffffffffffff "u64" with
    | error e =>
      rw [hread] at h
      cases h
    | ok i =>
      obtain ⟨w, hv, rfl, hlow, hhigh⟩ := asInteger_eq_ok.mp hread
      have hfits : w.value.toNat < UInt64.size := by
        show w.value.toNat < 0x10000000000000000
        omega
      have hvalue : (UInt64.ofNat w.value.toNat).toNat = w.value.toNat :=
        UInt64.toNat_ofNat_of_lt hfits
      rw [hread] at h
      cases h
      refine ⟨w, hv, ?_⟩
      show w.value = ((UInt64.ofNat w.value.toNat).toNat : Int)
      omega
  · rintro ⟨w, rfl, hvalue⟩
    obtain rfl : w = .ofUInt64 m := by
      cases w
      cases hvalue
      rfl
    exact asUInt64_ofUInt64 m

end Json.Outline

namespace UserId

open Json (Outline)

variable {u : UserId} {n : Nat} {s : String}

/-! ## JSON -/

theorem decode_eq_ok {v : Outline} : decode v = .ok u ↔
    ∃ w : WireInt, v = .number (some (.integer w)) ∧ w.value = u.value.toNat := by
  rw [← Outline.asUInt64_eq_ok]
  unfold decode
  rw [bind_eq_ok]
  constructor
  · rintro ⟨m, hm, h⟩
    cases hu : ofUInt64 m with
    | error e =>
      rw [hu] at h
      cases h
    | ok u' =>
      rw [hu] at h
      cases h
      rw [ofUInt64_eq_ok.mp hu]
      exact hm
  · intro hm
    exact ⟨u.value, hm, by rw [ofUInt64_eq_ok.mpr rfl]⟩

theorem decodeText_eq_ok {text : String} : Json.decodeText decode text = .ok u ↔
    ∃ w : WireInt, Outline.ofString text = (.number (some (.integer w)), true) ∧
      w.value = u.value.toNat := by
  unfold Json.decodeText
  rcases Outline.ofString text with ⟨v, alone⟩
  dsimp only
  constructor
  · intro h
    cases hread : decode v with
    | error f =>
      rw [hread] at h
      cases h
    | ok u' =>
      rw [hread] at h
      cases alone with
      | false => cases h
      | true =>
        cases h
        obtain ⟨w, rfl, hvalue⟩ := decode_eq_ok.mp hread
        exact ⟨w, rfl, hvalue⟩
  · rintro ⟨w, heq, hvalue⟩
    cases heq
    rw [decode_eq_ok.mpr ⟨w, rfl, hvalue⟩]
    rfl

theorem decodeText_of_zero {w : WireInt} (h : (Outline.ofString s).1 = .number (some (.integer w)))
    (hzero : w.value = 0) :
    Json.decodeText decode s = Json.fail (.refused (InvalidUserId.mk "0").message) := by
  have hread : decode (.number (some (.integer w))) =
      Json.fail (.refused (InvalidUserId.mk "0").message) := by
    have hword : Outline.asUInt64 (.number (some (.integer w))) = .ok 0 :=
      Outline.asUInt64_eq_ok.mpr ⟨w, rfl, hzero⟩
    unfold decode
    rw [hword]
    rfl
  unfold Json.decodeText
  dsimp only
  rw [h, hread]
  rfl

end UserId

namespace Auth

namespace TokenTable

variable {entries : List (String × UInt64)}

theorem ofEntries_of_zero (h : ∃ e ∈ entries, e.2 = 0) :
    ofEntries entries = .error .unknownUser := by
  obtain ⟨⟨name, id⟩, he, rfl⟩ := h
  unfold ofEntries
  rw [mapM_eq_error (e := .unknownUser) ?_ ⟨(name, 0), he, .unknownUser, rfl⟩]
  · rfl
  · rintro ⟨name, id⟩ d hd
    dsimp only at hd
    split at hd <;> cases hd
    rfl

theorem verifier_eq_ok {t : TokenTable} {now : UInt64} {token : String} {u : UserId} :
    t.verifier now token = .ok u ↔ t.entries.lookup token = some u := by
  unfold verifier
  cases t.entries.lookup token <;> simp

theorem ofEntries_verifier_eq_ok {now : UInt64} {token : String} {u : UserId} :
    (ofEntries entries >>= fun t => t.verifier now token) = .ok u ↔
      (∀ e ∈ entries, e.2 ≠ 0) ∧ entries.lookup token = some u.value := by
  rw [bind_eq_ok]
  constructor
  · rintro ⟨t, ht, hverify⟩
    refine ⟨fun e he hzero => ?_, ?_⟩
    · rw [ofEntries_of_zero ⟨e, he, hzero⟩] at ht
      cases ht
    · rw [← lookup_of_ofEntries ht, verifier_eq_ok.mp hverify]
      rfl
  · rintro ⟨hproper, hlookup⟩
    obtain ⟨t, ht⟩ := exists_ofEntries hproper
    rw [← lookup_of_ofEntries ht, Option.map_eq_some_iff] at hlookup
    obtain ⟨u', hentry, hvalue⟩ := hlookup
    rw [UserId.eq_of_value hvalue] at hentry
    exact ⟨t, ht, verifier_eq_ok.mpr hentry⟩

end TokenTable

namespace SigningKey

variable {k : SigningKey} {now : UInt64} {token : String} {u : UserId}

/-- The number that the subject of a token stands for, if the token is signed and not out of date. -/
def Names (k : SigningKey) (now : UInt64) (token : String) (n : Nat) : Prop :=
  ∃ claims, SignedToken.open? k.secret token = some (claims, false) ∧
    k.isExpired now claims = false ∧ UserId.Denotes claims.subject n

theorem verifier_of_open {claims : Claims}
    (h : SignedToken.open? k.secret token = some (claims, false))
    (hlasts : k.isExpired now claims = false) : k.verifier now token =
      (UserId.parse claims.subject).mapError fun _ => .unknownUser := by
  unfold verifier
  rw [h]
  dsimp only
  rw [hlasts]
  cases UserId.parse claims.subject <;> rfl

theorem verifier_eq_ok : k.verifier now token = .ok u ↔ k.Names now token u.value.toNat := by
  unfold Names
  simp only [← UserId.parse_eq_ok]
  constructor
  · intro h
    unfold verifier at h
    cases hopen : SignedToken.open? k.secret token with
    | none =>
      rw [hopen] at h
      cases h
    | some opened =>
      obtain ⟨claims, audience⟩ := opened
      cases hlasts : k.isExpired now claims with
      | true => simp [hopen, hlasts] at h
      | false =>
        cases audience with
        | true => simp [hopen, hlasts] at h
        | false =>
          rw [← verifier, verifier_of_open hopen hlasts] at h
          exact ⟨claims, rfl, hlasts, mapError_eq_ok.mp h⟩
  · rintro ⟨claims, hopen, hlasts, hsubject⟩
    rw [verifier_of_open hopen hlasts]
    exact mapError_eq_ok.mpr hsubject

theorem Names.unique {m n : Nat} (hm : k.Names now token m) (hn : k.Names now token n) : m = n := by
  obtain ⟨claims, hopen, -, hsubject⟩ := hm
  obtain ⟨claims', hopen', -, hsubject'⟩ := hn
  rw [hopen] at hopen'
  cases hopen'
  exact hsubject.unique hsubject'

theorem verifier_of_zero (h : k.Names now token 0) : k.verifier now token = .error .unknownUser := by
  obtain ⟨claims, hopen, hlasts, hsubject⟩ := h
  rw [verifier_of_open hopen hlasts, UserId.parse_of_numeral (m := 0) hsubject]
  rfl

end SigningKey

end Auth

namespace Config

theorem toNat_ofNat_of_le {n : Nat} (h : n ≤ Toml.greatest) : (UInt64.ofNat n).toNat = n := by
  refine UInt64.toNat_ofNat_of_lt (Nat.lt_of_le_of_lt h ?_)
  decide

theorem validate_of_zero {c : Config} (h : ∃ e ∈ c.auth.tokens, e.2 = 0) :
    ∃ f, c.validate = .error f := by
  cases hvalid : c.validate with
  | error f => exact ⟨f, rfl⟩
  | ok _ =>
    obtain ⟨e, he, hzero⟩ := h
    refine absurd ?_ (ne_zero_of_checkToken ((validate_eq_ok.mp hvalid).tokens e he))
    rw [hzero]
    rfl

end Config

/-- The number of a token under a configuration: that of the table, or else what the key finds. -/
def AuthConfig.Names (a : AuthConfig) (now : UInt64) (token : String) (n : Nat) : Prop :=
  a.tokens.lookup token = some n ∨ a.tokens.lookup token = none ∧
    ∃ secret, a.secret? = some secret ∧
      (⟨Text.utf8 secret, UInt64.ofNat a.jwtLeewaySecs⟩ : Auth.SigningKey).Names now token n

theorem AuthConfig.Names.unique {a : AuthConfig} {now : UInt64} {token : String} {m n : Nat}
    (hm : a.Names now token m) (hn : a.Names now token n) : m = n := by
  rcases hm with hm | ⟨hmissing, secret, hsecret, hm⟩ <;>
    rcases hn with hn | ⟨hmissing', secret', hsecret', hn⟩
  · exact Option.some.inj (hm.symm.trans hn)
  · rw [hmissing'] at hm
    cases hm
  · rw [hmissing] at hn
    cases hn
  · rw [hsecret] at hsecret'
    cases hsecret'
    exact hm.unique hn

namespace Hub

variable {c : Config} {clock : UInt64} {h : Hub} {token : String} {u : UserId}

theorem verify_eq_ok (hprintable : c.Printable) (hc : ofConfig c clock = .ok h) :
    h.verify token = .ok u ↔ c.auth.Names clock token u.value.toNat := by
  have hauth : Config.PrintableAuth c.auth := (Config.printable_iff.mp hprintable).2.2
  have hdescribes := describes_of_ofConfig hc
  have hclock : h.clock = clock := by
    obtain ⟨verifier, channels, rfl⟩ := eq_start_of_ofConfig hc
    rfl
  unfold verify AuthConfig.Names
  rw [hclock]
  cases hlookup : c.auth.tokens.lookup token with
  | some n =>
    -- The number was written in a configuration, so that it does not wrap round on its way to a word.
    have hid := Config.toNat_ofNat_of_le (hauth.users _ (Named.mem_of_lookup hlookup))
    obtain ⟨v, hv, hvalue⟩ := hdescribes.fixed clock token (UInt64.ofNat n) (by rw [hid, hlookup])
    rw [hv]
    constructor
    · intro heq
      cases heq
      exact .inl (by rw [hvalue, hid])
    · rintro (heq | ⟨hnone, -⟩)
      · cases heq
        exact congrArg Except.ok (UserId.eq_of_value (hvalue.trans UInt64.ofNat_toNat))
      · cases hnone
  | none =>
    cases hsecret : c.auth.secret? with
    | some secret =>
      rw [hdescribes.signed clock token secret _ hlookup hsecret (Config.toNat_ofNat_of_le hauth.leeway),
        Auth.SigningKey.verifier_eq_ok]
      simp
    | none =>
      by_cases hempty : c.auth.tokens = []
      · rw [hdescribes.nobody clock token hsecret hempty]
        simp
      · rw [hdescribes.unknown clock token hlookup hsecret hempty]
        simp

end Hub

/-! ## Every way to an id -/

namespace UserId

inductive Origin
  | number (m : UInt64)
  | text (s : String)
  | json (s : String)
  | entry (entries : List (String × UInt64)) (now : UInt64) (token : String)
  | subject (k : Auth.SigningKey) (now : UInt64) (token : String)
  /-- A token that is shown to the hub of a configuration, as it is loaded from a file and from the
  environment. -/
  | configured (file : Option String) (o : Overrides) (clock : UInt64) (token : String)

namespace Origin

def user? : Origin → Option UserId
  | .number m => (ofUInt64 m).toOption
  | .text s => (parse s).toOption
  | .json s => (Json.decodeText decode s).toOption
  | .entry entries now token =>
    (Auth.TokenTable.ofEntries entries >>= fun t => t.verifier now token).toOption
  | .subject k now token => (k.verifier now token).toOption
  | .configured file o clock token =>
    (Config.load file o).toOption.bind fun c => (Hub.ofConfig c clock).toOption.bind fun h =>
      (h.verify token).toOption

def Tells : Origin → Nat → Prop
  | .number m, n => m.toNat = n
  | .text s, n => Denotes s n
  | .json s, n => ∃ w : WireInt, Json.Outline.ofString s = (.number (some (.integer w)), true) ∧
      w.value = n
  | .entry entries _ token, n =>
    (∀ e ∈ entries, e.2 ≠ 0) ∧ (entries.lookup token).map UInt64.toNat = some n
  | .subject k now token, n => k.Names now token n
  | .configured file o clock token, n =>
    ∃ c, Config.load file o = .ok c ∧ c.hub.commandBuffer ≤ longestQueue ∧ c.auth.Names clock token n

theorem exists_hub {file : Option String} {o : Overrides} {c : Config} (hl : Config.load file o = .ok c)
    (clock : UInt64) : (∃ h, Hub.ofConfig c clock = .ok h) ↔ c.hub.commandBuffer ≤ longestQueue := by
  obtain ⟨verifier, channels, heq⟩ := Hub.ofConfig_of_valid (Config.valid_of_load hl) clock
  rw [heq]
  by_cases hlong : longestQueue < c.hub.commandBuffer
  · rw [if_pos hlong]
    simpa using hlong
  · rw [if_neg hlong]
    simpa using hlong

variable {u : UserId}

theorem user?_configured {file : Option String} {o : Overrides} {clock : UInt64} {token : String} :
    (Origin.configured file o clock token).user? = some u ↔
      (Origin.configured file o clock token).Tells u.value.toNat := by
  simp only [user?, Tells, Option.bind_eq_some_iff, toOption_eq_some]
  constructor
  · rintro ⟨c, hl, h, hc, hverify⟩
    rw [Hub.verify_eq_ok (Config.printable_of_load hl) hc] at hverify
    exact ⟨c, hl, (exists_hub hl clock).mp ⟨h, hc⟩, hverify⟩
  · rintro ⟨c, hl, hqueue, htold⟩
    obtain ⟨h, hc⟩ := (exists_hub hl clock).mpr hqueue
    exact ⟨c, hl, h, hc, (Hub.verify_eq_ok (Config.printable_of_load hl) hc).mpr htold⟩

theorem user?_eq_some (o : Origin) : o.user? = some u ↔ o.Tells u.value.toNat := by
  cases o with
  | number m =>
    show (ofUInt64 m).toOption = _ ↔ m.toNat = _
    rw [toOption_eq_some, ofUInt64_eq_ok, ← UInt64.toNat_inj, eq_comm]
  | text s =>
    show (parse s).toOption = _ ↔ _
    rw [toOption_eq_some, parse_eq_ok]
    rfl
  | json s =>
    show (Json.decodeText decode s).toOption = _ ↔ _
    rw [toOption_eq_some, decodeText_eq_ok]
    rfl
  | entry entries now token =>
    show (Auth.TokenTable.ofEntries entries >>= fun t => t.verifier now token).toOption = _ ↔
      _ ∧ _ = _
    rw [toOption_eq_some, Auth.TokenTable.ofEntries_verifier_eq_ok]
    refine and_congr_right fun _ => ?_
    cases entries.lookup token <;> simp [UInt64.toNat_inj]
  | subject k now token =>
    show (k.verifier now token).toOption = _ ↔ _
    rw [toOption_eq_some, Auth.SigningKey.verifier_eq_ok]
    rfl
  | configured file o clock token => exact user?_configured

theorem tells_unique (o : Origin) {m n : Nat} (hm : o.Tells m) (hn : o.Tells n) : m = n := by
  cases o with
  | number => exact Eq.trans (Eq.symm hm) hn
  | text s => exact hm.unique hn
  | json s =>
    obtain ⟨w, heq, hvalue⟩ := hm
    obtain ⟨w', heq', hvalue'⟩ := hn
    rw [heq] at heq'
    cases heq'
    omega
  | entry entries now token => exact Option.some.inj (hm.2.symm.trans hn.2)
  | subject k now token => exact hm.unique hn
  | configured file o clock token =>
    obtain ⟨c, hload, -, hc⟩ := hm
    obtain ⟨c', hload', -, hc'⟩ := hn
    rw [hload] at hload'
    cases hload'
    exact AuthConfig.Names.unique hc hc'

end Origin

theorem exists_value_iff {found : UserId → Prop} {told : Nat → Prop}
    (h : ∀ u, found u ↔ told u.value.toNat) :
    (∃ u, found u ∧ u.value.toNat = n) ↔ told n ∧ 1 ≤ n ∧ n < UInt64.size := by
  constructor
  · rintro ⟨u, hu, rfl⟩
    have hnonzero : u.value.toNat ≠ 0 := fun hzero => u.nonzero (UInt64.toNat_inj.mp hzero)
    exact ⟨(h u).mp hu, Nat.one_le_iff_ne_zero.mpr hnonzero, u.value.toNat_lt⟩
  · rintro ⟨htold, hpos, hfits⟩
    have hvalue : (UInt64.ofNat n).toNat = n := UInt64.toNat_ofNat_of_lt hfits
    have hnonzero : UInt64.ofNat n ≠ 0 := fun hzero => by
      rw [hzero, UInt64.toNat_zero] at hvalue
      omega
    exact ⟨⟨UInt64.ofNat n, hnonzero⟩, (h _).mpr (hvalue.symm ▸ htold), hvalue⟩

/-- Each way to an id gives it the number that is found there. -/
structure Unambiguous : Prop where
  faithful : ∀ (o : Origin) (n : Nat), (∃ u, o.user? = some u ∧ u.value.toNat = n) ↔
    o.Tells n ∧ 1 ≤ n ∧ n < UInt64.size
  single : ∀ (o : Origin) (m n : Nat), o.Tells m → o.Tells n → m = n
  parsed : ∀ (s : String) (n : Nat), (∃ u, parse s = .ok u ∧ u.value.toNat = n) ↔
    Denotes s n ∧ 1 ≤ n ∧ n < UInt64.size
  /-- A text is refused in the name of zero if that is what it stands for, and else in its own. -/
  refused : ∀ (s : String) (e : InvalidUserId), parse s = .error e ↔
    (Denotes s 0 ∧ e.text = "0") ∨ ((∀ n < UInt64.size, ¬ Denotes s n) ∧ e.text = s)
  shown : ∀ u : UserId, parse u.display = .ok u
  written : ∀ u : UserId, Json.decodeText decode u.toJson.render = .ok u ∧
    Json.decodeValue decode u.toJson = .ok u
  zero : ofUInt64 0 = .error ⟨"0"⟩
  zeroJson : ∀ (s : String) (w : WireInt), (Json.Outline.ofString s).1 = .number (some (.integer w)) →
    w.value = 0 → Json.decodeText decode s = Json.fail (.refused (InvalidUserId.mk "0").message)
  zeroEntry : ∀ entries : List (String × UInt64), (∃ e ∈ entries, e.2 = 0) →
    Auth.TokenTable.ofEntries entries = .error .unknownUser
  zeroToken : ∀ c : Config, (∃ e ∈ c.auth.tokens, e.2 = 0) → ∃ f, c.validate = .error f
  zeroSubject : ∀ (k : Auth.SigningKey) (now : UInt64) (token : String), k.Names now token 0 →
    k.verifier now token = .error .unknownUser

theorem unambiguous : Unambiguous := by
  constructor
  case faithful => exact fun o n => exists_value_iff fun _ => o.user?_eq_some
  case single => exact fun o m n => o.tells_unique
  case parsed => exact fun s n => exists_value_iff fun _ => parse_eq_ok
  case refused => exact fun s e => parse_eq_error
  case shown => exact parse_display
  case written => exact fun u => ⟨Json.decodeText_render rfl u.decode_toJson, u.decode_toJson⟩
  case zero => rfl
  case zeroJson => exact fun s w => decodeText_of_zero
  case zeroEntry => exact fun entries => Auth.TokenTable.ofEntries_of_zero
  case zeroToken => exact fun c => Config.validate_of_zero
  case zeroSubject => exact fun k now token => Auth.SigningKey.verifier_of_zero

/-- Zeros in front do not count; the number after the greatest one is refused, not taken modulo. -/
example : (parse " +0042\n").toOption.map UserId.value = some 42 ∧
    parse "18446744073709551616" = .error ⟨"18446744073709551616"⟩ := by
  constructor <;> rfl

end UserId

end PushHub
