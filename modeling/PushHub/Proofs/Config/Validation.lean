import PushHub.Hub.Requests
import PushHub.Proofs.Attempts
import PushHub.Proofs.Identity

/-! What a configuration is known to be once it is accepted: the checks that it passes, and that there
is a verifier for it. -/
namespace PushHub

theorem Auth.TokenTable.exists_ofEntries {entries : List (String × UInt64)}
    (h : ∀ e ∈ entries, e.2 ≠ 0) : ∃ t, ofEntries entries = .ok t := by
  unfold ofEntries
  simp only [bind_eq_ok]
  refine (exists_mapM_eq_ok fun e he => ?_).elim fun es hes => ⟨⟨es⟩, es, hes, rfl⟩
  have hread : UserId.ofUInt64 e.2 = .ok ⟨e.2, h e he⟩ := UserId.ofUInt64_eq_ok.mpr rfl
  exact ⟨(e.1, ⟨e.2, h e he⟩), by rw [hread]⟩

namespace Config

variable {c : Config}

theorem ne_zero_of_checkToken {entry : String × Nat} (h : checkToken entry = .ok ()) :
    UInt64.ofNat entry.2 ≠ 0 := by
  intro hzero
  unfold checkToken at h
  rw [hzero] at h
  split at h <;> cases h

/-- What is asked of a configuration. -/
structure Valid (c : Config) : Prop where
  positive : ∀ p ∈ c.positives, p.2 ≠ 0
  pingPeriod : c.connection.pingPeriodSecs < c.connection.pongWaitSecs
  transportBytes : c.connection.maxMessageBytes ≤ c.connection.maxTransportBytes
  channels : ∃ names, c.channelNames = .ok names
  tokens : ∀ entry ∈ c.auth.tokens, checkToken entry = .ok ()

theorem validate_eq_ok : c.validate = .ok () ↔ c.Valid := by
  unfold validate
  rw [bind_eq_ok]
  simp only [check_eq_ok, bind_eq_ok, forM_eq_ok]
  constructor
  · rintro ⟨-, hpositive, hpings, hbytes, names, hnames, htokens⟩
    refine ⟨fun p hp hzero => ?_, Nat.lt_of_not_le hpings, Nat.le_of_not_lt hbytes,
      ⟨names, hnames⟩, htokens⟩
    have := hpositive p hp
    rw [if_pos hzero] at this
    cases this
  · rintro ⟨hpositive, hpings, hbytes, ⟨names, hnames⟩, htokens⟩
    exact ⟨(), fun p hp => if_neg (hpositive p hp), Nat.not_le_of_lt hpings,
      Nat.not_lt_of_le hbytes, names, hnames, htokens⟩

namespace Valid

variable (hv : c.Valid)
include hv

theorem commandBuffer_pos : 0 < c.hub.commandBuffer :=
  Nat.pos_of_ne_zero (hv.positive ("hub.command_buffer", _) (by simp [positives]))

theorem maxConnections_pos : 0 < c.hub.maxConnections :=
  Nat.pos_of_ne_zero (hv.positive ("hub.max_connections", _) (by simp [positives]))

theorem pingPeriodSecs_pos : 0 < c.connection.pingPeriodSecs :=
  Nat.pos_of_ne_zero (hv.positive ("connection.ping_period_secs", _) (by simp [positives]))

theorem exists_table : ∃ t, Auth.TokenTable.ofEntries
    (c.auth.tokens.map fun t => (t.1, UInt64.ofNat t.2)) = .ok t := by
  refine Auth.TokenTable.exists_ofEntries fun e he => ?_
  obtain ⟨entry, hentry, rfl⟩ := List.mem_map.mp he
  exact ne_zero_of_checkToken (hv.tokens entry hentry)

theorem exists_policy : ∃ verifier, Auth.policy c.auth = .ok verifier := by
  obtain ⟨t, ht⟩ := hv.exists_table
  unfold Auth.policy Auth.tables
  split
  · exact ⟨_, rfl⟩
  · simp only [bind_eq_ok]
    exact ⟨_, _, ⟨t, ht, rfl⟩, rfl⟩

end Valid

theorem valid_of_load {text : Option String} {o : Overrides} (hl : load text o = .ok c) :
    c.Valid := by
  unfold load at hl
  split at hl
  all_goals
    simp only [bind_eq_ok, mapError_eq_ok] at hl
    obtain ⟨_, _, d, _, _, hvalid, heq⟩ := hl
    cases heq
    exact validate_eq_ok.mp hvalid

end Config

namespace Hub

variable {c : Config} {clock : UInt64}

/-- There is a hub for a valid configuration unless the machine gives no queue of its length. -/
theorem ofConfig_of_valid (hv : c.Valid) (clock : UInt64) : ∃ verifier channels,
    ofConfig c clock =
      if longestQueue < c.hub.commandBuffer then .error (.queueTooLong c.hub.commandBuffer)
      else .ok (start c.connectionSettings c.registrySettings verifier channels clock) := by
  obtain ⟨verifier, hverifier⟩ := hv.exists_policy
  obtain ⟨channels, hchannels⟩ := hv.channels
  refine ⟨verifier, channels, ?_⟩
  have hcapacity : (start c.connectionSettings c.registrySettings verifier channels
      clock).service.capacity = c.hub.commandBuffer :=
    Nat.max_eq_left hv.commandBuffer_pos
  rw [← hcapacity]
  unfold ofConfig
  rw [hverifier, hchannels]
  rfl

theorem eq_start_of_ofConfig {h : Hub} (hc : ofConfig c clock = .ok h) :
    ∃ verifier channels, h = start c.connectionSettings c.registrySettings verifier channels clock := by
  unfold ofConfig at hc
  simp only [bind_eq_ok] at hc
  obtain ⟨verifier, _, channels, _, hqueue⟩ := hc
  split at hqueue
  · cases hqueue
  · cases hqueue
    exact ⟨verifier, channels, rfl⟩

end Hub

end PushHub
