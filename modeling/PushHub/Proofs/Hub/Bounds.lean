import PushHub.Proofs.Config.Validation
import PushHub.Proofs.Hub.Lasting
import PushHub.Proofs.Hub.Timers

/-! What a hub asks of the machine: queues of a certain length, and times of the monotonic clock. A
configuration that is accepted may ask for more than there is, and exactly three of its values decide
that. -/
namespace PushHub

open Registry (Service Mailroom Membership Ticker)

namespace Hub

/-- All that is asked of the machine is given, if the monotonic clock read `epoch` seconds when the
hub was started. -/
structure Fits (epoch : Nat) (h : Hub) : Prop where
  commands : h.service.capacity ≤ longestQueue
  mailboxes : ∀ n, (h.mailbox n).capacity ≤ longestQueue
  timers : ∀ s ∈ h.sessions, ∀ t ∈ s.timers, epoch + t / 1000 ≤ lastSecond

variable {start h : Hub} {ms : List Moment}

theorem Acts.service_capacity {a : Action} {h' : Hub} (ha : h.Acts a h') :
    h'.service.capacity = h.service.capacity := by
  cases ha with
  | served q rest hq =>
    show h.service.serve.capacity = h.service.capacity
    unfold Service.serve
    rw [hq]
  | worked i m s s' v hs hw => cases hw <;> rfl
  | _ => rfl

theorem Run.service_capacity (hr : Run start ms h) (hs : start.Fresh) :
    h.service.capacity = start.service.capacity := by
  induction hr with
  | nil => rfl
  | snoc hr ha ih => exact (acts_of_act (hr.ledger hs).running ha).service_capacity.trans ih

theorem Run.timer_le (hr : Run start ms h) (hs : start.Fresh) {s : Session} (hmem : s ∈ h.sessions)
    {t : Nat} (ht : t ∈ s.timers) :
    t ≤ h.now + max start.settings.pongWait (max start.settings.pingPeriod Outbound.minPeriod) := by
  obtain ⟨i, hi⟩ := List.mem_iff_getElem?.mp hmem
  have htimed := hr.timed hs hi
  unfold Session.timers at ht
  split at ht
  · rename_i c inbound outbound hphase
    rcases List.mem_append.mp ht with hd | hk
    · have := htimed.deadline c inbound outbound t hphase (Option.mem_toList.mp hd)
      omega
    · obtain ⟨k, hkeep, rfl⟩ := Option.map_eq_some_iff.mp (Option.mem_toList.mp hk)
      obtain ⟨hperiod, hnext⟩ := htimed.keepalive c inbound outbound k hphase hkeep
      omega
  · cases ht

/-- A hub never asks for more than there is while its longest timer is within bounds. -/
theorem Run.fits (hr : Run start ms h) (hs : start.Fresh) {epoch : Nat}
    (hcommands : start.service.capacity ≤ longestQueue)
    (hmailboxes : max start.settings.mailboxCapacity 1 ≤ longestQueue)
    (htimers : epoch + (h.now + max start.settings.pongWait
      (max start.settings.pingPeriod Outbound.minPeriod)) / 1000 ≤ lastSecond) : h.Fits epoch where
  commands := Nat.le_trans (Nat.le_of_eq (hr.service_capacity hs)) hcommands
  mailboxes n := Nat.le_trans (hr.capacity_le hs n) hmailboxes
  timers s hmem t ht := by
    have hle := Nat.div_le_div_right (hr.timer_le hs hmem ht) (c := 1000)
    exact Nat.le_trans (Nat.add_le_add_left hle epoch) htimers

/-! ## The first connection -/

def entrance : List Action :=
  [.register known ⟨.pipe (.create 1), {}⟩, .move (.admission 0), .move .serve, .move (.admission 0),
    .move (.admission 0)]

theorem entrance_runs (settings : ConnectionSettings) (registry : RegistrySettings)
    (verifier : Auth.Verifier) (channels : List ChannelName) (clock : UInt64)
    (hmax : 0 < registry.maxConnections) : ∃ ms h,
    (Hub.start settings registry verifier channels clock).trace entrance = some (ms, h) ∧
      h.now = 0 ∧ (h.mailbox 0).capacity = max settings.mailboxCapacity 1 ∧
      ∃ s ∈ h.sessions, settings.pongWait ∈ s.timers := by
  have hfull : ¬registry.maxConnections ≤ 0 := Nat.not_le_of_lt hmax
  have hroom : 0 < max registry.commandBuffer 1 := Nat.lt_of_lt_of_le Nat.one_pos (Nat.le_max_right _ _)
  simp [entrance, trace, act, move, register, Hub.start, Service.start, Admission.assign,
    Service.addEndpoint, Admission.step, hroom, Service.hasRoom, hfull, Service.enqueue,
    Service.serve, desk, surroundings, setSession, Membership.handle, Membership.register,
    Membership.empty, Membership.find?, Membership.insert, Service.collect, Admission.connected,
    Line.send, Wire.send, Pipe.send, Pipe.create, Line.countSend, mailbox, Mailroom.mailbox,
    Mailroom.get, Mailbox.create, Session.timers, Admission.loops, Inbound.deadline?]

end Hub

namespace Config

variable {c : Config} {last : Nat}

/-- There is a hub for a configuration, and it never asks for more than the machine gives, whenever it
is started, before the monotonic clock is past `last` seconds. -/
def Sound (c : Config) (last : Nat) : Prop :=
  ∀ clock, ∃ start, Hub.ofConfig c clock = .ok start ∧
    ∀ epoch ms h, Hub.Run start ms h → epoch + h.now / 1000 ≤ last → h.Fits epoch

/-- Of what an accepted configuration says, the two queues and the wait for a client have to be within
bounds; no check sees to that. -/
theorem sound_iff {text : Option String} {o : Overrides} (hl : load text o = .ok c) (last : Nat) :
    c.Sound last ↔ c.hub.commandBuffer ≤ longestQueue ∧ c.hub.mailboxCapacity ≤ longestQueue ∧
      last + c.connection.pongWaitSecs ≤ lastSecond := by
  have hv := valid_of_load hl
  constructor
  · intro hsound
    obtain ⟨start, hstart, hfits⟩ := hsound 0
    obtain ⟨verifier, channels, rfl⟩ := Hub.eq_start_of_ofConfig hstart
    obtain ⟨ms, h, htrace, hnow, hcapacity, s, hs, ht⟩ :=
      Hub.entrance_runs c.connectionSettings c.registrySettings verifier channels 0
        hv.maxConnections_pos
    have hr := Hub.run_of_trace htrace
    have hfit := hfits last ms h hr (by rw [hnow]; exact Nat.le_refl _)
    refine ⟨?_, ?_, ?_⟩
    · have hcommands := hfit.commands
      rw [hr.service_capacity ⟨_, _, _, _, _, rfl⟩] at hcommands
      exact Nat.le_trans (Nat.le_max_left _ 1) hcommands
    · have hmailbox := hfit.mailboxes 0
      rw [hcapacity] at hmailbox
      exact Nat.le_trans (Nat.le_max_left _ 1) hmailbox
    · have htimer := hfit.timers s hs _ ht
      rwa [show c.connectionSettings.pongWait / 1000 = c.connection.pongWaitSecs from
        Nat.mul_div_cancel_left _ (by decide)] at htimer
  · rintro ⟨hcommands, hmailboxes, hwait⟩ clock
    obtain ⟨verifier, channels, hof⟩ := Hub.ofConfig_of_valid hv clock
    rw [if_neg (Nat.not_lt_of_le hcommands)] at hof
    refine ⟨_, hof, fun epoch ms h hr hlast => hr.fits ⟨_, _, _, _, _, rfl⟩
      (Nat.max_le.mpr ⟨hcommands, by decide⟩) (Nat.max_le.mpr ⟨hmailboxes, by decide⟩) ?_⟩
    have hping := hv.pingPeriod
    show epoch + (h.now + max (1000 * c.connection.pongWaitSecs)
      (max (1000 * c.connection.pingPeriodSecs) 1)) / 1000 ≤ lastSecond
    omega

def modestText : String := "[hub]\nmailbox_capacity = 5\n"

def modest : Config := { hub := { mailboxCapacity := 5 } }

/-- A year after the machine was started the small mailbox and the default wait are still sound. -/
theorem sound_modest : load (some modestText) {} = .ok modest ∧ modest.Sound 31536000 := by
  have hl : load (some modestText) {} = .ok modest := toOption_eq_some.mp (by decide +kernel)
  exact ⟨hl, (sound_iff hl 31536000).mpr ⟨by decide, by decide, by decide⟩⟩

def greedyText : String := "[hub]\ncommand_buffer = 9223372036854775807\n"

def greedy : Config := { hub := { commandBuffer := 9223372036854775807 } }

theorem not_all_sound : ¬∀ (text : Option String) (o : Overrides) (c : Config) (last : Nat),
    load text o = .ok c → last ≤ lastSecond → c.Sound last := by
  intro hall
  have hl : load (some greedyText) {} = .ok greedy := toOption_eq_some.mp (by decide +kernel)
  obtain ⟨start, hstart, -⟩ := hall _ _ _ 0 hl (Nat.zero_le _) 0
  obtain ⟨verifier, channels, hof⟩ := Hub.ofConfig_of_valid (valid_of_load hl) 0
  rw [if_pos (show longestQueue < greedy.hub.commandBuffer by decide)] at hof
  cases hstart.symm.trans hof

end Config

end PushHub
