import PushHub.Proofs.Hub.Ledger

/-! How a connection stands with the registry in each phase of its session: whether it is an entry,
what is queued about it, and what has become of its mailbox. -/
namespace PushHub

open Registry (Handle Service Queued Command Membership Mailroom)

namespace Registry.Service

def asking (v : Service) : List Handle := v.queue.filterMap fun q =>
  match q.command with
  | .register c => some c
  | _ => none

def Listed (v : Service) (c : Handle) : Prop := c ∈ v.members.entries

def Asked (v : Service) (c : Handle) : Prop := c ∈ v.asking

/-- The removal of a connection is queued. -/
def Doomed (v : Service) (c : Handle) : Prop := ∃ q ∈ v.queue, q.command = .unregister c

def Signalled (v : Service) (c : Handle) : Prop :=
  (v.members.room.mailbox c.endpoint).signalled = true

def Abandoned (v : Service) (c : Handle) : Prop :=
  (v.members.room.mailbox c.endpoint).abandoned = true

variable {v : Service} {c : Handle}

theorem asking_enqueue (q : Command) (t : Option Nat) :
    (v.enqueue q t).asking = v.asking ++ match q with
      | .register d => [d]
      | _ => [] := by
  unfold asking enqueue
  rw [List.filterMap_append]
  cases q <;> rfl

@[simp] theorem asked_enqueue (q : Command) (t : Option Nat) :
    (v.enqueue q t).Asked c ↔ v.Asked c ∨ q = .register c := by
  unfold Asked
  rw [asking_enqueue, List.mem_append]
  cases q <;> simp [eq_comm]

@[simp] theorem doomed_enqueue (q : Command) (t : Option Nat) :
    (v.enqueue q t).Doomed c ↔ v.Doomed c ∨ q = .unregister c := by
  unfold Doomed enqueue
  simp only [List.mem_append, List.mem_singleton]
  constructor
  · rintro ⟨p, hp | rfl, hc⟩
    · exact .inl ⟨p, hp, hc⟩
    · exact .inr hc
  · rintro (⟨p, hp, hc⟩ | hc)
    · exact ⟨p, .inl hp, hc⟩
    · exact ⟨_, .inr rfl, hc⟩

@[simp] theorem listed_enqueue (q : Command) (t : Option Nat) :
    (v.enqueue q t).Listed c ↔ v.Listed c := .rfl

@[simp] theorem abandoned_enqueue (q : Command) (t : Option Nat) :
    (v.enqueue q t).Abandoned c ↔ v.Abandoned c := .rfl

@[simp] theorem listed_withRoom (f : Mailroom → Mailroom) :
    (v.withRoom f).Listed c ↔ v.Listed c := .rfl

@[simp] theorem asked_withRoom (f : Mailroom → Mailroom) :
    (v.withRoom f).Asked c ↔ v.Asked c := .rfl

@[simp] theorem doomed_withRoom (f : Mailroom → Mailroom) :
    (v.withRoom f).Doomed c ↔ v.Doomed c := .rfl

@[simp] theorem signalled_close :
    (v.withRoom fun room => room.close c.endpoint).Signalled c := by
  unfold Signalled withRoom
  dsimp only
  rw [Mailroom.mailbox_close_self]
  rfl

@[simp] theorem abandoned_close :
    (v.withRoom fun room => room.close c.endpoint).Abandoned c ↔ v.Abandoned c := by
  unfold Abandoned withRoom
  dsimp only
  rw [Mailroom.mailbox_close_self]
  rfl

@[simp] theorem signalled_abandon :
    (v.withRoom fun room => room.abandon c.endpoint).Signalled c ↔ v.Signalled c := by
  unfold Signalled withRoom
  dsimp only
  rw [Mailroom.mailbox_abandon_self]
  rfl

@[simp] theorem abandoned_abandon :
    (v.withRoom fun room => room.abandon c.endpoint).Abandoned c := by
  unfold Abandoned withRoom
  dsimp only
  rw [Mailroom.mailbox_abandon_self]
  rfl

end Registry.Service

def Inbound.Over : Inbound → Prop
  | .ended _ => True
  | _ => False

def Outbound.Over : Outbound → Prop
  | .ended _ => True
  | _ => False

def Outbound.Stopping : Outbound → Prop
  | .closing _ => True
  | .ended _ => True
  | _ => False

/-- How the connection of session `i` stands while the session is in a phase. -/
inductive Standing (v : Service) (i : Nat) (c : Handle) : Phase → Prop
  | fresh (ha : ¬v.Asked c) (hd : ¬v.Doomed c) (hr : v.replies.lookup i = none)
      (hl : ¬v.Listed c) (hs : ¬v.Signalled c) (hb : ¬v.Abandoned c) :
      Standing v i c (.registering c false)
  | waiting (ha : v.Asked c) (hd : ¬v.Doomed c) (hr : v.replies.lookup i = none)
      (hl : ¬v.Listed c) (hs : ¬v.Signalled c) (hb : ¬v.Abandoned c) :
      Standing v i c (.registering c true)
  | granted (ha : ¬v.Asked c) (r : Registry.Registration)
      (hr : v.replies.lookup i = some (.registered (.ok r)))
      (hl : v.Listed c ↔ ¬v.Signalled c) (hb : ¬v.Abandoned c) :
      Standing v i c (.registering c true)
  | denied (ha : ¬v.Asked c) (err : Registry.RegistryError)
      (hr : v.replies.lookup i = some (.registered (.error err))) (hl : ¬v.Listed c) :
      Standing v i c (.registering c true)
  | greeting (deadline : Nat) (ha : ¬v.Asked c) (hl : v.Listed c ↔ ¬v.Signalled c)
      (hb : ¬v.Abandoned c) : Standing v i c (.greeting c deadline)
  | withdrawing (err : TransportError) (ha : ¬v.Asked c) (hl : v.Listed c ↔ ¬v.Signalled c)
      (hb : ¬v.Abandoned c) : Standing v i c (.withdrawing c err)
  | rejecting (why : AdmitError) (deadline : Nat) (ha : ¬v.Asked c) (hl : ¬v.Listed c) :
      Standing v i c (.rejecting why deadline (some c.endpoint))
  | refused (why : AdmitError) (ha : ¬v.Asked c) (hl : v.Listed c → v.Doomed c) :
      Standing v i c (.refused why)
  | admitted (inbound : Inbound) (outbound : Outbound) (ha : ¬v.Asked c)
      (hl : ¬v.Signalled c → v.Listed c)
      (hi : inbound.Over → v.Signalled c ∧ (v.Listed c → v.Doomed c))
      (ho : outbound.Stopping → v.Signalled c) (hb : v.Abandoned c ↔ outbound.Over)
      (hx : inbound ≠ .absent ∧ outbound ≠ .absent) :
      Standing v i c (.admitted c inbound outbound)

/-! ## Steps of others -/

/-- What others may do to the standing of a connection. -/
structure Persists (v v' : Service) (i : Nat) (c : Handle) : Prop where
  listed : v'.Listed c → v.Listed c
  left : v.Listed c → ¬v'.Listed c → v'.Signalled c ∨ v'.Abandoned c
  signalled : v.Signalled c → v'.Signalled c
  cause : v'.Signalled c → v.Signalled c ∨ (¬v'.Listed c ∧ (v.Listed c ∨ v.Doomed c))
  abandoned : v'.Abandoned c ↔ v.Abandoned c
  asked : v'.Asked c ↔ v.Asked c
  doomed : v'.Doomed c → v.Doomed c
  still : v'.Listed c → v.Doomed c → v'.Doomed c
  reply : v'.replies.lookup i = v.replies.lookup i

namespace Persists

variable {v v' : Service} {i : Nat} {c : Handle}

theorem listed_iff (hp : Persists v v' i c) (hb : ¬v.Abandoned c)
    (hl : v.Listed c ↔ ¬v.Signalled c) : v'.Listed c ↔ ¬v'.Signalled c := by
  constructor
  · intro hl' hs'
    rcases hp.cause hs' with hs | ⟨hn, -⟩
    · exact hl.mp (hp.listed hl') hs
    · exact hn hl'
  · intro hs'
    by_contra hn
    rcases hp.left (hl.mpr fun hs => hs' (hp.signalled hs)) hn with hs | hb'
    · exact hs' hs
    · exact hb (hp.abandoned.mp hb')

theorem not_signalled (hp : Persists v v' i c) (hs : ¬v.Signalled c) (hl : ¬v.Listed c)
    (hd : ¬v.Doomed c) : ¬v'.Signalled c := by
  intro hs'
  rcases hp.cause hs' with h | ⟨-, h | h⟩
  · exact hs h
  · exact hl h
  · exact hd h

theorem of_same (he : v'.members.entries = v.members.entries)
    (hg : v'.members.room.get c.endpoint = v.members.room.get c.endpoint)
    (ha : v'.Asked c ↔ v.Asked c) (hd : v'.Doomed c ↔ v.Doomed c)
    (hr : v'.replies.lookup i = v.replies.lookup i) : Persists v v' i c := by
  have hlisted : v'.Listed c ↔ v.Listed c := by
    unfold Service.Listed
    rw [he]
  have hsig : v'.Signalled c ↔ v.Signalled c := by
    unfold Service.Signalled Mailroom.mailbox
    rw [hg]
  have hab : v'.Abandoned c ↔ v.Abandoned c := by
    unfold Service.Abandoned Mailroom.mailbox
    rw [hg]
  exact
    { listed := hlisted.mp
      left := fun hl hn => absurd (hlisted.mpr hl) hn
      signalled := hsig.mpr
      cause := fun hs => .inl (hsig.mp hs)
      abandoned := hab
      asked := ha
      doomed := hd.mp
      still := fun _ => hd.mpr
      reply := hr }

theorem of_more {extra : List Queued} (he : v'.members.entries = v.members.entries)
    (hg : v'.members.room.get c.endpoint = v.members.room.get c.endpoint)
    (hq : v'.queue = v.queue ++ extra) (hn : ∀ q ∈ extra, q.command.handle? ≠ some c)
    (hr : v'.replies.lookup i = v.replies.lookup i) : Persists v v' i c := by
  refine of_same he hg ?_ ?_ hr
  · unfold Service.Asked Service.asking
    rw [hq, List.filterMap_append, List.mem_append]
    refine or_iff_left fun hmem => ?_
    obtain ⟨q, hmem, hsome⟩ := List.mem_filterMap.mp hmem
    have hne := hn q hmem
    cases hcmd : q.command <;> simp_all [Command.handle?]
  · unfold Service.Doomed
    rw [hq]
    constructor
    · rintro ⟨q, hmem, hcmd⟩
      rcases List.mem_append.mp hmem with hmem | hmem
      · exact ⟨q, hmem, hcmd⟩
      · refine absurd ?_ (hn q hmem)
        rw [hcmd]
        rfl
    · rintro ⟨q, hmem, hcmd⟩
      exact ⟨q, List.mem_append_left _ hmem, hcmd⟩

theorem queued {q : Queued} (hm : v'.members = v.members) (hr : v'.replies = v.replies)
    (hq : v'.queue = v.queue ++ [q]) (hn : q.command.handle? = none) : Persists v v' i c := by
  refine of_more (by rw [hm]) (by rw [hm]) hq ?_ (by rw [hr])
  intro p hp
  rw [List.mem_singleton.mp hp, hn]
  nofun

theorem addEndpoint (n : Nat) (hc : c.endpoint < v.members.room.length) :
    Persists v (v.addEndpoint n).1 i c :=
  of_same rfl (Mailroom.get_append_of_lt _ hc) .rfl .rfl rfl

theorem confined {j : Nat} {o : Option Handle} (hj : i ≠ j)
    (ho : ∀ d, o = some d → c.endpoint ≠ d.endpoint) (hc : Confined j o v v') :
    Persists v v' i c := by
  obtain ⟨extra, hq, hown⟩ := hc.queue
  refine of_more hc.entries (hc.elsewhere c.endpoint ho) hq ?_ (hc.lookup i hj)
  intro q hmem heq
  obtain ⟨d, hd, hcmd⟩ := hown q hmem
  have hdc : d = c := by
    rcases hcmd with rfl | rfl
    · exact Option.some.inj heq
    · exact Option.some.inj heq
  exact ho d hd (congrArg Handle.endpoint hdc.symm)

end Persists

theorem Standing.persists {v v' : Service} {i : Nat} {c : Handle} {p : Phase}
    (hs : Standing v i c p) (hp : Persists v v' i c) : Standing v' i c p := by
  cases hs with
  | fresh ha hd hr hl hs hb =>
    exact .fresh (mt hp.asked.mp ha) (mt hp.doomed hd) (hp.reply.trans hr) (mt hp.listed hl)
      (hp.not_signalled hs hl hd) (mt hp.abandoned.mp hb)
  | waiting ha hd hr hl hs hb =>
    exact .waiting (hp.asked.mpr ha) (mt hp.doomed hd) (hp.reply.trans hr) (mt hp.listed hl)
      (hp.not_signalled hs hl hd) (mt hp.abandoned.mp hb)
  | granted ha r hr hl hb =>
    exact .granted (mt hp.asked.mp ha) r (hp.reply.trans hr) (hp.listed_iff hb hl)
      (mt hp.abandoned.mp hb)
  | denied ha err hr hl =>
    exact .denied (mt hp.asked.mp ha) err (hp.reply.trans hr) (mt hp.listed hl)
  | greeting deadline ha hl hb =>
    exact .greeting deadline (mt hp.asked.mp ha) (hp.listed_iff hb hl) (mt hp.abandoned.mp hb)
  | withdrawing err ha hl hb =>
    exact .withdrawing err (mt hp.asked.mp ha) (hp.listed_iff hb hl) (mt hp.abandoned.mp hb)
  | rejecting why deadline ha hl =>
    exact .rejecting why deadline (mt hp.asked.mp ha) (mt hp.listed hl)
  | refused why ha hl =>
    exact .refused why (mt hp.asked.mp ha) fun hl' => hp.still hl' (hl (hp.listed hl'))
  | admitted inbound outbound ha hl hi ho hb hx =>
    refine .admitted inbound outbound (mt hp.asked.mp ha) ?_ ?_ (fun h => hp.signalled (ho h))
      (hp.abandoned.trans hb) hx
    · intro hs'
      -- Others take an entry only with a close signal, or when its receiver is gone. But a loop that is
      -- over was signalled before.
      by_contra hn
      rcases hp.left (hl fun hs => hs' (hp.signalled hs)) hn with hs | hb'
      · exact hs' hs
      · have hover : outbound.Over := hb.mp (hp.abandoned.mp hb')
        have hstop : outbound.Stopping := by
          cases outbound with
          | ended exit => trivial
          | _ => cases hover
        exact hs' (hp.signalled (ho hstop))
    · intro hover
      obtain ⟨hs, hd⟩ := hi hover
      exact ⟨hp.signalled hs, fun hl' => hp.still hl' (hd (hp.listed hl'))⟩

/-! ## Steps of the registry -/

namespace Registry.Service

variable {v : Service} {q : Queued} {rest : List Queued}

theorem asking_serve (hq : v.queue = q :: rest) :
    v.asking = (match q.command with
      | .register d => [d]
      | _ => []) ++ v.serve.asking := by
  unfold asking
  rw [queue_serve hq, hq]
  cases hc : q.command <;> simp [hc]

theorem lookup_replies_serve (hq : v.queue = q :: rest) {i : Nat} (hi : q.ticket ≠ some i) :
    v.serve.replies.lookup i = v.replies.lookup i := by
  unfold serve
  rw [hq]
  dsimp only
  split
  · rename_i t r ht hr
    have hne : (i == t) = false := by
      simp only [beq_eq_false_iff_ne]
      rintro rfl
      exact hi ht
    rw [List.lookup_append, List.lookup_cons, hne]
    simp
  · rfl

theorem lookup_replies_serve_self (hq : v.queue = q :: rest) {i : Nat} {r : Registry.Reply}
    (hi : q.ticket = some i) (hr : (v.members.handle q.command).reply = some r)
    (hnone : v.replies.lookup i = none) : v.serve.replies.lookup i = some r := by
  unfold serve
  rw [hq]
  dsimp only
  rw [hi, hr]
  dsimp only
  rw [List.lookup_append, hnone, List.lookup_cons]
  simp

end Registry.Service

section

variable {conns : List (Nat × Handle)} {h : Hub} {i : Nat} {c : Handle} {q : Queued}
  {rest : List Queued}

/-- The registry spares every connection but the one it registers. -/
theorem Persists.served (hl : Ledger conns h) (hn : conns.length ≤ UInt64.size) (hc : (i, c) ∈ conns)
    (hq : h.service.queue = q :: rest) (hne : q.command ≠ .register c) :
    Persists h.service h.service.serve i c := by
  have hmem : q ∈ h.service.queue := hq ▸ List.mem_cons_self
  have hsp := Membership.handle_spares hl.proper (hl.tells hn hmem) (hl.apart hc hmem) hne
  rw [← Service.members_serve hq] at hsp
  have hasked : h.service.serve.Asked c ↔ h.service.Asked c := by
    unfold Service.Asked
    rw [Service.asking_serve hq, List.mem_append]
    constructor
    · exact .inr
    · rintro (hd | hd)
      · split at hd
        · rename_i d hcmd
          rw [List.mem_singleton.mp hd] at hne
          exact absurd hcmd hne
        · cases hd
      · exact hd
  -- A reply goes to the session whose connection is registered, which is not this one.
  have hreply : q.ticket ≠ some i := by
    intro ht
    obtain ⟨d, hd, hcmd⟩ := (hl.queued q hmem).owner ht
    rw [hl.eq_of_session hd hc] at hcmd
    exact hne hcmd
  exact
    { listed := hsp.listed
      left := fun hin hout => by
        have := hsp.left hin hout
        unfold Membership.isClosed Mailbox.isClosed at this
        rwa [Bool.or_eq_true] at this
      signalled := hsp.signalled
      cause := fun hs => by
        rcases hsp.cause hs with hs | ⟨hout, hin | hcmd⟩
        · exact .inl hs
        · exact .inr ⟨hout, .inl hin⟩
        · exact .inr ⟨hout, .inr ⟨q, hmem, hcmd⟩⟩
      abandoned := iff_of_eq (congrArg (· = true) hsp.abandoned)
      asked := hasked
      doomed := fun ⟨p, hp, hcmd⟩ => by
        rw [Service.queue_serve hq] at hp
        exact ⟨p, hq ▸ List.mem_cons_of_mem q hp, hcmd⟩
      still := fun hin ⟨p, hp, hcmd⟩ => by
        rw [hq] at hp
        rcases List.mem_cons.mp hp with rfl | hp
        · unfold Service.Listed at hin
          rw [Service.members_serve hq, hcmd] at hin
          exact absurd hin (Membership.not_mem_unregister hl.keyed c)
        · exact ⟨p, Service.queue_serve hq ▸ hp, hcmd⟩
      reply := Service.lookup_replies_serve hq hreply }

theorem Standing.answered {p : Phase} (hl : Ledger conns h) (hn : conns.length ≤ UInt64.size)
    (hc : (i, c) ∈ conns) (hq : h.service.queue = q :: rest) (hnd : h.service.asking.Nodup)
    (hcmd : q.command = .register c) (hs : Standing h.service i c p) :
    Standing h.service.serve i c p := by
  have hmem : q ∈ h.service.queue := hq ▸ List.mem_cons_self
  have hasking := Service.asking_serve hq
  rw [hcmd] at hasking
  have hin : h.service.Asked c := by
    unfold Service.Asked
    rw [hasking]
    exact List.mem_cons_self
  have hout : ¬h.service.serve.Asked c := by
    rw [hasking] at hnd
    exact (List.nodup_cons.mp hnd).1
  have hticket : q.ticket = some i := by
    rcases hl.queued q hmem with ⟨j, d, hd, d', heq, rfl | rfl⟩ | ⟨hnone, -⟩
    · cases heq
      cases hcmd
      exact congrArg some (hl.eq_of_endpoint hd hc rfl).1
    · cases hcmd
    · rw [hcmd] at hnone
      cases hnone
  have htells := hl.tells hn hmem
  have happart := hl.apart hc hmem
  have hmembers := Service.members_serve hq
  have habandoned := (h.service.members.extends_handle q.command c.endpoint).abandoned
  have hreply := fun r hr => Service.lookup_replies_serve_self (r := r) hq hticket hr
  rw [hcmd] at htells happart hmembers habandoned hreply
  -- Only a session that waits has its registration queued.
  cases hs with
  | waiting ha hd hr hlisted hsig hb =>
    have hb' : ¬h.service.serve.Abandoned c := by
      unfold Service.Abandoned
      rw [hmembers, habandoned]
      exact hb
    rcases Membership.answer_register htells happart hlisted hsig with
      ⟨r, hanswer, hentry, hopen⟩ | ⟨err, hanswer, hnone⟩
    · have hsig' : ¬h.service.serve.Signalled c := by
        unfold Service.Signalled
        rw [hmembers]
        exact hopen
      refine .granted hout r (hreply _ hanswer hr) ⟨fun _ => hsig', fun _ => ?_⟩ hb'
      unfold Service.Listed
      rw [hmembers]
      exact hentry
    · refine .denied hout err (hreply _ hanswer hr) ?_
      unfold Service.Listed
      rw [hmembers]
      exact hnone
  | fresh ha => exact absurd hin ha
  | granted ha => exact absurd hin ha
  | denied ha => exact absurd hin ha
  | greeting deadline ha => exact absurd hin ha
  | withdrawing err ha => exact absurd hin ha
  | rejecting why deadline ha => exact absurd hin ha
  | refused why ha => exact absurd hin ha
  | admitted inbound outbound ha => exact absurd hin ha

end

/-! ## Steps of its own -/

section

variable {v : Service} {i : Nat} {c h : Handle} {inbound inbound' : Inbound}
  {outbound outbound' : Outbound}

theorem Standing.eq_of_admitted (hs : Standing v i c (.admitted h inbound outbound)) : h = c := by
  cases hs
  rfl

theorem Standing.closes (hs : Standing v i c (.admitted c inbound outbound))
    (hover : outbound'.Over ↔ outbound.Over) (habsent : outbound' ≠ .absent) :
    Standing (v.withRoom fun room => room.close c.endpoint) i c
      (.admitted c inbound outbound') := by
  cases hs with
  | admitted _ _ ha hl hi ho hb hx =>
    refine .admitted inbound _ ha ?_ ?_ ?_ ?_ ⟨hx.1, habsent⟩
    · intro hs
      exact absurd Service.signalled_close hs
    · intro hend
      exact ⟨Service.signalled_close, (hi hend).2⟩
    · intro _
      exact Service.signalled_close
    · exact (Service.abandoned_close.trans hb).trans hover.symm

theorem Standing.hears (hs : Standing v i c (.admitted c inbound outbound))
    (reactions : List Reaction) (hruns : ¬inbound'.Over) (habsent : inbound' ≠ .absent) :
    Standing (v.withRoom fun room => reactions.foldl (Inbound.perform c.endpoint) room) i c
      (.admitted c inbound' outbound) := by
  cases hs with
  | admitted _ _ ha hl hi ho hb hx =>
    have he := Inbound.extends_perform reactions v.members.room c.endpoint c.endpoint
    refine .admitted _ _ ha (fun hs' => hl fun hs => hs' (he.signalled hs))
      (fun hover => absurd hover hruns) (fun h => he.signalled (ho h)) ?_ ⟨habsent, hx.2⟩
    rw [← hb]
    unfold Service.Abandoned
    exact iff_of_eq (congrArg (· = true) he.abandoned)

theorem Standing.unregisters (hs : Standing v i c (.admitted c inbound outbound))
    (habsent : inbound' ≠ .absent) :
    Standing ((v.enqueue (.unregister c) none).withRoom fun room => room.close c.endpoint) i c
      (.admitted c inbound' outbound) := by
  cases hs with
  | admitted _ _ ha hl hi ho hb hx =>
    refine .admitted _ _ (by simpa using ha) ?_ ?_ ?_ (by simpa using hb) ⟨habsent, hx.2⟩
    · intro hs'
      exact absurd Service.signalled_close hs'
    · intro _
      exact ⟨Service.signalled_close, fun _ => by simp⟩
    · intro _
      exact Service.signalled_close

theorem Standing.takes {rest : List Frame} (hs : Standing v i c (.admitted c inbound outbound))
    (hsig : ¬v.Signalled c) (hover : outbound'.Over ↔ outbound.Over)
    (hruns : ¬outbound'.Stopping) (habsent : outbound' ≠ .absent)
    (hc : c.endpoint < v.members.room.length) :
    Standing (v.withRoom fun room =>
        room.setMailbox c.endpoint { v.members.room.mailbox c.endpoint with queue := rest }) i c
      (.admitted c inbound outbound') := by
  cases hs with
  | admitted _ _ ha hl hi ho hb hx =>
    refine .admitted inbound _ ha (fun _ => hl hsig) ?_ (fun hstop => absurd hstop hruns) ?_
      ⟨hx.1, habsent⟩
    · intro hend
      exact absurd (hi hend).1 hsig
    · rw [hover, ← hb]
      unfold Service.Abandoned
      rw [Service.mailbox_setMailbox hc]

theorem Standing.abandons (hs : Standing v i c (.admitted c inbound outbound))
    (hstop : outbound.Stopping) (hover : outbound'.Over) (habsent : outbound' ≠ .absent) :
    Standing (v.withRoom fun room => room.abandon c.endpoint) i c
      (.admitted c inbound outbound') := by
  cases hs with
  | admitted _ _ ha hl hi ho hb hx =>
    have hsig : v.Signalled c := ho hstop
    refine .admitted inbound _ ha ?_ ?_ ?_ ?_ ⟨hx.1, habsent⟩
    · intro hs'
      exact absurd (Service.signalled_abandon.mpr hsig) hs'
    · intro hend
      exact ⟨Service.signalled_abandon.mpr hsig, (hi hend).2⟩
    · intro _
      exact Service.signalled_abandon.mpr hsig
    · exact ⟨fun _ => hover, fun _ => Service.abandoned_abandon⟩

end

theorem Standing.works {v v' : Service} {i : Nat} {c : Handle} {s s' : Session} {m : Move}
    (hs : Standing v i c s.phase) (hw : s.Works i v m v' s')
    (hc : c.endpoint < v.members.room.length) : Standing v' i c s'.phase := by
  cases hw with
  | prompted => cases hs
  | unprompted => cases hs
  | ignored => cases hs
  | unproved => cases hs
  | asked line h =>
    cases hs with
    | fresh ha hd hr hl hs hb => exact .waiting (by simp) (by simpa using hd) hr hl hs hb
  | granted line h r deadline hr =>
    cases hs with
    | waiting ha hd hr' hl hs hb =>
      rw [hr'] at hr
      cases hr
    | granted ha r' hr' hl hb => exact .greeting deadline ha hl hb
    | denied ha err hr' hl =>
      rw [hr'] at hr
      cases hr
  | denied line h err deadline hr =>
    cases hs with
    | waiting ha hd hr' hl hs hb =>
      rw [hr'] at hr
      cases hr
    | granted ha r' hr' hl hb =>
      rw [hr'] at hr
      cases hr
    | denied ha err' hr' hl => exact .rejecting _ deadline ha hl
  | refused => cases hs
  | released line line' why deadline n =>
    cases hs with
    | rejecting why deadline ha hl => exact .refused why ha fun hl' => absurd hl' hl
  | greeted line line' h deadline =>
    cases hs with
    | greeting deadline ha hl hb =>
      refine .admitted _ _ ha hl.mpr nofun nofun ?_ ⟨nofun, nofun⟩
      exact ⟨fun hb' => absurd hb' hb, nofun⟩
  | ungreeted line line' h deadline err =>
    cases hs with
    | greeting deadline ha hl hb => exact .withdrawing err ha hl hb
  | withdrawn line line' h err =>
    cases hs with
    | withdrawing err ha hl hb => exact .refused _ (by simpa using ha) (by simp)
  | left line line' h =>
    cases hs with
    | admitted inbound outbound ha hl hi ho hb hx =>
      exact .admitted _ _ ha hl nofun ho hb ⟨nofun, hx.2⟩
  | heard line line' h deadline deadline' followed followed' reactions =>
    obtain rfl := hs.eq_of_admitted
    exact hs.hears reactions nofun nofun
  | unregistered line line' h =>
    obtain rfl := hs.eq_of_admitted
    exact hs.unregisters nofun
  | took line h inbound keepalive f rest deadline hsig hq =>
    obtain rfl := hs.eq_of_admitted
    have hopen : ¬v.Signalled h := by
      unfold Service.Signalled
      rw [hsig]
      simp
    exact hs.takes hopen .rfl nofun nofun hc
  | stopped line h inbound keepalive exit hsig =>
    obtain rfl := hs.eq_of_admitted
    exact hs.closes .rfl nofun
  | pinging line h inbound =>
    cases hs with
    | admitted inbound outbound ha hl hi ho hb hx =>
      exact .admitted inbound _ ha hl hi nofun hb ⟨hx.1, nofun⟩
  | sent line line' h inbound =>
    cases hs with
    | admitted inbound outbound ha hl hi ho hb hx =>
      exact .admitted inbound _ ha hl hi nofun hb ⟨hx.1, nofun⟩
  | cut line line' h inbound =>
    obtain rfl := hs.eq_of_admitted
    exact hs.closes .rfl nofun
  | closed line line' h inbound exit =>
    obtain rfl := hs.eq_of_admitted
    exact hs.abandons trivial trivial nofun

theorem Session.Works.asking {v v' : Service} {i : Nat} {s s' : Session} {m : Move}
    (hw : s.Works i v m v' s') :
    v'.asking = v.asking ∨
      ∃ c, s.phase = .registering c false ∧ v'.asking = v.asking ++ [c] := by
  cases hw with
  | asked line c => exact .inr ⟨c, rfl, Service.asking_enqueue _ _⟩
  | withdrawn =>
    refine .inl ?_
    exact (Service.asking_enqueue _ _).trans (List.append_nil _)
  | unregistered =>
    refine .inl ?_
    exact (Service.asking_enqueue _ _).trans (List.append_nil _)
  | _ => exact .inl rfl

/-! ## Every connection at once -/

/-- Every connection stands as the phase of its session says. -/
structure Situated (conns : List (Nat × Handle)) (h : Hub) : Prop where
  standing : ∀ i c, (i, c) ∈ conns →
    ∃ s, h.sessions[i]? = some s ∧ Standing h.service i c s.phase
  asking : h.service.asking.Nodup

namespace Situated

variable {conns : List (Nat × Handle)} {h h' : Hub}

theorem persists (hs : Situated conns h)
    (hp : ∀ i c, (i, c) ∈ conns → Persists h.service h'.service i c)
    (hphase : ∀ (i : Nat) (s : Session), h.sessions[i]? = some s →
      ∃ s', h'.sessions[i]? = some s' ∧ s'.phase = s.phase)
    (ha : h'.service.asking.Nodup) : Situated conns h' where
  standing i c hc := by
    obtain ⟨s, hsi, hst⟩ := hs.standing i c hc
    obtain ⟨s', hsi', heq⟩ := hphase i s hsi
    refine ⟨s', hsi', ?_⟩
    rw [heq]
    exact hst.persists (hp i c hc)
  asking := ha

theorem served (hs : Situated conns h) (hl : Ledger conns h) (hn : conns.length ≤ UInt64.size)
    {q : Queued} {rest : List Queued} (hq : h.service.queue = q :: rest) :
    Situated conns { h with service := h.service.serve } where
  standing i c hc := by
    obtain ⟨s, hsi, hst⟩ := hs.standing i c hc
    refine ⟨s, hsi, ?_⟩
    by_cases hcmd : q.command = .register c
    · exact hst.answered hl hn hc hq hs.asking hcmd
    · exact hst.persists (.served hl hn hc hq hcmd)
  asking := by
    have := hs.asking
    rw [Service.asking_serve hq, List.nodup_append] at this
    exact this.2.1

theorem worked (hs : Situated conns h) (hl : Ledger conns h) {i : Nat} {m : Move}
    {s s' : Session} {v : Service} (hi : h.sessions[i]? = some s)
    (hw : s.Works i h.service m v s') :
    Situated conns ({ h with service := v }.setSession i s') where
  standing j c hc := by
    obtain ⟨t, ht, hst⟩ := hs.standing j c hc
    have hget := Hub.getElem?_setSession { h with service := v } s' hi j
    by_cases hj : j = i
    · subst hj
      rw [hi] at ht
      cases ht
      exact ⟨s', hget.trans (if_pos rfl), hst.works hw (hl.lt_length hc)⟩
    · refine ⟨t, (hget.trans (if_neg hj)).trans ht, hst.persists ?_⟩
      exact .confined hj (fun d => hl.endpoint_ne hc (Ne.symm hj)) (hw.confined (hl.fits i s hi))
  asking := by
    show v.asking.Nodup
    rcases hw.asking with heq | ⟨c, hphase, heq⟩
    · rw [heq]
      exact hs.asking
    · have hfit := hl.fits i s hi
      rw [hphase] at hfit
      obtain ⟨t, ht, hst⟩ := hs.standing i c (hl.lookup_eq_some.mp hfit)
      rw [hi] at ht
      cases ht
      rw [hphase] at hst
      rw [heq, List.nodup_append]
      refine ⟨hs.asking, by simp, ?_⟩
      intro a ha b hb hab
      rw [List.mem_singleton.mp hb] at hab
      cases hst with
      | fresh hnot => exact hnot (hab ▸ ha)

theorem fresh (hl : Ledger conns h) {i : Nat} (u : UserId) (hi : conns.lookup i = none) :
    Standing h.allot.service i (h.next u) (.registering (h.next u) false) := by
  have hunknown (j : Nat) : (j, h.next u) ∉ conns := by
    intro hc
    exact Nat.lt_irrefl _ (hl.lt_length hc)
  have hmailbox : h.allot.service.members.room.mailbox (h.next u).endpoint =
      .create h.settings.mailboxCapacity := by
    show (Registry.Mailroom.get (h.service.members.room ++ [_]) h.service.members.room.length).mailbox
      = _
    rw [Mailroom.get_append_length]
  refine .fresh ?_ ?_ ?_ ?_ ?_ ?_
  · intro ha
    obtain ⟨q, hq, hsome⟩ := List.mem_filterMap.mp ha
    have hh : q.command.handle? = some (h.next u) := by
      cases hcmd : q.command <;> simp_all [Command.handle?]
    obtain ⟨j, hj⟩ := (hl.queued q hq).known hh
    exact hunknown j hj
  · rintro ⟨q, hq, hcmd⟩
    obtain ⟨j, hj⟩ := (hl.queued q hq).known (by rw [hcmd]; rfl)
    exact hunknown j hj
  · show h.service.replies.lookup i = none
    cases hr : h.service.replies.lookup i with
    | none => rfl
    | some r =>
      obtain ⟨before, after, heq, -⟩ := List.lookup_eq_some_iff.mp hr
      obtain ⟨c, hc⟩ := hl.replied (i, r) (by rw [heq]; simp)
      exact absurd hc (hl.not_mem hi)
  · intro hin
    obtain ⟨j, hj⟩ := hl.listed _ hin
    exact hunknown j hj
  · unfold Service.Signalled
    rw [hmailbox]
    simp [Mailbox.create]
  · unfold Service.Abandoned
    rw [hmailbox]
    simp [Mailbox.create]

theorem allotted (hs : Situated conns h) (hl : Ledger conns h) {i : Nat} {line : Line}
    (u : UserId) {sessions : List Session} (hi : conns.lookup i = none)
    (hself : sessions[i]? = some ⟨line, .registering (h.next u) false⟩)
    (hother : ∀ j : Nat, j ≠ i → sessions[j]? = h.sessions[j]?) :
    Situated (conns ++ [(i, h.next u)]) { h.allot with sessions := sessions } where
  standing j c hc := by
    rcases List.mem_append.mp hc with hold | hnew
    · have hj : j ≠ i := by
        intro heq
        exact hl.not_mem hi (heq ▸ hold)
      obtain ⟨s, hsj, hst⟩ := hs.standing j c hold
      exact ⟨s, (hother j hj).trans hsj, hst.persists (.addEndpoint _ (hl.lt_length hold))⟩
    · cases List.mem_singleton.mp hnew
      exact ⟨_, hself, fresh hl u hi⟩
  asking := hs.asking

end Situated

end PushHub
