import PushHub.Proofs.Hub.Credential

/-! Registrations. The registry handles each of them at one moment only, whoever is an entry was
admitted at one, and a session that was admitted is not refused any more but for a greeting that
does not get through. -/
namespace PushHub

open Registry (Handle Service Queued Command Membership)

namespace Registry

def Command.registers? : Command → Option Handle
  | .register c => some c
  | _ => none

theorem Service.asking_eq (v : Service) :
    v.asking = v.queue.filterMap fun q => q.command.registers? :=
  List.filterMap_congr fun q _ => by cases hq : q.command <;> rfl

end Registry

namespace Hub

def Moment.serves? (t : Moment) : Option Queued :=
  match t.action with
  | .move .serve => t.before.service.queue.head?
  | _ => none

theorem Moment.serves?_eq_some {t : Moment} {q : Queued} :
    t.serves? = some q ↔ t.action = .move .serve ∧ ∃ rest, t.before.service.queue = q :: rest := by
  rw [← List.head?_eq_some_iff]
  unfold Moment.serves?
  split
  · rename_i ha
    simp [ha]
  · rename_i hne
    exact ⟨nofun, fun h => absurd h.1 hne⟩

theorem after_of_serves {t : Moment} {q : Queued} (ha : t.before.act t.action = some t.after)
    (hq : t.serves? = some q) : ∃ rest, t.before.service.queue = q :: rest ∧
      t.after = { t.before with service := t.before.service.serve } := by
  obtain ⟨haction, rest, hqueue⟩ := Moment.serves?_eq_some.mp hq
  refine ⟨rest, hqueue, ?_⟩
  rw [haction] at ha
  simp only [act, move, hqueue, List.isEmpty_cons, Bool.false_eq_true, if_false] at ha
  exact (Option.some.inj ha).symm

theorem Acts.entries_of_idle {h h' : Hub} {a : Action} (ha : h.Acts a h')
    (hq : Moment.serves? ⟨h, a, h'⟩ = none) :
    h'.service.members.entries = h.service.members.entries := by
  cases ha with
  | served q rest hqueue => simp [Moment.serves?, hqueue] at hq
  | worked i m s s' v hi hw => cases hw <;> rfl
  | _ => rfl

theorem Moment.registers?_eq (t : Moment) :
    t.registers? = t.serves?.bind fun q => q.command.registers? := by
  obtain ⟨h, a, h'⟩ := t
  cases a with
  | move m =>
    cases m with
    | serve =>
      refine congrArg (h.service.queue.head?.bind ·) (funext fun q => ?_)
      cases q.command <;> rfl
    | _ => rfl
  | _ => rfl

theorem Moment.registers?_of_serves {t : Moment} {q : Queued} (hq : t.serves? = some q) :
    t.registers? = q.command.registers? := by
  rw [t.registers?_eq, hq, Option.bind_some]

def registrations (ms : List Moment) : List Handle := ms.filterMap Moment.registers?

theorem Moment.Grants.serves? {t : Moment} {i : Nat} {c : Handle} (hg : t.Grants i c) :
    t.serves? = some ⟨.register c, some i⟩ := by
  unfold Moment.serves?
  rw [hg.serves]
  exact hg.asked

theorem Moment.Grants.registers? {t : Moment} {i : Nat} {c : Handle} (hg : t.Grants i c) :
    t.registers? = some c :=
  Moment.registers?_of_serves hg.serves?

theorem Run.connection_of_served {start h : Hub} {ms : List Moment} {t : Moment} {i : Nat}
    {c : Handle} (hr : Run start ms h) (hs : start.Fresh) (ht : t ∈ ms)
    (hc : t.serves? = some ⟨.register c, some i⟩) : (i, c) ∈ connections ms := by
  obtain ⟨before, after, rfl⟩ := List.append_of_mem ht
  obtain ⟨-, rest, hqueue⟩ := Moment.serves?_eq_some.mp hc
  have hqueued : (⟨.register c, some i⟩ : Queued) ∈ t.before.service.queue :=
    hqueue ▸ List.mem_cons_self
  obtain ⟨d, hd, hcommand⟩ := ((hr.split.1.ledger hs).queued _ hqueued).owner rfl
  cases hcommand
  exact mem_connections_append hd (t :: after)

theorem registers?_of_part {h h' : Hub} {i : Nat} {m : Move} (hm : m.session? = some i) :
    Moment.registers? ⟨h, .move m, h'⟩ = none := by
  cases m with
  | serve => cases hm
  | _ => rfl

end Hub

/-! ## Registered once -/

/-- Whoever is or was registered, at the latest once what is queued is handled, does not ask again. -/
structure Once (conns : List (Nat × Handle)) (done : List Handle) (h : Hub) : Prop where
  nodup : (done ++ h.service.asking).Nodup
  known : ∀ c ∈ done ++ h.service.asking, ∃ i, (i, c) ∈ conns
  spent : ∀ i c, (i, c) ∈ conns → c ∈ done ++ h.service.asking →
    ∀ s, h.sessions[i]? = some s → s.phase ≠ .registering c false

namespace Once

variable {conns : List (Nat × Handle)} {done done' : List Handle} {h h' : Hub} {i : Nat}

theorem of_same (ho : Once conns done h)
    (hlist : done' ++ h'.service.asking = done ++ h.service.asking)
    (hphase : ∀ (j : Nat) (s' : Session) c, h'.sessions[j]? = some s' →
      s'.phase = .registering c false →
      ∃ s, h.sessions[j]? = some s ∧ s.phase = .registering c false) : Once conns done' h' where
  nodup := hlist ▸ ho.nodup
  known := hlist ▸ ho.known
  spent j c hc hmem s' hj hp := by
    obtain ⟨s, hi, hp'⟩ := hphase j s' c hj hp
    exact ho.spent j c hc (hlist ▸ hmem) s hi hp'

theorem worked (ho : Once conns done h) (hl : Ledger conns h) {m : Move} {s s' : Session}
    {v : Service} (hi : h.sessions[i]? = some s) (hw : s.Works i h.service m v s') :
    Once conns done ({ h with service := v }.setSession i s') := by
  have hget := Hub.getElem?_setSession { h with service := v } s' hi
  have hasked (c : Handle) : s'.phase ≠ .registering c false := by
    cases hw <;> nofun
  have hphase (j : Nat) (r : Session) (c : Handle)
      (hj : ({ h with service := v }.setSession i s').sessions[j]? = some r)
      (hp : r.phase = .registering c false) : j ≠ i ∧ h.sessions[j]? = some r := by
    rw [hget] at hj
    split at hj
    · cases hj
      exact absurd hp (hasked c)
    · exact ⟨‹_›, hj⟩
  rcases hw.asking with hsame | ⟨d, hd, hmore⟩
  · exact ho.of_same (congrArg (done ++ ·) hsame)
      fun j r c hj hp => ⟨r, (hphase j r c hj hp).2, hp⟩
  · -- The session asks for its own connection, for the first time.
    have hfit := hl.fits i s hi
    rw [hd] at hfit
    have hmem := hl.lookup_eq_some.mp hfit
    have hnew : d ∉ done ++ h.service.asking := fun hin => ho.spent i d hmem hin s hi hd
    have hlist : done ++ v.asking = (done ++ h.service.asking) ++ [d] := by
      rw [hmore, List.append_assoc]
    refine ⟨?_, ?_, ?_⟩
    · show (done ++ v.asking).Nodup
      rw [hlist, List.nodup_append]
      refine ⟨ho.nodup, by simp, fun a ha b hb heq => ?_⟩
      rw [List.mem_singleton.mp hb] at heq
      exact hnew (heq ▸ ha)
    · intro c hc
      change c ∈ done ++ v.asking at hc
      rw [hlist] at hc
      rcases List.mem_append.mp hc with hc | hc
      · exact ho.known c hc
      · exact ⟨i, List.mem_singleton.mp hc ▸ hmem⟩
    · intro j c hc hin r hj hp
      obtain ⟨hji, hj'⟩ := hphase j r c hj hp
      change c ∈ done ++ v.asking at hin
      rw [hlist] at hin
      rcases List.mem_append.mp hin with hin | hin
      · exact ho.spent j c hc hin r hj' hp
      · rw [List.mem_singleton.mp hin] at hc
        exact hji (hl.eq_of_endpoint hc hmem rfl).1

theorem allotted (ho : Once conns done h) (hl : Ledger conns h) (u : UserId)
    {sessions : List Session} (hi : conns.lookup i = none)
    (hother : ∀ j : Nat, j ≠ i → sessions[j]? = h.sessions[j]?) :
    Once (conns ++ [(i, h.next u)]) done { h.allot with sessions := sessions } where
  nodup := ho.nodup
  known c hc := by
    obtain ⟨j, hj⟩ := ho.known c hc
    exact ⟨j, List.mem_append_left _ hj⟩
  spent j c hc hin s hj := by
    rcases List.mem_append.mp hc with hold | hc
    · have hji : j ≠ i := by
        rintro rfl
        exact hl.not_mem hi hold
      exact ho.spent j c hold hin s ((hother j hji).symm.trans hj)
    · cases List.mem_singleton.mp hc
      obtain ⟨k, hk⟩ := ho.known _ hin
      exact absurd (hl.lt_length hk) (Nat.lt_irrefl _)

theorem acts (ho : Once conns done h) (hl : Ledger conns h) {a : Hub.Action} (ha : h.Acts a h') :
    Once (conns ++ (Hub.Moment.allotted? ⟨h, a, h'⟩).toList)
      (done ++ (Hub.Moment.registers? ⟨h, a, h'⟩).toList) h' := by
  have same (hn : Hub.Moment.allotted? ⟨h, a, h'⟩ = none)
      (hr : Hub.Moment.registers? ⟨h, a, h'⟩ = none) (ho : Once conns done h') :
      Once (conns ++ (Hub.Moment.allotted? ⟨h, a, h'⟩).toList)
        (done ++ (Hub.Moment.registers? ⟨h, a, h'⟩).toList) h' := by
    rw [hn, hr, Option.toList_none, Option.toList_none, List.append_nil, List.append_nil]
    exact ho
  have queued {q : Queued} (hq : q.command.handle? = none) :
      done ++ (h.service.enqueue q.command q.ticket).asking = done ++ h.service.asking := by
    rw [Service.asking_enqueue]
    cases hc : q.command <;> simp_all [Command.handle?]
  cases ha with
  | served q rest hq =>
    have hserves : Hub.Moment.registers? ⟨h, .move .serve, { h with service := h.service.serve }⟩ =
        q.command.registers? :=
      Hub.Moment.registers?_of_serves (congrArg List.head? hq)
    -- A registration goes from those that ask to those that have asked.
    have hlist : q.command.registers?.toList ++ h.service.serve.asking = h.service.asking := by
      rw [Service.asking_serve hq]
      cases q.command <;> rfl
    rw [hserves]
    refine (List.append_nil conns).symm ▸ ho.of_same ?_ fun j s c hj hp => ⟨s, hj, hp⟩
    show (done ++ _) ++ h.service.serve.asking = _
    rw [List.append_assoc, hlist]
  | swept t =>
    exact same rfl rfl (ho.of_same (queued (q := ⟨.sweep, none⟩) rfl)
      fun j s c hj hp => ⟨s, hj, hp⟩)
  | worked i m s s' v hi hw =>
    have hpart : m.session? = some i := by
      rcases hw.part with rfl | rfl | rfl | rfl <;> rfl
    exact same (Hub.allotted?_worked hi hw) (Hub.registers?_of_part hpart) (ho.worked hl hi hw)
  | proved i line line' deadline u hi hline =>
    have hget := Hub.getElem?_setSession h.allot ⟨line', .registering (h.next u) false⟩ hi
    rw [Hub.allotted?_proved u hi, Hub.registers?_of_part rfl, Option.toList_some,
      Option.toList_none, List.append_nil]
    exact ho.allotted hl u (hl.fits i _ hi) fun j hj => (hget j).trans (if_neg hj)
  | accepted line deadline =>
    refine same rfl rfl (ho.of_same rfl fun j s c hj hp => ?_)
    by_cases hlen : j = h.sessions.length
    · subst hlen
      cases List.getElem?_concat_length.symm.trans hj
      cases hp
    · exact ⟨s, (Hub.getElem?_concat_ne h.sessions _ hlen).symm.trans hj, hp⟩
  | registered u line =>
    rw [Hub.allotted?_registered, Option.toList_some]
    refine (List.append_nil done).symm ▸
      ho.allotted hl u (hl.lookup_eq_none (Nat.le_refl _)) fun j hj => ?_
    exact Hub.getElem?_concat_ne h.sessions _ hj
  | dispatched r hr =>
    exact same rfl rfl (ho.of_same (queued (q := ⟨.dispatch r, none⟩) rfl)
      fun j s c hj hp => ⟨s, hj, hp⟩)
  | turnedAway r hr => exact same rfl rfl ho
  | asked q hr =>
    have hq : q.command.handle? = none := by cases q <;> rfl
    exact same rfl rfl (ho.of_same (queued (q := ⟨q.command, none⟩) hq)
      fun j s c hj hp => ⟨s, hj, hp⟩)
  | client i a s hi =>
    refine same rfl rfl (ho.of_same rfl fun j r c hj hp => ?_)
    rw [Hub.getElem?_setSession h _ hi] at hj
    split at hj
    · rename_i heq
      cases hj
      exact ⟨s, heq ▸ hi, hp⟩
    · exact ⟨r, hj, hp⟩
  | nobody i a hi => exact same rfl rfl ho
  | passed ms clock => exact same rfl rfl (ho.of_same rfl fun j s c hj hp => ⟨s, hj, hp⟩)

end Once

namespace Hub

section

variable {start h : Hub} {ms before after : List Moment} {t : Moment} {c : Handle} {i : Nat}

theorem Run.once (hr : Run start ms h) (hs : start.Fresh) :
    Once (connections ms) (registrations ms) h := by
  induction hr with
  | nil =>
    obtain ⟨settings, registry, verifier, channels, clock, rfl⟩ := hs
    exact ⟨List.nodup_nil, nofun, fun _ _ hc => nomatch hc⟩
  | snoc hr ha ih =>
    have hl := hr.ledger hs
    have hmore := ih.acts hl (acts_of_act hl.running ha)
    rw [connections_snoc]
    unfold registrations at hmore ⊢
    rwa [filterMap_snoc]

theorem Run.registered_once (hr : Run start (before ++ t :: after) h) (hs : start.Fresh)
    (hc : t.registers? = some c) : ∀ u ∈ after, u.registers? ≠ some c := by
  intro u hu hc'
  have hnodup := (List.nodup_append.mp (hr.once hs).nodup).1
  unfold registrations at hnodup
  rw [List.filterMap_append, List.filterMap_cons_some hc, List.nodup_append,
    List.nodup_cons] at hnodup
  exact hnodup.2.1.1 (List.mem_filterMap.mpr ⟨u, hu, hc'⟩)

end

end Hub

/-! ## Entries -/

theorem Accounted.enrols {conns : List (Nat × Handle)} {q : Queued} {c : Handle}
    (hq : Accounted conns q) (hc : q.command = .register c) :
    ∃ i, (i, c) ∈ conns ∧ q = ⟨.register c, some i⟩ := by
  rcases hq with ⟨i, d, hd, d', heq, rfl | rfl⟩ | ⟨hnone, -⟩
  · cases heq
    cases hc
    exact ⟨i, hd, rfl⟩
  · cases hc
  · rw [hc] at hnone
    cases hnone

theorem Registry.Membership.Handles.granted_of_new {m : Membership} {o : Registry.Outcome}
    {c : Handle} (ho : m.Handles (.register c) o) (hnew : c ∉ m.entries)
    (hin : c ∈ o.state.entries) : ∃ r, o.reply = some (.registered (.ok r)) := by
  cases ho with
  | late => exact absurd hin hnew
  | again => exact absurd hin hnew
  | superseded => exact ⟨_, rfl⟩
  | full => exact absurd hin hnew
  | admitted => exact ⟨_, rfl⟩

theorem Hub.Run.entry_granted {start h : Hub} {ms : List Hub.Moment} {c : Handle}
    (hr : Hub.Run start ms h) (hs : start.Fresh) (hc : c ∈ h.service.members.entries) :
    ∃ i, ∃ t ∈ ms, t.Grants i c := by
  induction hr with
  | nil =>
    obtain ⟨settings, registry, verifier, channels, clock, rfl⟩ := hs
    cases hc
  | @snoc ms h h' a hr ha ih =>
    have hearlier (hold : c ∈ h.service.members.entries) :
        ∃ i, ∃ t ∈ ms ++ [⟨h, a, h'⟩], t.Grants i c := by
      obtain ⟨i, t, ht, hg⟩ := ih hold
      exact ⟨i, t, List.mem_append_left _ ht, hg⟩
    by_cases hold : c ∈ h.service.members.entries
    · exact hearlier hold
    have hl := hr.ledger hs
    cases hq : Hub.Moment.serves? ⟨h, a, h'⟩ with
    | none => exact hearlier ((Hub.acts_of_act hl.running ha).entries_of_idle hq ▸ hc)
    | some q =>
      obtain ⟨rest, hqueue, hafter⟩ := Hub.after_of_serves ha hq
      dsimp only at hqueue hafter
      rw [hafter] at hc
      change c ∈ h.service.serve.members.entries at hc
      rw [Service.members_serve hqueue] at hc
      have hcommand := (Membership.mem_entries_handle hc).resolve_left hold
      have hmem : q ∈ h.service.queue := hqueue ▸ List.mem_cons_self
      obtain ⟨i, -, rfl⟩ := (hl.queued q hmem).enrols hcommand
      have hgranted := (Membership.handles_handle _ _).granted_of_new hold hc
      refine ⟨i, _, List.mem_append_right _ (List.mem_singleton_self _), ?_⟩
      exact ⟨(Hub.Moment.serves?_eq_some.mp hq).1, congrArg List.head? hqueue, hgranted⟩

/-! ## Once admitted -/

/-- The phases of a session whose connection the registry has admitted. -/
inductive Phase.Past (v : Service) (i : Nat) (c : Handle) : Phase → Prop
  | answered (r : Registry.Registration)
      (hr : v.replies.lookup i = some (.registered (.ok r))) : Past v i c (.registering c true)
  | greeting (deadline : Nat) : Past v i c (.greeting c deadline)
  | withdrawing (err : TransportError) : Past v i c (.withdrawing c err)
  | admitted (inbound : Inbound) (outbound : Outbound) : Past v i c (.admitted c inbound outbound)
  | refused (err : TransportError) : Past v i c (.refused (.transport err))

theorem Phase.Past.works {v v' : Service} {i : Nat} {c : Handle} {s s' : Session} {m : Move}
    (hp : s.phase.Past v i c) (hw : s.Works i v m v' s') : s'.phase.Past v' i c := by
  cases hw with
  | prompted => cases hp
  | unprompted => cases hp
  | ignored => cases hp
  | unproved => cases hp
  | asked => cases hp
  | granted line h r deadline => cases hp; exact .greeting deadline
  | denied line h err deadline hr =>
    cases hp with
    | answered r hr' => cases hr.symm.trans hr'
  | refused => cases hp
  | released => cases hp
  | greeted => cases hp; exact .admitted _ _
  | ungreeted => cases hp; exact .withdrawing _
  | withdrawn => cases hp; exact .refused _
  | _ => cases hp; exact .admitted _ _

namespace Hub

section

variable {start h h' : Hub} {before after : List Moment} {t : Moment} {a : Action}
  {conns : List (Nat × Handle)} {c : Handle} {i : Nat}

/-- What is not of its session leaves a connection as it stands, unless it is being registered. -/
theorem Acts.persists (ha : h.Acts a h') (hl : Ledger conns h) (hn : conns.length ≤ UInt64.size)
    (hc : (i, c) ∈ conns) (hi : a.session? ≠ some i)
    (hne : Moment.registers? ⟨h, a, h'⟩ ≠ some c) : Persists h.service h'.service i c := by
  cases ha with
  | served q rest hq =>
    have hserves : Moment.serves? ⟨h, .move .serve, { h with service := h.service.serve }⟩ = some q :=
      congrArg List.head? hq
    refine .served hl hn hc hq fun hcommand => hne ?_
    rw [Moment.registers?_of_serves hserves, hcommand]
    rfl
  | swept t => exact .queued (q := ⟨.sweep, none⟩) rfl rfl rfl rfl
  | worked j m s s' v hj hw =>
    have hij : i ≠ j := by
      rintro rfl
      rcases hw.part with rfl | rfl | rfl | rfl <;> exact hi rfl
    exact .confined hij (fun d => hl.endpoint_ne hc (Ne.symm hij)) (hw.confined (hl.fits j s hj))
  | proved j line line' deadline u hj hline => exact .addEndpoint _ (hl.lt_length hc)
  | registered u line => exact .addEndpoint _ (hl.lt_length hc)
  | dispatched r hr => exact .queued (q := ⟨.dispatch r, none⟩) rfl rfl rfl rfl
  | asked q hr =>
    have hq : q.command.handle? = none := by cases q <;> rfl
    exact .queued (q := ⟨q.command, none⟩) rfl rfl rfl hq
  | _ => exact .of_same rfl rfl .rfl .rfl rfl

theorem Turn.persists {s s' : Session} (ht : h.Turn i s a h' s') (hl : Ledger conns h)
    (hn : conns.length ≤ UInt64.size) (hc : (i, c) ∈ conns) (hs : h.sessions[i]? = some s)
    (hne : Moment.registers? ⟨h, a, h'⟩ ≠ some c) :
    (∃ m, a = .move m ∧ s.Works i h.service m h'.service s') ∨
      s'.phase = s.phase ∧ Persists h.service h'.service i c := by
  cases ht with
  | own m d s' hm hmove =>
    rcases Session.works_of_move hl.running hm hmove with
      ⟨hw, -⟩ | ⟨line, line', deadline, u, -, rfl, -⟩
    · exact .inl ⟨m, rfl, hw⟩
    · -- Its connection would be one that it has come to already.
      cases hl.fits_of_mem hc hs
  | client b => exact .inr ⟨rfl, .of_same rfl rfl .rfl .rfl rfl⟩
  | other a h' ha hi => exact .inr ⟨rfl, (acts_of_act hl.running ha).persists hl hn hc hi hne⟩

theorem Moment.Grants.past (hg : t.Grants i c) (hl : Ledger conns t.before)
    (hst : Situated conns t.before) (ha : t.before.act t.action = some t.after) :
    ∃ s, t.after.sessions[i]? = some s ∧ s.phase.Past t.after.service i c := by
  obtain ⟨rest, hq, hafter⟩ := after_of_serves ha hg.serves?
  obtain ⟨s, hi, hstand⟩ := hst.standing i c (hg.known hl)
  have hasked : t.before.service.Asked c := by
    unfold Service.Asked
    rw [Service.asking_serve hq]
    exact List.mem_cons_self
  obtain ⟨r, hr⟩ := hg.granted
  rw [hafter]
  refine ⟨s, hi, ?_⟩
  -- Only a session that waits has its registration queued.
  generalize s.phase = p at hstand ⊢
  cases hstand with
  | waiting ha hd hnone =>
    exact .answered r (Service.lookup_replies_serve_self hq rfl hr hnone)
  | fresh ha => exact absurd hasked ha
  | granted ha => exact absurd hasked ha
  | denied ha => exact absurd hasked ha
  | greeting deadline ha => exact absurd hasked ha
  | withdrawing err ha => exact absurd hasked ha
  | rejecting why deadline ha => exact absurd hasked ha
  | refused why ha => exact absurd hasked ha
  | admitted inbound outbound ha => exact absurd hasked ha

theorem length_connections_le {ms more : List Moment} :
    (connections ms).length ≤ (connections (ms ++ more)).length := by
  rw [connections_append, List.length_append]
  exact Nat.le_add_right _ _

theorem Run.past (hr : Run start (before ++ t :: after) h) (hs : start.Fresh)
    (hn : (connections (before ++ t :: after)).length ≤ UInt64.size) (hg : t.Grants i c) :
    ∃ s, h.sessions[i]? = some s ∧ s.phase.Past h.service i c := by
  obtain ⟨hbefore, hact⟩ := hr.split
  have hl := hbefore.ledger hs
  have hsituated := hbefore.situated hs (Nat.le_trans length_connections_le hn)
  refine hr.since (P := fun h => ∃ s, h.sessions[i]? = some s ∧ s.phase.Past h.service i c)
    (hg.past hl hsituated hact) fun first u rest heq hrun hact ⟨s, hi, hp⟩ => ?_
  subst heq
  have hl := hrun.ledger hs
  have hfirst : (connections (before ++ t :: first)).length ≤ UInt64.size := by
    rw [← List.cons_append, ← List.append_assoc] at hn
    exact Nat.le_trans length_connections_le hn
  have hc := mem_connections_append (hg.known (hbefore.ledger hs)) (t :: first)
  have hne : u.registers? ≠ some c :=
    hr.registered_once hs hg.registers? u (List.mem_append_right _ List.mem_cons_self)
  obtain ⟨s', hi', hturn⟩ := turn_of_act hi hact
  refine ⟨s', hi', ?_⟩
  rcases hturn.persists hl hfirst hc hi hne with ⟨m, -, hw⟩ | ⟨hphase, hpersists⟩
  · exact hp.works hw
  · rw [hphase]
    generalize s.phase = p at hp ⊢
    cases hp with
    | answered r hr => exact .answered r (hpersists.reply.trans hr)
    | greeting deadline => exact .greeting deadline
    | withdrawing err => exact .withdrawing err
    | admitted inbound outbound => exact .admitted inbound outbound
    | refused err => exact .refused err

end

end Hub

end PushHub
