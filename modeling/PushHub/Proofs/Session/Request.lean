import PushHub.Proofs.Subscription
import PushHub.Proofs.Registry.Fanout
import PushHub.Proofs.Session.Confined

/-! What a client asks for, frame by frame, and what the loop that reads does about it. Most frames
ask for nothing. A request to follow is answered with the channels that are followed afterwards, and
what is followed is published before it is acknowledged. -/
namespace PushHub

open Registry (Handle Endpoint Mailroom)

/-! ## Requests -/

/-- What a frame asks for, if it is a well-formed text of at most `max` bytes. -/
def Frame.request? (max : Nat) : Frame → Option ClientFrame
  | .text t => (ClientFrame.parse t max).toOption
  | _ => none

namespace ChannelName

theorem parse_eq_error {s : String} : (∃ e, parse s = .error e) ↔ flaw? s ≠ none := by
  unfold parse
  split
  · rename_i h
    simp [h]
  · rename_i f h
    simp [h]

theorem parseAll_eq_error {names : List String} :
    (∃ e, parseAll names = .error e) ↔ ∃ s ∈ names, flaw? s ≠ none := by
  unfold parseAll
  induction names with
  | nil => simp [pure, Except.pure]
  | cons s rest ih =>
    rw [List.exists_mem_cons_iff, ← parse_eq_error, ← ih, List.mapM_cons]
    cases parse s with
    | error e => simp [bind, Except.bind]
    | ok c => cases rest.mapM parse <;> simp [bind, Except.bind, pure, Except.pure]

end ChannelName

namespace ClientFrame

def kinds : List String := ["auth", "subscribe", "unsubscribe", "ping"]

theorem parse_of_size {text : String} {max : Nat} (hsize : text.utf8ByteSize ≤ max) :
    parse text max = ((Json.decodeText readLoose text).mapError .malformed).bind fun p =>
      ofData p.1 p.2 := by
  simp only [parse, Nat.not_lt_of_le hsize, if_false]
  rfl

theorem parse_of_long {text : String} {max : Nat} (hsize : max < text.utf8ByteSize) :
    parse text max = .error (.tooLarge text.utf8ByteSize max) := by
  simp only [parse, hsize, if_true]
  rfl

theorem parse_of_decoded {text kind : String} {max : Nat} {data : Json}
    (hsize : text.utf8ByteSize ≤ max) (htext : Json.decodeText readLoose text = .ok (kind, data)) :
    parse text max = ofData kind data := by
  rw [parse_of_size hsize, htext]
  rfl

end ClientFrame

/-- Frames by which a client asks for nothing. -/
inductive Frame.Idle (max : Nat) : Frame → Prop
  | binary (bytes : List UInt8) : Idle max (.binary bytes)
  | ping (bytes : List UInt8) : Idle max (.ping bytes)
  | pong (bytes : List UInt8) : Idle max (.pong bytes)
  | close : Idle max .close
  | tooLarge (text : String) (hsize : max < text.utf8ByteSize) : Idle max (.text text)
  | malformed (text : String) (flaw : Json.Flaw)
      (hparse : ClientFrame.parse text max = .error (.malformed flaw)) : Idle max (.text text)
  | badChannel (text kind : String) (data : Json) (names : List String)
      (hkind : kind = "subscribe" ∨ kind = "unsubscribe")
      (htext : Json.decodeText ClientFrame.readLoose text = .ok (kind, data))
      (hdata : Json.decodeValue ClientFrame.readNames data = .ok names)
      (hbad : ∃ name ∈ names, ChannelName.flaw? name ≠ none) : Idle max (.text text)
  | unknownType (text kind : String) (data : Json) (hkind : kind ∉ ClientFrame.kinds)
      (htext : Json.decodeText ClientFrame.readLoose text = .ok (kind, data)) :
      Idle max (.text text)
  | auth (text token : String) (hparse : ClientFrame.parse text max = .ok (.auth token)) :
      Idle max (.text text)

namespace ClientFrame

theorem channels_eq_error {data : Json} {names : List String}
    (hdata : Json.decodeValue readNames data = .ok names)
    (hbad : ∃ name ∈ names, ChannelName.flaw? name ≠ none) : ∃ e, channels data = .error e := by
  obtain ⟨e, he⟩ := ChannelName.parseAll_eq_error.mpr hbad
  exact ⟨.badChannel e, by simp [channels, hdata, he, Except.mapError, bind, Except.bind]⟩

theorem parse_of_refused {text kind : String} {max : Nat} {data : Json} {e : ClientFrameError}
    (htext : Json.decodeText readLoose text = .ok (kind, data)) (he : ofData kind data = .error e) :
    ∃ e, parse text max = .error e := by
  by_cases hsize : max < text.utf8ByteSize
  · exact ⟨_, parse_of_long hsize⟩
  · exact ⟨e, (parse_of_decoded (Nat.le_of_not_lt hsize) htext).trans he⟩

theorem ofData_of_unknown {kind : String} (data : Json) (hkind : kind ∉ kinds) :
    ofData kind data = .error (.unknownType kind) := by
  simp only [kinds, List.mem_cons, List.not_mem_nil, or_false, not_or] at hkind
  obtain ⟨hauth, hsubscribe, hunsubscribe, hping⟩ := hkind
  unfold ofData
  split
  · exact absurd rfl hauth
  · exact absurd rfl hsubscribe
  · exact absurd rfl hunsubscribe
  · exact absurd rfl hping
  · rfl

theorem idle_of_channels {text kind : String} {data : Json} {max : Nat} {e : ClientFrameError}
    (hkind : kind = "subscribe" ∨ kind = "unsubscribe")
    (htext : Json.decodeText readLoose text = .ok (kind, data)) (he : channels data = .error e)
    (hparse : parse text max = .error e) : (Frame.text text).Idle max := by
  unfold channels at he
  cases hdata : Json.decodeValue readNames data with
  | error flaw =>
    rw [hdata] at he
    cases he
    exact .malformed text flaw hparse
  | ok names =>
    rw [hdata] at he
    cases hnames : ChannelName.parseAll names with
    | ok cs => simp [hnames, Except.mapError, bind, Except.bind] at he
    | error refusal =>
      exact .badChannel text kind data names hkind htext hdata
        (ChannelName.parseAll_eq_error.mp ⟨refusal, hnames⟩)

theorem idle_of_parse {text : String} {max : Nat} {e : ClientFrameError}
    (hparse : parse text max = .error e) : (Frame.text text).Idle max := by
  by_cases hsize : max < text.utf8ByteSize
  · exact .tooLarge text hsize
  have hsize := Nat.le_of_not_lt hsize
  cases htext : Json.decodeText readLoose text with
  | error flaw =>
    rw [parse_of_size hsize, htext] at hparse
    cases hparse
    refine .malformed text flaw ?_
    rw [parse_of_size hsize, htext]
    rfl
  | ok p =>
    obtain ⟨kind, data⟩ := p
    by_cases hknown : kind ∉ kinds
    · exact .unknownType text kind data hknown htext
    have hof := (parse_of_decoded hsize htext).symm.trans hparse
    have hcases : kind = "auth" ∨ kind = "subscribe" ∨ kind = "unsubscribe" ∨ kind = "ping" := by
      simpa [kinds, not_not] using not_not.mp hknown
    rcases hcases with rfl | rfl | rfl | rfl
    · cases htoken : Json.decodeValue readToken data with
      | error flaw =>
        simp only [ofData, htoken, Except.mapError, bind, Except.bind] at hof
        cases hof
        exact .malformed text flaw hparse
      | ok token => simp [ofData, htoken, Except.mapError, bind, Except.bind] at hof
    · cases hchannels : channels data with
      | error e' =>
        simp only [ofData, hchannels, bind, Except.bind] at hof
        cases hof
        exact idle_of_channels (.inl rfl) htext hchannels hparse
      | ok cs => simp [ofData, hchannels, bind, Except.bind] at hof
    · cases hchannels : channels data with
      | error e' =>
        simp only [ofData, hchannels, bind, Except.bind] at hof
        cases hof
        exact idle_of_channels (.inr rfl) htext hchannels hparse
      | ok cs => simp [ofData, hchannels, bind, Except.bind] at hof
    · simp [ofData] at hof

end ClientFrame

/-- The frames listed are those that ask for nothing; a credential does not count any more. -/
theorem Frame.idle_iff {max : Nat} {f : Frame} :
    f.Idle max ↔ ∀ r, f.request? max = some r → ∃ token, r = .auth token := by
  have hfails {text : String} (herror : ∃ e, ClientFrame.parse text max = .error e)
      (r : ClientFrame) : (Frame.text text).request? max ≠ some r := by
    obtain ⟨e, hparse⟩ := herror
    simp [request?, hparse, Except.toOption]
  constructor
  · intro hidle r hr
    cases hidle with
    | tooLarge text hsize => exact absurd hr (hfails ⟨_, ClientFrame.parse_of_long hsize⟩ r)
    | malformed text flaw hparse => exact absurd hr (hfails ⟨_, hparse⟩ r)
    | badChannel text kind data names hkind htext hdata hbad =>
      obtain ⟨e, he⟩ := ClientFrame.channels_eq_error hdata hbad
      have hof : ClientFrame.ofData kind data = .error e := by
        rcases hkind with rfl | rfl <;> simp [ClientFrame.ofData, he, bind, Except.bind]
      exact absurd hr (hfails (ClientFrame.parse_of_refused htext hof) r)
    | unknownType text kind data hkind htext =>
      have hof := ClientFrame.ofData_of_unknown data hkind
      exact absurd hr (hfails (ClientFrame.parse_of_refused htext hof) r)
    | auth text token hparse =>
      simp only [request?, hparse, Except.toOption] at hr
      exact ⟨token, (Option.some.inj hr).symm⟩
    | _ => cases hr
  · intro hr
    cases f with
    | binary bytes => exact .binary bytes
    | ping bytes => exact .ping bytes
    | pong bytes => exact .pong bytes
    | close => exact .close
    | text t =>
      cases hparse : ClientFrame.parse t max with
      | error e => exact ClientFrame.idle_of_parse hparse
      | ok r =>
        obtain ⟨token, rfl⟩ := hr r (by simp [request?, hparse, Except.toOption])
        exact .auth t token hparse

/-! ## Following -/

namespace ClientFrame

/-- What is followed after a request, with room for `limit` channels. -/
def after (limit : Nat) (s : Finset ChannelName) : ClientFrame → Finset ChannelName
  | .subscribe names => names.foldl (SubscriptionSet.join limit) s
  | .unsubscribe names => s \ names.toFinset
  | .ping => s
  | .auth _ => s

def answers (limit : Nat) (stamp : Int64) (s : Finset ChannelName) : ClientFrame → List ServerFrame
  | .subscribe names =>
    (if ∀ c ∈ names, c ∈ s then [] else [.error (SubscriptionLimit.mk limit).message]) ++
      [.subscribed (names.filter (· ∈ s))]
  | .unsubscribe names => [.unsubscribed names]
  | .ping => [.pong stamp]
  | .auth _ => []

theorem card_after {limit : Nat} {s : Finset ChannelName} (hs : s.card ≤ limit) (r : ClientFrame) :
    (r.after limit s).card ≤ limit := by
  cases r with
  | subscribe names => exact SubscriptionSet.card_foldl_join hs names
  | unsubscribe names => exact (Finset.card_le_card Finset.sdiff_subset).trans hs
  | ping => exact hs
  | auth token => exact hs

end ClientFrame

/-- A client's account: what it follows, and every answer that it was given. -/
structure Account where
  followed : Finset ChannelName := ∅
  answers : List ServerFrame := []

namespace Account

/-- The account after one more frame, which came at the time of the stamp. -/
def hear (e : ConnectionSettings) (a : Account) (p : Int64 × Frame) : Account :=
  match p.2.request? e.maxMessageBytes with
  | some r =>
    let followed := r.after e.maxSubscriptions a.followed
    ⟨followed, a.answers ++ r.answers e.maxSubscriptions p.1 followed⟩
  | none => a

def replay (e : ConnectionSettings) (frames : List (Int64 × Frame)) : Account :=
  frames.foldl (hear e) {}

variable {e : ConnectionSettings}

theorem hear_of_request {a : Account} {stamp : Int64} {f : Frame} {r : ClientFrame}
    (hr : f.request? e.maxMessageBytes = some r) : a.hear e (stamp, f) =
      ⟨r.after e.maxSubscriptions a.followed, a.answers ++
        r.answers e.maxSubscriptions stamp (r.after e.maxSubscriptions a.followed)⟩ := by
  simp [hear, hr]

theorem replay_snoc (e : ConnectionSettings) (frames : List (Int64 × Frame)) (p : Int64 × Frame) :
    replay e (frames ++ [p]) = (replay e frames).hear e p := by
  simp [replay]

theorem card_replay (e : ConnectionSettings) (frames : List (Int64 × Frame)) :
    (replay e frames).followed.card ≤ e.maxSubscriptions := by
  induction frames using List.reverseRecOn with
  | nil => exact Nat.zero_le _
  | append_singleton frames p ih =>
    rw [replay_snoc]
    unfold hear
    split
    · exact ClientFrame.card_after ih _
    · exact ih

end Account

/-! ## Reactions -/

def Reaction.reply? : Reaction → Option ServerFrame
  | .publish _ => none
  | .reply f => some f

def Reaction.published (s : SubscriptionSet) : Reaction → SubscriptionSet
  | .publish t => t
  | .reply _ => s

def Mailbox.offer (m : Mailbox) (fs : List ServerFrame) : Mailbox :=
  fs.foldl (fun m f => (m.deliver f.frame).1) m

def Registry.Endpoint.carry (e : Endpoint) (reactions : List Reaction) : Endpoint where
  mailbox := e.mailbox.offer (reactions.filterMap Reaction.reply?)
  published := reactions.foldl Reaction.published e.published

namespace Inbound

theorem foldl_perform {room : Mailroom} {n : Nat} (hn : n < room.length)
    (reactions : List Reaction) :
    reactions.foldl (perform n) room = room.update n (·.carry reactions) := by
  apply Mailroom.ext (by simp)
  intro k
  by_cases hk : k = n
  · subst hk
    rw [Mailroom.get_update_self _ hn]
    induction reactions generalizing room with
    | nil => rfl
    | cons r rest ih =>
      rw [List.foldl_cons, ih (by cases r <;> simpa [perform] using hn)]
      cases r with
      | publish s =>
        show (Mailroom.get (room.update k _) k).carry rest = _
        rw [Mailroom.get_update_self _ hn]
        rfl
      | reply f =>
        show ((room.deliver k f.frame).1.get k).carry rest = _
        rw [Mailroom.get_deliver, if_pos rfl]
        rfl
  · rw [get_perform_ne reactions room hk, Mailroom.get_update_ne _ _ hk]

/-- How the loop that reads reacts to a request: `s'` is what it goes by afterwards. -/
inductive Reacts (limit : Nat) (stamp : Int64) (s s' : SubscriptionSet) :
    ClientFrame → List Reaction → Prop
  | subscribed (names : List ChannelName) (hall : ∀ c ∈ names, c ∈ s'.names) :
      Reacts limit stamp s s' (.subscribe names) [.publish s', .reply (.subscribed names)]
  | limited (names : List ChannelName) (hnot : ¬∀ c ∈ names, c ∈ s'.names) :
      Reacts limit stamp s s' (.subscribe names)
        [.reply (.error (SubscriptionLimit.mk limit).message), .publish s',
          .reply (.subscribed (names.filter (· ∈ s'.names)))]
  | unsubscribed (names : List ChannelName) :
      Reacts limit stamp s s' (.unsubscribe names) [.publish s', .reply (.unsubscribed names)]
  | ping (hs : s' = s) : Reacts limit stamp s s' .ping [.reply (.pong stamp)]
  | auth (token : String) (hs : s' = s) : Reacts limit stamp s s' (.auth token) []

theorem react_spec {s : SubscriptionSet} {limit : Nat} (hs : s.Keeps limit) (stamp : Int64)
    (r : ClientFrame) :
    (react stamp s r).1.Keeps limit ∧ (react stamp s r).1.names = r.after limit s.names ∧
      Reacts limit stamp s (react stamp s r).1 r (react stamp s r).2 := by
  cases r with
  | subscribe names =>
    obtain ⟨hkeeps, hnames, hrefused⟩ := SubscriptionSet.subscribe_spec hs names
    unfold react
    dsimp only
    generalize s.subscribe names = o at hkeeps hnames hrefused
    obtain ⟨t, refusal⟩ := o
    dsimp only at hkeeps hnames hrefused
    by_cases hall : ∀ c ∈ names, c ∈ t.names
    · rw [if_pos hall] at hrefused
      subst hrefused
      exact ⟨hkeeps, hnames, .subscribed names hall⟩
    · rw [if_neg hall] at hrefused
      subst hrefused
      have hack : acknowledged t names = names.filter (· ∈ t.names) :=
        List.filter_congr fun c _ => Bool.eq_iff_iff.mpr
          (SubscriptionSet.contains_iff.trans (decide_eq_true_iff).symm)
      refine ⟨hkeeps, hnames, ?_⟩
      dsimp only
      rw [hack]
      exact .limited names hall
  | unsubscribe names =>
    obtain ⟨hkeeps, hnames⟩ := SubscriptionSet.unsubscribe_spec hs names
    exact ⟨hkeeps, hnames, .unsubscribed names⟩
  | ping => exact ⟨hs, rfl, .ping rfl⟩
  | auth token => exact ⟨hs, rfl, .auth token rfl⟩

namespace Reacts

variable {limit : Nat} {stamp : Int64} {s s' : SubscriptionSet} {r : ClientFrame}
  {reactions : List Reaction}

theorem replies (hr : Reacts limit stamp s s' r reactions) :
    reactions.filterMap Reaction.reply? = r.answers limit stamp s'.names := by
  cases hr with
  | subscribed names hall =>
    have hfilter : names.filter (· ∈ s'.names) = names :=
      List.filter_eq_self.mpr fun c hc => decide_eq_true (hall c hc)
    simp only [ClientFrame.answers, if_pos hall, hfilter]
    rfl
  | limited names hnot =>
    simp only [ClientFrame.answers, if_neg hnot]
    rfl
  | _ => rfl

theorem published (hr : Reacts limit stamp s s' r reactions) {t : SubscriptionSet}
    (ht : t.channels = s.channels) :
    (reactions.foldl Reaction.published t).channels = s'.channels := by
  cases hr with
  | ping hs => exact hs ▸ ht
  | auth token hs => exact hs ▸ ht
  | _ => rfl

end Reacts

theorem handleFrame_of_request {e : Surroundings} {s : SubscriptionSet} {f : Frame} {r : ClientFrame}
    (hr : f.request? e.settings.maxMessageBytes = some r) :
    handleFrame e s f = react e.stamp s r := by
  cases f with
  | text t =>
    cases hparse : ClientFrame.parse t e.settings.maxMessageBytes with
    | error err => simp [Frame.request?, hparse, Except.toOption] at hr
    | ok r' =>
      simp only [Frame.request?, hparse, Except.toOption, Option.some.injEq] at hr
      simp [handleFrame, hparse, hr]
  | _ => cases hr

theorem handleFrame_of_none {e : Surroundings} (s : SubscriptionSet) {f : Frame}
    (hr : f.request? e.settings.maxMessageBytes = none) : handleFrame e s f = (s, []) := by
  cases f with
  | text t =>
    cases hparse : ClientFrame.parse t e.settings.maxMessageBytes with
    | error err => simp [handleFrame, hparse]
    | ok r => simp [Frame.request?, hparse, Except.toOption] at hr
  | _ => rfl

theorem handleFrame_of_idle {e : Surroundings} (s : SubscriptionSet) {f : Frame}
    (hf : f.Idle e.settings.maxMessageBytes) : handleFrame e s f = (s, []) := by
  cases hr : f.request? e.settings.maxMessageBytes with
  | none => exact handleFrame_of_none s hr
  | some r =>
    obtain ⟨token, rfl⟩ := Frame.idle_iff.mp hf r hr
    exact handleFrame_of_request hr

/-- The loop that reads keeps its client's account, and publishes what is followed. -/
theorem handleFrame_spec {e : Surroundings} {s : SubscriptionSet}
    (hs : s.Keeps e.settings.maxSubscriptions) (f : Frame) :
    (handleFrame e s f).1.Keeps e.settings.maxSubscriptions ∧
      (∀ a : Account, a.followed = s.names → a.hear e.settings (e.stamp, f) =
        ⟨(handleFrame e s f).1.names,
          a.answers ++ (handleFrame e s f).2.filterMap Reaction.reply?⟩) ∧
      ∀ t : SubscriptionSet, t.channels = s.channels →
        ((handleFrame e s f).2.foldl Reaction.published t).channels =
          (handleFrame e s f).1.channels := by
  cases hr : f.request? e.settings.maxMessageBytes with
  | none =>
    rw [handleFrame_of_none s hr]
    refine ⟨hs, fun a ha => ?_, fun t ht => ht⟩
    simp [Account.hear, hr, ← ha]
  | some r =>
    rw [handleFrame_of_request hr]
    obtain ⟨hkeeps, hnames, hreacts⟩ := react_spec hs e.stamp r
    refine ⟨hkeeps, fun a ha => ?_, fun t ht => hreacts.published ht⟩
    rw [Account.hear_of_request hr, hreacts.replies, hnames, ha]

end Inbound

end PushHub
