import PushHub.Http.Site
import PushHub.Proofs.Channel
import PushHub.Proofs.Hub.Ledger
import PushHub.Proofs.Session.Request
import Mathlib.Data.List.TakeWhile

/-! Publishing over HTTP. Whoever may not publish is turned away by the headers alone, a request with
anything wrong in it leaves the hub as it was, and one with nothing wrong queues one event. -/
namespace PushHub

/-! ## Comparing secrets -/

namespace Digest

theorem Sha256.length_bigEndian (width n : Nat) : (bigEndian width n).length = width := by
  induction width generalizing n with
  | zero => rfl
  | succ width ih => simp [bigEndian, ih]

theorem length_sha256 (message : List UInt8) : (sha256 message).length = 32 := by
  simp [sha256, Sha256.State.words, Sha256.length_bigEndian]

end Digest

namespace Http

theorem foldl_difference_eq_zero (pairs : List (UInt8 × UInt8)) (diff : UInt8) :
    pairs.foldl (fun diff (x, y) => diff ||| (x ^^^ y)) diff = 0 ↔
      diff = 0 ∧ ∀ p ∈ pairs, p.1 = p.2 := by
  induction pairs generalizing diff with
  | nil => simp
  | cons p pairs ih =>
    rw [List.foldl_cons, ih, UInt8.or_eq_zero_iff, UInt8.xor_eq_zero_iff, List.forall_mem_cons]
    exact and_assoc

/-- Nothing is left of the comparison of two digests but whether they are equal. -/
theorem sameSecret_iff (a b : List UInt8) :
    sameSecret a b = true ↔ Digest.sha256 a = Digest.sha256 b := by
  have hlength : (Digest.sha256 a).length = (Digest.sha256 b).length := by
    rw [Digest.length_sha256, Digest.length_sha256]
  rw [sameSecret, beq_iff_eq, foldl_difference_eq_zero]
  constructor
  · rintro ⟨-, hpairs⟩
    have hfst := List.map_fst_zip (Nat.le_of_eq hlength)
    have hsnd := List.map_snd_zip (Nat.le_of_eq hlength.symm)
    rw [← hfst, ← hsnd]
    exact List.map_congr_left hpairs
  · intro heq
    rw [heq]
    refine ⟨rfl, fun p hp => ?_⟩
    obtain ⟨n, hn, rfl⟩ := List.getElem_of_mem hp
    rw [List.getElem_zip]

/-! ## Who may publish -/

/-- A request shows a secret: its first Authorization header is a text that names, after the word
Bearer and a blank, one of the same digest. -/
def Request.Shows (r : Request) (secret : String) : Prop :=
  ∃ token, r.headerText? "authorization" = some (Request.bearerOpening ++ token) ∧
    Digest.sha256 (Text.utf8 (String.ofList token)) = Digest.sha256 (Text.utf8 secret)

/-- A request that may publish where an admin token is configured, or none. -/
inductive Request.Authorised (r : Request) : Option String → Prop
  | unguarded : Authorised r none
  | empty : Authorised r (some "")
  | shown (secret : String) (hs : r.Shows secret) : Authorised r (some secret)

namespace Request

theorem bearer?_eq_some {r : Request} {token : List Char} :
    r.bearer? = some token ↔ r.headerText? "authorization" = some (bearerOpening ++ token) := by
  unfold bearer?
  rw [Option.bind_eq_bind, Option.bind_eq_some_iff]
  constructor
  · rintro ⟨text, htext, hsplit⟩
    split at hsplit
    · rename_i hopening
      obtain ⟨rest, rfl⟩ := List.isPrefixOf_iff_prefix.mp hopening
      rw [List.drop_left] at hsplit
      rw [htext, Option.some.inj hsplit]
    · cases hsplit
  · intro htext
    refine ⟨_, htext, ?_⟩
    rw [if_pos (List.isPrefixOf_iff_prefix.mpr (List.prefix_append _ _)), List.drop_left]

theorem authorize_of_shows {r : Request} {secret : String} :
    r.authorize (some secret) = .ok () ↔ r.Shows secret := by
  unfold authorize Shows
  cases hb : r.bearer? with
  | none =>
    constructor
    · nofun
    · rintro ⟨token, htext, -⟩
      rw [bearer?_eq_some.mpr htext] at hb
      cases hb
  | some token =>
    have htext := bearer?_eq_some.mp hb
    dsimp only
    constructor
    · intro hok
      split at hok
      · rename_i hsame
        exact ⟨token, htext, (sameSecret_iff _ _).mp hsame⟩
      · cases hok
    · rintro ⟨token', htext', hdigest⟩
      rw [htext, Option.some.injEq, List.append_cancel_left_eq] at htext'
      rw [htext', if_pos ((sameSecret_iff _ _).mpr hdigest)]

theorem authorize_iff (r : Request) (configured : Option String) :
    r.authorize (configured.filter fun t => !t.isEmpty) = .ok () ↔ r.Authorised configured := by
  cases configured with
  | none => exact ⟨fun _ => .unguarded, fun _ => rfl⟩
  | some secret =>
    by_cases he : secret = ""
    · subst he
      exact ⟨fun _ => .empty, fun _ => rfl⟩
    · have hkept : (some secret).filter (fun t => !t.isEmpty) = some secret := by
        simp [Option.filter_some, he]
      rw [hkept, authorize_of_shows]
      constructor
      · exact .shown secret
      · intro ha
        cases ha with
        | empty => exact absurd rfl he
        | shown _ hs => exact hs

theorem authorize_eq_error {r : Request} {adminToken : Option String} {e : ApiError}
    (he : r.authorize adminToken = .error e) : e.response.status = 401 := by
  unfold authorize at he
  split at he
  · cases he
  · split at he
    · cases he
      rfl
    · split at he
      · cases he
      · cases he
        rfl

theorem authorize_congr {r r' : Request} (hh : r'.headers = r.headers) (adminToken : Option String) :
    r'.authorize adminToken = r.authorize adminToken := by
  unfold authorize bearer? headerText? header?
  rw [hh]

end Request

/-! ## What a body asks for -/

theorem trim_eq_nil (cs : List Char) : Text.trim cs = [] ↔ ∀ c ∈ cs, Text.isBlank c = true := by
  unfold Text.trim
  rw [List.reverse_eq_nil_iff, List.dropWhile_eq_nil_iff]
  constructor
  · intro hrest c hc
    rw [← List.takeWhile_append_dropWhile (p := Text.isBlank) (l := cs)] at hc
    rcases List.mem_append.mp hc with hc | hc
    · exact List.mem_takeWhile_imp hc
    · exact hrest c (List.mem_reverse.mpr hc)
  · intro hall c hc
    exact hall c ((List.dropWhile_sublist _).subset (List.mem_reverse.mp hc))

/-- An event for all, as a body asks for it: its type has something to show, and its channels are
those named. -/
structure BroadcastBody.Asks (b : BroadcastBody) (d : DispatchRequest) : Prop where
  named : ∃ c ∈ b.messageType.toList, Text.isBlank c = false
  target : d.target = .all
  messageType : d.messageType = b.messageType
  payload : d.payload = b.data
  channels : d.channels.map ChannelName.name = b.channels

theorem BroadcastBody.request_eq_ok {b : BroadcastBody} {d : DispatchRequest} :
    b.request = .ok d ↔ b.Asks d := by
  have hblank : (Text.trim b.messageType.toList).isEmpty = true ↔
      ¬∃ c ∈ b.messageType.toList, Text.isBlank c = false := by
    rw [List.isEmpty_iff, trim_eq_nil]
    simp
  unfold request
  constructor
  · intro h
    split at h
    · cases h
    · rename_i hnamed
      split at h
      · rename_i cs hcs
        cases h
        exact ⟨not_not.mp (hblank.not.mp hnamed), rfl, rfl, rfl, ChannelName.parseAll_eq_ok.mp hcs⟩
      · cases h
  · rintro ⟨hnamed, htarget, htype, hpayload, hchannels⟩
    obtain ⟨target, type, payload, channels⟩ := d
    dsimp only at htarget htype hpayload hchannels
    subst htarget htype hpayload
    rw [if_neg (hblank.not.mpr (not_not.mpr hnamed)), ChannelName.parseAll_eq_ok.mpr hchannels]
    rfl

theorem BroadcastBody.exists_asks {b : BroadcastBody} :
    (∃ d, b.Asks d) ↔ (∃ c ∈ b.messageType.toList, Text.isBlank c = false) ∧
      ∀ s ∈ b.channels, ChannelName.flaw? s = none := by
  constructor
  · rintro ⟨d, hd⟩
    refine ⟨hd.named, fun s hs => ?_⟩
    rw [← hd.channels] at hs
    obtain ⟨c, -, rfl⟩ := List.mem_map.mp hs
    exact c.valid
  · rintro ⟨hnamed, hvalid⟩
    have hnames : ∃ cs : List ChannelName, cs.map ChannelName.name = b.channels := by
      refine ⟨b.channels.pmap ChannelName.mk hvalid, ?_⟩
      rw [List.map_pmap, List.pmap_eq_map, List.map_id']
    obtain ⟨cs, hcs⟩ := hnames
    exact ⟨⟨.all, b.messageType, b.data, cs⟩, hnamed, rfl, rfl, rfl, hcs⟩

/-! ## Requests to publish -/

structure Request.Publishes (r : Request) : Prop where
  method : r.method = "POST"
  path : r.path = "/api/ws/broadcast"

/-- The event that a request asks for, its body being what the extractor makes of it. -/
def Request.Asks (r : Request) (d : DispatchRequest) : Prop :=
  ∃ b, r.jsonBody BroadcastBody.decode = .ok b ∧ b.Asks d

/-- A byte that is no text does not complete an escape, and passes only in what nobody reads. -/
example :
    ["\x7b\"type\":\"\\", "\x7b\"type\":\"\\ud83d", "\x7b\"type\":\"x\",\"extra\":\"\\",
      "\x7b\"type\":\"x\",\"extra\":\""].map (fun opening =>
        let r : Request := {
          method := "POST", target := "/api/ws/broadcast"
          headers := [("content-type", Text.utf8 "application/json; ")]
          body := Text.utf8 opening ++ 0xFF :: Text.utf8 "\"\x7d" }
        (r.jsonBody BroadcastBody.decode).toOption.map BroadcastBody.messageType) =
      [none, none, none, some "x"] := by
  decide +kernel

namespace Site

variable {s : Site} {r : Request}

theorem respond_of_publishes (hr : r.Publishes) : s.respond r = s.broadcast r := by
  have hroute : Route.ofPath? ({ r with upgradable := false } : Request).path = some .broadcast := by
    show Route.ofPath? r.path = some .broadcast
    rw [hr.path]
    rfl
  unfold respond handle
  rw [hroute]
  dsimp only
  rw [if_pos (show r.method = Route.broadcast.method from hr.method)]
  rfl

theorem requested_of_unauthorised {e : ApiError} (he : r.authorize s.adminToken = .error e) :
    s.requested r = .error e := by
  unfold requested
  rw [he]
  rfl

theorem requested_eq_ok {d : DispatchRequest} :
    s.requested r = .ok d ↔ r.authorize s.adminToken = .ok () ∧ r.Asks d := by
  unfold requested Request.Asks
  cases ha : r.authorize s.adminToken with
  | error e =>
    constructor
    · nofun
    · rintro ⟨hok, -⟩
      cases hok
  | ok _ =>
    cases hb : r.jsonBody BroadcastBody.decode with
    | error e =>
      constructor
      · nofun
      · rintro ⟨-, b, hok, -⟩
        cases hok
    | ok b =>
      show b.request = .ok d ↔ _
      rw [BroadcastBody.request_eq_ok]
      constructor
      · exact fun hd => ⟨rfl, b, rfl, hd⟩
      · rintro ⟨-, b', hok, hd⟩
        cases hok
        exact hd

/-- What comes of a request: all is well with it and one event is queued, or nothing happens. -/
inductive Publishing (s : Site) (r : Request) : Site × Response → Prop
  | queued (d : DispatchRequest) (hd : s.requested r = .ok d)
      (hv : s.hub.service.running = true) (hroom : s.hub.service.hasRoom = true) :
      Publishing s r
        ({ s with hub := { s.hub with service := s.hub.service.enqueue (.dispatch d) none } },
          .json 202 queued)
  | full (d : DispatchRequest) (e : ApiError) (hd : s.requested r = .ok d)
      (hfull : ¬(s.hub.service.running = true ∧ s.hub.service.hasRoom = true)) :
      Publishing s r (s, e.response)
  | refused (e : ApiError) (he : s.requested r = .error e) : Publishing s r (s, e.response)

theorem publishing_broadcast (s : Site) (r : Request) : s.Publishing r (s.broadcast r) := by
  unfold broadcast
  cases hd : s.requested r with
  | error e => exact .refused e hd
  | ok d =>
    unfold Hub.dispatch Registry.Service.tryDispatch
    cases hv : s.hub.service.running with
    | false => exact .full d (dispatchError .hubStopped) hd (by simp [hv])
    | true =>
      cases hroom : s.hub.service.hasRoom with
      | false => exact .full d (dispatchError .queueFull) hd (by simp [hroom])
      | true => exact .queued d hd hv hroom

theorem status_response_ne (e : ApiError) : e.response.status ≠ 202 := by
  cases e <;> simp [ApiError.response, Response.json, ApiError.status]

theorem Publishing.accepted_iff {answer : Site × Response} (hp : s.Publishing r answer) :
    answer.2.status = 202 ↔ (∃ d, s.requested r = .ok d) ∧
      s.hub.service.running = true ∧ s.hub.service.hasRoom = true := by
  cases hp with
  | queued d hd hv hroom => exact ⟨fun _ => ⟨⟨d, hd⟩, hv, hroom⟩, fun _ => rfl⟩
  | full d e hd hfull =>
    exact ⟨fun hs => absurd hs (status_response_ne e), fun h => absurd h.2 hfull⟩
  | refused e he =>
    refine ⟨fun hs => absurd hs (status_response_ne e), ?_⟩
    rintro ⟨⟨d, hd⟩, -⟩
    rw [hd] at he
    cases he

theorem Publishing.queues {answer : Site × Response} (hp : s.Publishing r answer)
    (hs : answer.2.status = 202) : ∃ d, s.requested r = .ok d ∧
      answer.1.hub = { s.hub with service := s.hub.service.enqueue (.dispatch d) none } := by
  cases hp with
  | queued d hd => exact ⟨d, hd, rfl⟩
  | full d e => exact absurd hs (status_response_ne e)
  | refused e => exact absurd hs (status_response_ne e)

theorem Publishing.untouched {answer : Site × Response} (hp : s.Publishing r answer)
    (hs : answer.2.status ≠ 202) : answer.1.hub = s.hub := by
  cases hp with
  | queued d => exact absurd rfl hs
  | full d e => rfl
  | refused e => rfl

theorem respond_of_unauthorised {e : ApiError} (hr : r.Publishes)
    (he : r.authorize s.adminToken = .error e) : s.respond r = (s, e.response) := by
  rw [respond_of_publishes hr]
  unfold broadcast
  rw [requested_of_unauthorised he]

/-- What becomes of a request to publish on a hub, with an admin token configured or none. -/
structure Gates (hub : Hub) (configured : Option String) (r : Request) : Prop where
  accepted : ((create hub configured).respond r).2.status = 202 ↔
    r.Authorised configured ∧
    (∃ b, r.jsonBody BroadcastBody.decode = .ok b ∧
      (∃ c ∈ b.messageType.toList, Text.isBlank c = false) ∧
      ∀ name ∈ b.channels, ChannelName.flaw? name = none) ∧
    hub.service.running = true ∧ hub.service.hasRoom = true
  queued : ((create hub configured).respond r).2.status = 202 → ∃ d, r.Asks d ∧
    ((create hub configured).respond r).1.hub = { hub with service := { hub.service with
      queue := hub.service.queue ++ [⟨.dispatch d, none⟩] } }
  untouched : ((create hub configured).respond r).2.status ≠ 202 →
    ((create hub configured).respond r).1.hub = hub
  /-- Whoever may not publish learns nothing of what the body would have come to. -/
  unauthorised : ¬r.Authorised configured →
    ((create hub configured).respond r).2.status = 401 ∧
    ∀ r' : Request, r'.Publishes → r'.headers = r.headers →
      (create hub configured).respond r' = (create hub configured).respond r
  running : ∀ start ms, start.Fresh → Hub.Run start ms hub → hub.service.running = true

theorem gates (hub : Hub) (configured : Option String) (r : Request) (hr : r.Publishes) :
    Gates hub configured r := by
  have hgate : r.authorize (create hub configured).adminToken = .ok () ↔ r.Authorised configured :=
    r.authorize_iff configured
  have hasks : (∃ d, r.Asks d) ↔ ∃ b, r.jsonBody BroadcastBody.decode = .ok b ∧
      (∃ c ∈ b.messageType.toList, Text.isBlank c = false) ∧
      ∀ name ∈ b.channels, ChannelName.flaw? name = none := by
    simp only [← BroadcastBody.exists_asks, Request.Asks]
    exact exists_comm.trans (exists_congr fun b => exists_and_left)
  have hpublishing : (create hub configured).Publishing r ((create hub configured).respond r) :=
    respond_of_publishes hr ▸ publishing_broadcast _ r
  refine ⟨?_, fun hs => ?_, hpublishing.untouched, fun ha => ?_,
    fun start ms hs hrun => (hrun.ledger hs).running⟩
  · rw [hpublishing.accepted_iff, ← hasks, ← hgate]
    simp only [requested_eq_ok, exists_and_left]
    exact and_assoc
  · obtain ⟨d, hd, hhub⟩ := hpublishing.queues hs
    exact ⟨d, (requested_eq_ok.mp hd).2, hhub⟩
  · cases he : r.authorize (create hub configured).adminToken with
    | ok _ => exact absurd (hgate.mp he) ha
    | error e =>
      have hself := respond_of_unauthorised hr he
      refine ⟨?_, fun r' hr' hh => ?_⟩
      · rw [hself]
        exact Request.authorize_eq_error he
      · rw [hself]
        exact respond_of_unauthorised hr' ((Request.authorize_congr hh _).trans he)

def cramped : Hub := .start {} { commandBuffer := 1 } (fun _ _ => .error .invalidToken) [] 0

/-- A request that shows the token, with a body that gives its fields as a list. -/
def bulletin : Request where
  method := "POST"
  target := "/api/ws/broadcast?dry=1"
  headers := [("Authorization", Text.utf8 "Bearer s3cret"),
    ("content-type", Text.utf8 "application/json")]
  body := Text.utf8 "[\"note\", null, [\"system_notices\"]]"

theorem gates_bulletin : bulletin.Publishes ∧ Gates cramped (some "s3cret") bulletin ∧
    ((create cramped (some "s3cret")).respond bulletin).2.status = 202 :=
  ⟨⟨rfl, by decide +kernel⟩, gates _ _ _ ⟨rfl, by decide +kernel⟩, by decide +kernel⟩

end Site

end Http

end PushHub
