import PushHub.Proofs.Http.Broadcast
import PushHub.Proofs.Hub.Credential

/-! The one form of failures. Whatever is wrong with a request to one of the routes, the answer is a
status, the code that goes with it, and a message, as JSON. Only a query that names the token more than
once is turned away in another form, in plain text and before the route looks at it. -/
namespace PushHub.Http

/-- The code in which a failure repeats its status. -/
def failureCode? : Nat → Option String
  | 400 => some "BAD_REQUEST"
  | 401 => some "UNAUTHORIZED"
  | 500 => some "INTERNAL_ERROR"
  | 503 => some "SERVICE_UNAVAILABLE"
  | _ => none

/-- A failure in the one form that there is for failures. -/
def Response.Uniform (r : Response) : Prop :=
  ∃ code message, failureCode? r.status = some code ∧ r.contentType = "application/json" ∧
    r.body = (Json.object
      [("status", .text "error"), ("code", .text code), ("message", .text message)]).render

theorem ApiError.uniform_response (e : ApiError) : e.response.Uniform := by
  cases e <;> exact ⟨_, _, rfl, rfl, rfl⟩

namespace Site

variable {s : Site} {r : Request}

theorem not_uniform_duplicateToken : ¬duplicateToken.Uniform := by
  rintro ⟨code, message, -, htype, -⟩
  exact absurd htype (by decide)

theorem uniform_upgrade (r : Request) (user : Option UserId)
    (hs : 400 ≤ (upgrade r user).head.status) : (upgrade r user).head.Uniform := by
  unfold upgrade at hs ⊢
  split
  · exact ApiError.uniform_response _
  · rename_i hnone
    rw [hnone] at hs
    exact absurd hs (Nat.not_le_of_lt (show 101 < 400 by decide))

theorem connect_of_repeated (hr : 2 ≤ r.tokens.length) : s.connect r = .response duplicateToken := by
  unfold connect
  split
  · rename_i hnil
    rw [Request.tokens, hnil] at hr
    exact absurd hr (by decide)
  · rename_i token hone
    rw [Request.tokens, hone] at hr
    exact absurd hr (Nat.not_succ_le_self 1)
  · rfl

theorem uniform_connect (hr : r.tokens.length < 2) (hs : 400 ≤ (s.connect r).head.status) :
    (s.connect r).head.Uniform := by
  unfold connect at hs ⊢
  split
  · exact ApiError.uniform_response _
  · rename_i token hone
    rw [hone] at hs
    dsimp only at hs
    split
    · exact ApiError.uniform_response _
    · rename_i hgiven
      rw [if_neg hgiven] at hs
      split
      · rename_i u hu
        rw [hu] at hs
        exact uniform_upgrade r _ hs
      · exact ApiError.uniform_response _
  · rename_i hnil hone
    match htokens : r.tokens with
    | [] => exact absurd htokens hnil
    | [token] => exact absurd htokens (hone token)
    | _ :: _ :: _ =>
      rw [htokens] at hr
      exact absurd hr (by simp)

theorem uniform_status (hs : 400 ≤ s.status.2.status) : s.status.2.Uniform := by
  unfold status at hs ⊢
  generalize s.hub.status = o at hs
  obtain ⟨hub, result⟩ := o
  cases result with
  | ok t => exact absurd hs (Nat.not_le_of_lt (show 200 < 400 by decide))
  | error e => exact ApiError.uniform_response _

theorem uniform_broadcast (hs : 400 ≤ (s.broadcast r).2.status) : (s.broadcast r).2.Uniform := by
  have hp := publishing_broadcast s r
  generalize s.broadcast r = answer at hs hp
  cases hp with
  | queued d => exact absurd hs (Nat.not_le_of_lt (show 202 < 400 by decide))
  | full d e => exact e.uniform_response
  | refused e => exact e.uniform_response

theorem handle_of_route {route : Route} (hroute : Route.ofPath? r.path = some route)
    (hm : r.method = route.method) : s.handle r = s.take r route := by
  unfold handle
  rw [hroute]
  exact if_pos hm

theorem uniform_take (route : Route) (hr : route = .socketWithToken → r.tokens.length < 2)
    (hs : 400 ≤ (s.take r route).2.head.status) : (s.take r route).2.head.Uniform := by
  cases route with
  | socket =>
    simp only [take] at hs ⊢
    exact uniform_upgrade r none hs
  | socketWithToken =>
    simp only [take] at hs ⊢
    exact uniform_connect (hr rfl) hs
  | status =>
    simp only [take, Reply.head] at hs ⊢
    exact uniform_status hs
  | broadcast =>
    simp only [take, Reply.head] at hs ⊢
    exact uniform_broadcast hs
  | health => exact absurd hs (Nat.not_le_of_lt (show 200 < 400 by decide))

theorem take_of_repeated (hr : 2 ≤ r.tokens.length) :
    (s.take r .socketWithToken).2.head = duplicateToken := by
  simp only [take, connect_of_repeated hr, Reply.head]

/-- Every failure of every route has the one form, unless it is that of a repeated token. -/
theorem uniform_iff (hub : Hub) (configured : Option String) (r : Request) (route : Route)
    (hroute : Route.ofPath? r.path = some route) (hm : r.method = route.method) :
    (400 ≤ ((create hub configured).handle r).2.head.status →
      ((create hub configured).handle r).2.head.Uniform) ↔
    ¬(route = .socketWithToken ∧ 2 ≤ r.tokens.length) := by
  rw [handle_of_route hroute hm]
  constructor
  · rintro huniform ⟨rfl, hr⟩
    rw [take_of_repeated hr] at huniform
    exact not_uniform_duplicateToken (huniform (Nat.le_refl 400))
  · intro hnot
    exact uniform_take route fun hconnect => Nat.lt_of_not_le fun hr => hnot ⟨hconnect, hr⟩

def unproved : Request := { method := "GET", target := "/ws/connect?token=a&x=b" }

theorem uniform_unproved : Route.ofPath? unproved.path = some .socketWithToken ∧
    unproved.method = "GET" ∧ unproved.tokens = ["a"] ∧
    ((create .plain none).handle unproved).2.head.status = 401 ∧
    ((create .plain none).handle unproved).2.head.Uniform := by
  have hroute : Route.ofPath? unproved.path = some .socketWithToken := by decide +kernel
  have hone : unproved.tokens = ["a"] := by decide +kernel
  have hstatus : ((create .plain none).handle unproved).2.head.status = 401 := by decide +kernel
  refine ⟨hroute, rfl, hone, hstatus, ?_⟩
  refine (uniform_iff .plain none unproved _ hroute rfl).mpr ?_ (by rw [hstatus]; decide)
  rw [hone]
  exact fun h => absurd h.2 (by decide)

def undecided : Request := { method := "GET", target := "/ws/connect?token=a&token=b" }

theorem not_all_uniform : ¬∀ (hub : Hub) (configured : Option String) (r : Request) (route : Route),
    Route.ofPath? r.path = some route → r.method = route.method →
    400 ≤ ((create hub configured).handle r).2.head.status →
    ((create hub configured).handle r).2.head.Uniform := by
  intro hall
  have hroute : Route.ofPath? undecided.path = some .socketWithToken := by decide +kernel
  have hanswer : ((create .plain none).handle undecided).2.head = duplicateToken := by
    decide +kernel
  have huniform := hall .plain none undecided _ hroute rfl
  rw [hanswer] at huniform
  exact not_uniform_duplicateToken (huniform (by decide))

end Site

end PushHub.Http
