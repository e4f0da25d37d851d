import PushHub.ServerFrame
import PushHub.Proofs.Auth.SignedToken
import PushHub.Proofs.Channel
import PushHub.Proofs.Envelope

/-! What the hub says is read back from its text, as the frame that it is and as an event of its
kind. -/
namespace PushHub

open Json (Outline Decoded)
open Json.Members (row_of_check)

/-! ## Parts of a frame -/

theorem Json.Outline.asUInt64_ofUInt64 (n : UInt64) :
    Outline.asUInt64 (.number (some (.integer (.ofUInt64 n)))) = .ok n := by
  have hbounds : (0 : Int) ≤ n.toNat ∧ (n.toNat : Int) ≤ 0xffffffffffffffff := by
    have := n.toNat_lt
    omega
  unfold asUInt64 asInteger
  dsimp only [WireInt.ofUInt64]
  rw [if_pos hbounds]
  show Except.ok (UInt64.ofNat (n.toNat : Int).toNat) = _
  rw [Int.toNat_natCast, UInt64.ofNat_toNat]

theorem Json.Outline.readItems_map {α : Type} {read : Outline → Decoded α} {write : α → Json}
    (h : ∀ a, read (ofJson (write a)) = .ok a) (as : List α) (index : Nat) :
    readItems read index (itemsOfJson (as.map write)) = .ok as := by
  induction as generalizing index with
  | nil => rfl
  | cons a rest ih =>
    rw [List.map_cons, itemsOfJson, readItems, h, ih]
    rfl

theorem UserId.decode_toJson (u : UserId) : decode (.ofJson u.toJson) = .ok u := by
  have hvalue : Outline.asUInt64 (.ofJson u.toJson) = .ok u.value :=
    Outline.asUInt64_ofUInt64 u.value
  unfold decode
  rw [hvalue]
  simp only [bind, Except.bind, ofUInt64, dif_neg u.nonzero]

theorem ChannelName.decode_toJson (c : ChannelName) : decode (.ofJson c.toJson) = .ok c := by
  have hname : Outline.asText (.ofJson c.toJson) = .ok c.name := rfl
  unfold decode
  rw [hname]
  simp only [bind, Except.bind, parse_eq_ok.mpr rfl]

namespace ServerFrame

theorem asList_channels (cs : List ChannelName) :
    Outline.asList ChannelName.decode (.ofJson (.list (cs.map ChannelName.toJson))) = .ok cs :=
  Outline.readItems_map ChannelName.decode_toJson cs 0

theorem dataRow_single {α : Type} {variant name : String} {read : Outline → Decoded α} {v : Json}
    {a : α} (h : read (.ofJson v) = .ok a) :
    (dataRow variant [.of name read] (.ofJson (.object [(name, v)])) >>= fun row =>
      row.get name read) = .ok a := by
  have hfield : [Json.Field.of name read].find? (fun f => f.name == name) = some (.of name read) := by
    simp [Json.Field.of]
  have hrow : dataRow variant [.of name read] (.ofJson (.object [(name, v)])) =
      .ok [(name, .ofJson v)] := row_of_check hfield rfl (congrArg (Except.map _) h) .closed
  rw [hrow]
  show Json.Row.get [(name, .ofJson v)] name read = _
  simp [Json.Row.get, Json.Row.find?, h]

theorem readMessage_message (variant message : String) :
    readMessage variant (.ofJson (.object [("message", .text message)])) = .ok message :=
  dataRow_single rfl

theorem readChannels_channels (variant : String) (cs : List ChannelName) :
    readChannels variant (.ofJson (.object [("channels", .list (cs.map ChannelName.toJson))])) =
      .ok cs :=
  dataRow_single (asList_channels cs)

theorem dataRow_prompt (message : String) (secs : UInt64) :
    dataRow "AuthRequired" [.of "message" Outline.asText, .of "timeout_secs" Outline.asUInt64]
        (.ofJson (.object (authRequired message secs).members)) =
      .ok [("message", .text (some message)), ("timeout_secs", .ofJson (.nat secs))] := by
  have hsecs := Outline.asUInt64_ofUInt64 secs
  simp only [members, dataRow, Outline.ofJson, Outline.membersOfJson]
  refine (row_of_check rfl rfl rfl _).trans ?_
  exact row_of_check rfl rfl (congrArg (Except.map _) hsecs) _

/-- The data of every kind of frame is read under the name of its kind. -/
theorem ofData_members (f : ServerFrame) : ofData f.kind (.ofJson (.object f.members)) = .ok f := by
  cases f with
  | authRequired message secs =>
    have hsecs : Outline.asUInt64 (.ofJson (.nat secs)) = .ok secs :=
      Outline.asUInt64_ofUInt64 secs
    simp only [ofData, kind, dataRow_prompt]
    show (Outline.asUInt64 (.ofJson (.nat secs)) >>= fun secs =>
      Except.ok (authRequired message secs)) = _
    rw [hsecs]
    rfl
  | authSuccess user =>
    simp only [ofData, kind, members]
    rw [← bind_assoc, dataRow_single user.decode_toJson]
    rfl
  | authFailed message =>
    simp only [ofData, kind, members, readMessage_message]
    rfl
  | subscribed cs =>
    simp only [ofData, kind, members, readChannels_channels]
    rfl
  | unsubscribed cs =>
    simp only [ofData, kind, members, readChannels_channels]
    rfl
  | pong timestamp =>
    simp only [ofData, kind, members]
    rw [← bind_assoc, dataRow_single (Auth.SignedToken.asInt64_ofInt64 timestamp)]
    rfl
  | error message =>
    simp only [ofData, kind, members, readMessage_message]
    rfl

theorem asName_kind (f : ServerFrame) : (Outline.ofJson (.text f.kind)).asName kinds = .ok f.kind := by
  cases f <;> rfl

theorem decode_toJson (f : ServerFrame) : Json.decodeValue decode f.toJson = .ok f := by
  show ((Outline.ofJson (.text f.kind)).asName kinds >>= fun kind =>
    afterKind kind (.cons (some "data") (.ofJson (.object f.members)) .closed)) = .ok f
  rw [f.asName_kind]
  show (ofData f.kind (.ofJson (.object f.members)) >>= fun f => rest .closed >>= fun _ =>
    Except.ok f) = _
  rw [f.ofData_members]
  rfl

/-! ## Plain data -/

theorem plain_channels (cs : List ChannelName) :
    Json.areExact (cs.map ChannelName.toJson) = true ∧
      Json.areOrdered (cs.map ChannelName.toJson) = true ∧
      Json.itemsDepth (cs.map ChannelName.toJson) = 0 := by
  induction cs with
  | nil => exact ⟨rfl, rfl, rfl⟩
  | cons c rest ih => exact ⟨ih.1, ih.2.1, (Nat.zero_max _).trans ih.2.2⟩

theorem plain_channelMember (cs : List ChannelName) :
    (Json.object [("channels", .list (cs.map ChannelName.toJson))]).Plain := by
  obtain ⟨hexact, hordered, hdepth⟩ := plain_channels cs
  refine ⟨?_, ?_, ?_⟩
  · simp only [Json.isExact, Json.membersExact, hexact, Bool.and_self]
  · simp only [Json.isOrdered, Json.membersOrdered, hordered, Named.Sorted, Bool.and_self,
      List.pairwise_singleton, decide_true]
  · simp [Json.depth, Json.membersDepth, hdepth]

theorem plain_members (f : ServerFrame) : (Json.object f.members).Plain := by
  cases f with
  | authRequired message secs =>
    have hsorted : Named.Sorted
        [("message", Json.text message), ("timeout_secs", Json.nat secs)] :=
      List.pairwise_pair.mpr (show "message" < "timeout_secs" by decide)
    refine ⟨rfl, Json.isOrdered_object.mpr ⟨hsorted, fun p hp => ?_⟩, Nat.le_of_ble_eq_true rfl⟩
    rcases List.mem_cons.mp hp with rfl | hp
    · rfl
    · rw [List.mem_singleton.mp hp]
      rfl
  | subscribed cs => exact plain_channelMember cs
  | unsubscribed cs => exact plain_channelMember cs
  | _ => exact ⟨rfl, rfl, Nat.le_of_ble_eq_true rfl⟩

/-- What a text of the hub gives back: the frame itself, and an event whose type is its kind. No two
frames have one text. -/
structure Survives (f : ServerFrame) : Prop where
  frame : parse f.render = .ok f
  event : Envelope.parse f.render = .ok ⟨f.kind, .object f.members⟩
  alone : ∀ g : ServerFrame, g.render = f.render → g = f

theorem parse_render (f : ServerFrame) : parse f.render = .ok f :=
  Json.decodeText_render (Envelope.isExact_toJson f.plain_members.exact) f.decode_toJson

theorem survives (f : ServerFrame) : f.Survives where
  frame := f.parse_render
  event := Envelope.parse_render f.plain_members
  alone g h := by
    have hparse := g.parse_render
    rw [h, f.parse_render] at hparse
    exact (Except.ok.inj hparse).symm

end ServerFrame

end PushHub
