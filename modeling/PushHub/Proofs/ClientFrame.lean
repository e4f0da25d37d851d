import PushHub.Proofs.Attempts
import PushHub.Proofs.Channel
import PushHub.Proofs.Envelope
import PushHub.Proofs.Json.Record
import PushHub.Proofs.Session.Request

/-! What a client's text comes to, for every object that it can spell. The reference looks members up by
their names, in the object itself: it knows no order of members and no second reading of the data. -/
namespace PushHub

open Json (Outline Decoded Field)

/-! ## The reference -/

namespace Json

def text? : Json → Option String
  | .text s => some s
  | _ => none

def texts? : Json → Option (List String)
  | .list items => items.mapM text?
  | _ => none

def token? : Json → Option String := alone? "token" none text?

def names? : Json → Option (List String) := alone? "channels" (some []) texts?

end Json

namespace ChannelName

def Good (s : String) : Prop :=
  s ≠ "" ∧ s.utf8ByteSize ≤ 64 ∧ s.toList.all isNameChar = true

instance (s : String) : Decidable (Good s) := inferInstanceAs (Decidable (_ ∧ _ ∧ _))

theorem flaw?_eq_none {s : String} : flaw? s = none ↔ Good s := by
  have hempty : s.isEmpty = true ↔ s = "" := String.isEmpty_iff
  unfold flaw? Good
  rw [← Nat.not_lt, Ne, ← hempty]
  split
  · rename_i h
    exact iff_of_false nofun fun hgood => hgood.1 h
  · rename_i hne
    split
    · rename_i h
      exact iff_of_false nofun fun hgood => hgood.2.1 h
    · rename_i hshort
      cases s.toList.all isNameChar with
      | false => exact iff_of_false nofun fun hgood => Bool.false_ne_true hgood.2.2
      | true => exact iff_of_true rfl ⟨hne, hshort, rfl⟩

def ofText? (s : String) : Option ChannelName :=
  if h : Good s then some ⟨s, flaw?_eq_none.mpr h⟩ else none

theorem toOption_parse (s : String) : (parse s).toOption = ofText? s := by
  unfold ofText?
  split
  · rename_i h
    rw [toOption_eq_some, parse_eq_ok]
  · rename_i h
    obtain ⟨e, he⟩ := parse_eq_error.mpr (flaw?_eq_none.not.mpr h)
    rw [he]
    rfl

end ChannelName

namespace ClientFrame

/-- What becomes of a text, without the words that explain a refusal. -/
inductive Verdict
  | frame (f : ClientFrame)
  | tooLarge (size max : Nat)
  | malformed
  | unknownType (name : String)
deriving DecidableEq, Repr

def verdict : Except ClientFrameError ClientFrame → Verdict
  | .ok f => .frame f
  | .error (.tooLarge size max) => .tooLarge size max
  | .error (.malformed _) => .malformed
  | .error (.badChannel _) => .malformed
  | .error (.unknownType name) => .unknownType name

def followed? (data : Json) : Option (List ChannelName) :=
  data.names?.bind fun names => names.mapM ChannelName.ofText?

def verdictOf (kind : String) (data : Json) : Verdict :=
  if kind = "ping" then .frame .ping
  else if kind = "auth" then data.token?.elim .malformed fun token => .frame (.auth token)
  else if kind = "subscribe" then (followed? data).elim .malformed fun cs => .frame (.subscribe cs)
  else if kind = "unsubscribe" then (followed? data).elim .malformed fun cs => .frame (.unsubscribe cs)
  else .unknownType kind

/-- What the members of an object come to. -/
def reference (members : List (String × Json)) : Verdict :=
  ((members.lookup "type").bind Json.text?).elim .malformed fun kind =>
    verdictOf kind ((members.lookup "data").getD .null)

end ClientFrame

/-! ## Parts of data -/

namespace Json

theorem toOption_asText (v : Json) : (Outline.asText (.ofJson v)).toOption = v.text? := by
  cases v with
  | number n => cases n <;> rfl
  | _ => rfl

theorem toOption_readItems (items : List Json) (index : Nat) :
    (Outline.readItems Outline.asText index (Outline.itemsOfJson items)).toOption =
      items.mapM text? := by
  induction items generalizing index with
  | nil => rfl
  | cons v rest ih =>
    rw [Outline.itemsOfJson, Outline.readItems, toOption_bind, List.mapM_cons, ← ih (index + 1),
      ← toOption_asText]
    cases Outline.asText (.ofJson v) <;>
      cases Outline.readItems Outline.asText (index + 1) (Outline.itemsOfJson rest) <;> rfl

theorem toOption_asList (v : Json) :
    ((Outline.ofJson v).asList Outline.asText).toOption = v.texts? := by
  cases v with
  | list items => exact toOption_readItems items 0
  | number n => cases n <;> rfl
  | _ => rfl

theorem toOption_decodeText {α : Type} {read : Outline → Decoded α} {v : Json}
    (hv : v.isExact = true) :
    (decodeText read v.render).toOption = (decodeValue read v).toOption := by
  cases h : decodeValue read v with
  | ok a => rw [decodeText_render hv h]
  | error flaw =>
    unfold decodeValue at h
    unfold decodeText
    rw [Outline.ofString_render hv]
    dsimp only
    rw [h]
    rfl

/-! ## Data as it is kept -/

theorem text?_canonical (v : Json) : v.canonical.text? = v.text? := by
  cases v with
  | object members =>
    rw [canonical, ofMembers_eq]
    rfl
  | _ => rfl

theorem mapM_text?_canonical (items : List Json) :
    (canonicalItems items).mapM text? = items.mapM text? := by
  induction items with
  | nil => rfl
  | cons v rest ih => rw [canonicalItems, List.mapM_cons, List.mapM_cons, text?_canonical, ih]

theorem texts?_canonical (v : Json) : v.canonical.texts? = v.texts? := by
  cases v with
  | list items => exact mapM_text?_canonical items
  | object members =>
    rw [canonical, ofMembers_eq]
    rfl
  | _ => rfl

theorem nodup_canonicalMembers {members : List (String × Json)}
    (h : (members.map Prod.fst).Nodup) : ((canonicalMembers members).map Prod.fst).Nodup := by
  rw [canonicalMembers_eq, List.map_map]
  exact h

theorem lookup_canonicalMembers (members : List (String × Json)) (name : String) :
    (canonicalMembers members).lookup name = (members.lookup name).map canonical := by
  induction members with
  | nil => rfl
  | cons p rest ih =>
    rw [canonicalMembers, Named.lookup_cons, Named.lookup_cons, ih]
    split <;> rfl

theorem alone?_canonical {α : Type} {read : Json → Option α} {v : Json} (name : String)
    (default : Option α) (hdistinct : v.isDistinct = true)
    (hread : ∀ v : Json, read v.canonical = read v) :
    v.canonical.alone? name default read = v.alone? name default read := by
  cases v with
  | object members =>
    have hnodup := (isDistinct_object.mp hdistinct).1
    rw [canonical, ofMembers_eq, alone?, alone?,
      Named.lookup_collect (nodup_canonicalMembers hnodup), lookup_canonicalMembers]
    cases members.lookup name with
    | none => rfl
    | some w => exact hread w
  | list items =>
    cases items with
    | nil => rfl
    | cons w rest =>
      cases rest with
      | nil => exact hread w
      | cons => rfl
  | _ => rfl

theorem nodup_of_canonical {v : Json} {members : List (String × Json)}
    (h : v.canonical = .object members) : (members.map Prod.fst).Nodup := by
  cases v with
  | object ms =>
    rw [canonical, ofMembers_eq] at h
    cases h
    exact (Named.sorted_collect .nil).nodup
  | _ => cases h

end Json

namespace ClientFrame

open Json (toOption_asText toOption_asList)

variable {members : List (String × Json)} {kind : String} {data : Json}

theorem toOption_readToken (hdistinct : data.isDistinct = true) :
    (Json.decodeValue readToken data.canonical).toOption = data.token? := by
  have halone := Json.toOption_alone (v := data.canonical) (f := .of "token" Outline.asText)
    "struct AuthData" (Json.fail (.missingField "token")) (fun _ => rfl) (fun _ => rfl)
    fun _ => Json.nodup_of_canonical
  simp only [toOption_asText] at halone
  have hread : Json.decodeValue readToken data.canonical =
      (Outline.ofJson data.canonical).record "struct AuthData" [.of "token" Outline.asText] >>=
        fun row => (row.find? "token").elim (Json.fail (.missingField "token")) Outline.asText := by
    unfold Json.decodeValue readToken Json.Row.get
    congr 1
    funext row
    cases row.find? "token" <;> rfl
  rw [hread, Json.token?, ← Json.alone?_canonical "token" none hdistinct Json.text?_canonical]
  exact halone

theorem toOption_readNames (hdistinct : data.isDistinct = true) :
    (Json.decodeValue readNames data.canonical).toOption = data.names? := by
  have halone := Json.toOption_alone (v := data.canonical)
    (f := .defaulted "channels" (Outline.asList Outline.asText)) "struct ChannelsData" (.ok [])
    (fun _ => rfl) nofun fun _ => Json.nodup_of_canonical
  simp only [toOption_asList] at halone
  have hread : Json.decodeValue readNames data.canonical =
      (Outline.ofJson data.canonical).record "struct ChannelsData"
        [.defaulted "channels" (Outline.asList Outline.asText)] >>=
        fun row => (row.find? "channels").elim (.ok []) (Outline.asList Outline.asText) := by
    unfold Json.decodeValue readNames Json.Row.getD
    congr 1
    funext row
    cases row.find? "channels" <;> rfl
  rw [hread, Json.names?,
    ← Json.alone?_canonical "channels" (some []) hdistinct Json.texts?_canonical]
  exact halone

theorem toOption_channels (hdistinct : data.isDistinct = true) :
    (channels data.canonical).toOption = followed? data := by
  unfold channels followed?
  rw [toOption_bind, toOption_mapError, toOption_readNames hdistinct]
  congr 1
  funext names
  rw [toOption_mapError, ChannelName.parseAll, toOption_mapM]
  simp only [ChannelName.toOption_parse]

theorem verdict_bind {α : Type} {x : Except ClientFrameError α} (frame : α → ClientFrame)
    (hx : ∀ e, x = .error e → verdict (.error e) = .malformed) :
    verdict (x >>= fun a => .ok (frame a)) = x.toOption.elim .malformed fun a => .frame (frame a) := by
  cases x with
  | error e => exact hx e rfl
  | ok a => rfl

theorem malformed_of_mapError {α : Type} {x : Decoded α} {e : ClientFrameError}
    (h : x.mapError .malformed = .error e) : verdict (.error e) = .malformed := by
  cases x with
  | error flaw => cases h; rfl
  | ok a => cases h

theorem malformed_of_channels {e : ClientFrameError} (h : channels data = .error e) :
    verdict (.error e) = .malformed := by
  unfold channels at h
  cases hnames : (Json.decodeValue readNames data).mapError ClientFrameError.malformed with
  | error e' =>
    rw [hnames] at h
    cases h
    exact malformed_of_mapError hnames
  | ok names =>
    rw [hnames] at h
    cases hall : ChannelName.parseAll names with
    | error refusal =>
      change (ChannelName.parseAll names).mapError ClientFrameError.badChannel = _ at h
      rw [hall] at h
      cases h
      rfl
    | ok cs =>
      change (ChannelName.parseAll names).mapError ClientFrameError.badChannel = _ at h
      rw [hall] at h
      cases h

theorem verdict_ofData (hdistinct : data.isDistinct = true) :
    verdict (ofData kind data.canonical) = verdictOf kind data := by
  unfold ofData
  split
  · have htoken := verdict_bind (x := (Json.decodeValue readToken data.canonical).mapError .malformed)
      .auth fun _ => malformed_of_mapError
    rw [toOption_mapError, toOption_readToken hdistinct] at htoken
    exact htoken
  · have hchannels := verdict_bind (x := channels data.canonical) .subscribe fun _ =>
      malformed_of_channels
    rw [toOption_channels hdistinct] at hchannels
    exact hchannels
  · have hchannels := verdict_bind (x := channels data.canonical) .unsubscribe fun _ =>
      malformed_of_channels
    rw [toOption_channels hdistinct] at hchannels
    exact hchannels
  · rfl
  · rename_i hauth hsubscribe hunsubscribe hping
    rw [verdictOf, if_neg hping, if_neg hauth, if_neg hsubscribe, if_neg hunsubscribe]
    rfl

/-! ## Objects -/

/-- The members of an object that a text can spell: without doubles, of different names at every level,
and of at most 127 levels with the object itself. -/
structure Spells (members : List (String × Json)) : Prop where
  exact : (Json.object members).isExact = true
  distinct : (Json.object members).isDistinct = true
  shallow : (Json.object members).depth ≤ 127

theorem readData_of_lookup (hm : Spells members) {v : Json} (hv : members.lookup "data" = some v) :
    Envelope.readData (.ofJson v) = .ok v.canonical := by
  have hdepth : Json.membersDepth members < 127 := hm.shallow
  exact Envelope.readData_ofJson
    (Nat.le_of_lt_succ ((Json.membersDepth_lt_iff (by decide)).mp hdepth _ (Named.mem_of_lookup hv)))

theorem toOption_readLoose (hm : Spells members) :
    (Json.decodeValue readLoose (.object members)).toOption =
      ((members.lookup "type").bind Json.text?).map fun kind =>
        (kind, ((members.lookup "data").getD .null).canonical) := by
  have hnodup := (Json.isDistinct_object.mp hm.distinct).1
  unfold Json.decodeValue readLoose
  rcases Json.record_cases "struct RawFrame"
      [.of "type" Outline.asText, .defaulted "data" Envelope.readData] hnodup (by simp [Field.of, Field.defaulted]) with
    ⟨row, hrow, hfound⟩ | ⟨⟨e, he⟩, f, hf, v, e', hv, hwrong⟩
  · have htype : row.find? "type" = (members.lookup "type").map Outline.ofJson :=
      hfound _ List.mem_cons_self
    have hdata : row.find? "data" = (members.lookup "data").map Outline.ofJson :=
      hfound _ (List.mem_cons_of_mem _ List.mem_cons_self)
    have hget : row.getD "data" Envelope.readData .null =
        .ok ((members.lookup "data").getD .null).canonical := by
      unfold Json.Row.getD
      rw [hdata]
      cases hv : members.lookup "data" with
      | none => rfl
      | some v => exact readData_of_lookup hm hv
    rw [hrow]
    show (row.get "type" Outline.asText >>= fun kind => row.getD "data" Envelope.readData .null >>=
      fun data => Except.ok (kind, data)).toOption = _
    rw [hget, toOption_bind]
    unfold Json.Row.get
    rw [htype]
    cases members.lookup "type" with
    | none => rfl
    | some v =>
      show (Outline.asText (.ofJson v)).toOption.bind _ = _
      rw [toOption_asText, Option.bind_some]
      cases v.text? <;> rfl
  · rw [he]
    rcases List.mem_pair.mp hf with rfl | rfl
    · have htext : v.text? = none := (toOption_asText v).symm.trans
        (Json.toOption_of_check Outline.asText (fun _ => rfl) hwrong)
      rw [show members.lookup "type" = some v from hv, Option.bind_some, htext]
      rfl
    · -- Data of any shape is good, so the flaw cannot be there.
      have hnone := Json.toOption_of_check Envelope.readData (fun _ => rfl) hwrong
      rw [readData_of_lookup hm hv] at hnone
      cases hnone

theorem isDistinct_data (hm : Spells members) :
    ((members.lookup "data").getD .null).isDistinct = true := by
  cases hv : members.lookup "data" with
  | none => rfl
  | some v => exact (Json.isDistinct_object.mp hm.distinct).2 _ (Named.mem_of_lookup hv)

theorem verdict_parse (hm : Spells members) (max : Nat) :
    verdict (parse (Json.object members).render max) =
      if max < (Json.object members).render.utf8ByteSize then
        .tooLarge (Json.object members).render.utf8ByteSize max
      else reference members := by
  split
  · rename_i hlong
    rw [parse_of_long hlong]
    rfl
  · rename_i hsize
    have hread := (Json.toOption_decodeText hm.exact).trans (toOption_readLoose hm)
    rw [parse_of_size (Nat.le_of_not_lt hsize), reference]
    cases htype : (members.lookup "type").bind Json.text? with
    | none =>
      rw [htype] at hread
      cases hdecoded : Json.decodeText readLoose (Json.object members).render with
      | error flaw => rfl
      | ok p => rw [hdecoded] at hread; cases hread
    | some kind =>
      rw [htype] at hread
      rw [toOption_eq_some.mp hread]
      exact verdict_ofData (isDistinct_data hm)

/-- What a text comes to that spells an object. -/
structure Tolerant (members : List (String × Json)) : Prop where
  verdict : ∀ max, verdict (parse (Json.object members).render max) =
    if max < (Json.object members).render.utf8ByteSize then
      .tooLarge (Json.object members).render.utf8ByteSize max
    else reference members
  others : ∀ members', Spells members' → members'.lookup "type" = members.lookup "type" →
    members'.lookup "data" = members.lookup "data" → ∀ max,
    (Json.object members).render.utf8ByteSize ≤ max →
    (Json.object members').render.utf8ByteSize ≤ max →
    ClientFrame.verdict (parse (Json.object members').render max) =
      ClientFrame.verdict (parse (Json.object members).render max)

theorem Spells.tolerant (hm : Spells members) : Tolerant members where
  verdict := verdict_parse hm
  others members' hm' htype hdata max hsize hsize' := by
    rw [verdict_parse hm, verdict_parse hm', if_neg (Nat.not_lt.mpr hsize),
      if_neg (Nat.not_lt.mpr hsize'), reference, reference, htype, hdata]

/-- A request with its data in front of its type, a member too many at both levels, and a channel that
is named twice. -/
def wordy : List (String × Json) :=
  [("data", .object [("note", .list []), ("channels", .list [.text "b:2", .text "a", .text "b:2"])]),
    ("seq", .number (.integer (.ofInt64 (-7)))), ("type", .text "subscribe")]

theorem wordy_tolerant : Spells wordy ∧ Tolerant wordy ∧
    reference wordy = ((["b:2", "a", "b:2"].mapM ChannelName.ofText?).elim .malformed fun cs =>
      .frame (.subscribe cs)) ∧
    reference wordy ≠ .malformed :=
  have hw : Spells wordy := ⟨by decide, by decide +kernel, by decide⟩
  ⟨hw, hw.tolerant, by decide +kernel, by decide +kernel⟩

end ClientFrame

end PushHub
