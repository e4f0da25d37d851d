import PushHub.Event
import PushHub.Proofs.Envelope
import PushHub.Proofs.Json.Record
import PushHub.Proofs.ServerFrame

/-! The notifications with agreed field names are read back from their data as they were published. A
field that is absent stays absent, and one that is there stays there, be it empty or zero. -/
namespace PushHub

open Json (Outline Decoded Field Row)
open Json.Outline (ofJson)

namespace Json

variable {members : List (String × Json)} {name : String} {v : Json}

/-- Values that hold no others, doubles left out. -/
def isLeaf : Json → Bool
  | .number n => (Json.number n).isExact
  | .list _ => false
  | .object _ => false
  | _ => true

theorem plain_of_leaf (hv : v.isLeaf = true) :
    v.isExact = true ∧ v.isOrdered = true ∧ v.depth = 0 := by
  cases v with
  | number n => exact ⟨hv, rfl, rfl⟩
  | list items => cases hv
  | object members => cases hv
  | _ => exact ⟨rfl, rfl, rfl⟩

theorem membersExact_iff :
    membersExact members = true ↔ ∀ p ∈ members, p.2.isExact = true := by
  induction members with
  | nil => exact ⟨fun _ _ hp => (List.not_mem_nil hp).elim, fun _ => rfl⟩
  | cons p rest ih => rw [membersExact, Bool.and_eq_true, ih, List.forall_mem_cons]

theorem plain_ofMembers (h : ∀ p ∈ members, p.2.isLeaf = true) : (ofMembers members).Plain := by
  have hleaf : ∀ p ∈ Named.collect [] members, p.2.isLeaf = true := by
    intro p hp
    rcases Named.mem_collect hp with hp | hp
    · cases hp
    · exact h p hp
  rw [ofMembers_eq]
  constructor
  · exact membersExact_iff.mpr fun p hp => (plain_of_leaf (hleaf p hp)).1
  · exact isOrdered_object.mpr
      ⟨Named.sorted_collect .nil, fun p hp => (plain_of_leaf (hleaf p hp)).2.1⟩
  · have hflat : membersDepth (Named.collect [] members) < 1 :=
      (membersDepth_lt_iff Nat.one_pos).mpr fun p hp => by
        rw [(plain_of_leaf (hleaf p hp)).2.2]
        exact Nat.one_pos
    rw [depth]
    omega

theorem exists_row_ofMembers (name : String) (fields : List Field)
    (hdistinct : (members.map Prod.fst).Nodup)
    (hcheck : ∀ f ∈ fields, ∀ v, members.lookup f.name = some v → f.check (ofJson v) = .ok ()) :
    ∃ row, (ofJson (.ofMembers members)).record name fields = .ok row ∧ ∀ f ∈ fields,
      row.find? f.name = (members.lookup f.name).map ofJson := by
  have hsame : ∀ j, (Named.collect [] members).lookup j = members.lookup j := by
    intro j
    rw [Named.lookup_collect hdistinct]
    exact Option.or_none
  have hsorted : Named.Sorted (Named.collect [] members) := Named.sorted_collect .nil
  obtain ⟨row, hrow, hfound⟩ := exists_row name hsorted.nodup fun f hf v hv =>
    hcheck f hf v (hsame f.name ▸ hv)
  refine ⟨row, ?_, fun f hf => ?_⟩
  · rw [ofMembers_eq, hrow]
  · rw [hfound f hf, hsame]

namespace Row

variable {α : Type} {row : Row} {read : Outline → Decoded α}

theorem get_of_find? {o : Outline} (h : row.find? name = some o) : row.get name read = read o := by
  unfold get
  rw [h]

theorem getD_optional (write : α → Json) {a : Option α}
    (hread : ∀ a, Outline.asOption read (ofJson (write a)) = .ok (some a))
    (h : row.find? name = (a.map write).map ofJson) :
    row.getD name (Outline.asOption read) none = .ok a := by
  unfold getD
  rw [h]
  cases a with
  | none => rfl
  | some a => exact hread a

end Row

theorem Outline.asUInt8_ofUInt8 (n : UInt8) :
    Outline.asUInt8 (.number (some (.integer (.ofUInt8 n)))) = .ok n := by
  have hbounds : (0 : Int) ≤ n.toNat ∧ (n.toNat : Int) ≤ 255 := by
    have := n.toNat_lt
    omega
  unfold asUInt8 asInteger
  dsimp only [WireInt.ofUInt8]
  rw [if_pos hbounds]
  show Except.ok (UInt8.ofNat (n.toNat : Int).toNat) = _
  rw [Int.toNat_natCast, UInt8.ofNat_toNat]

end Json

/-! ## Optional members -/

def present (slots : List (String × Option Json)) : List (String × Json) :=
  slots.flatMap fun s => optionalMember s.1 s.2

section

variable {slots : List (String × Option Json)} {fields : List Field}

theorem mem_optionalMember {name : String} {o : Option Json} {p : String × Json} :
    p ∈ optionalMember name o ↔ p.1 = name ∧ o = some p.2 := by
  obtain ⟨k, v⟩ := p
  cases o <;> simp [optionalMember, eq_comm]

theorem sublist_present : List.Sublist ((present slots).map Prod.fst) (slots.map Prod.fst) := by
  induction slots with
  | nil => exact List.Sublist.refl _
  | cons s rest ih =>
    obtain ⟨name, o⟩ := s
    cases o with
    | none => exact ih.cons name
    | some v => exact ih.cons_cons name

theorem lookup_present (hdistinct : (slots.map Prod.fst).Nodup) (j : String) :
    (present slots).lookup j = (slots.lookup j).join := by
  induction slots with
  | nil => rfl
  | cons s rest ih =>
    obtain ⟨name, o⟩ := s
    obtain ⟨hfirst, hrest⟩ := List.nodup_cons.mp hdistinct
    have hcons : present ((name, o) :: rest) = optionalMember name o ++ present rest := rfl
    rw [hcons, List.lookup_append, ih hrest, Named.lookup_cons]
    cases o with
    | none =>
      by_cases hj : j = name
      · rw [if_pos hj, hj, Named.lookup_eq_none hfirst]
        rfl
      · rw [if_neg hj]
        rfl
    | some v =>
      rw [optionalMember, Named.lookup_cons]
      by_cases hj : j = name
      · rw [if_pos hj, if_pos hj]
        rfl
      · rw [if_neg hj, if_neg hj]
        rfl

theorem plain_present (h : ∀ s ∈ slots, ∀ v, s.2 = some v → v.isLeaf = true) :
    (Json.ofMembers (present slots)).Plain := by
  refine Json.plain_ofMembers fun p hp => ?_
  obtain ⟨s, hs, hp⟩ := List.mem_flatMap.mp hp
  exact h s hs p.2 (mem_optionalMember.mp hp).2

theorem exists_row_present (name : String) (slots : List (String × Option Json))
    (fields : List Field) (hdistinct : (slots.map Prod.fst).Nodup)
    (hcheck : ∀ f ∈ fields, ∀ v, slots.lookup f.name = some (some v) →
      f.check (ofJson v) = .ok ()) :
    ∃ row, (ofJson (.ofMembers (present slots))).record name fields = .ok row ∧ ∀ f ∈ fields,
      row.find? f.name = (slots.lookup f.name).join.map ofJson := by
  obtain ⟨row, hrow, hfound⟩ := Json.exists_row_ofMembers name fields
    (hdistinct.sublist sublist_present) fun f hf v hv => by
      rw [lookup_present hdistinct, Option.join_eq_some_iff] at hv
      exact hcheck f hf v hv
  exact ⟨row, hrow, fun f hf => by rw [hfound f hf, lookup_present hdistinct]⟩

end

/-! ## The three kinds -/

/-- What is written of a notification comes back: its data is plain, and it is read as what it was. -/
structure ReadsBack {α : Type} (write : α → List (String × Json)) (read : Outline → Decoded α) :
    Prop where
  plain : ∀ a, (Json.ofMembers (write a)).Plain
  read : ∀ a, Json.decodeValue read (.ofMembers (write a)) = .ok a

namespace TaskUpdate

def slots (t : TaskUpdate) : List (String × Option Json) :=
  [("task_id", some (.nat t.taskId)), ("status", some (.text t.status)),
    ("progress", t.progress.map fun p => .number (.integer (.ofUInt8 p))),
    ("message", t.message.map .text)]

theorem members_eq (t : TaskUpdate) : t.members = present t.slots := by
  simp [members, present, slots, optionalMember]

theorem asOption_progress (p : UInt8) :
    Outline.asOption Outline.asUInt8 (ofJson (.number (.integer (.ofUInt8 p)))) = .ok (some p) :=
  congrArg (Except.map some) (Outline.asUInt8_ofUInt8 p)

theorem readsBack : ReadsBack members decode where
  plain t := by
    rw [members_eq]
    refine plain_present ?_
    simp only [slots, List.forall_mem_cons]
    refine ⟨?_, ?_, ?_, ?_, fun s hs => absurd hs List.not_mem_nil⟩
    · rintro v ⟨rfl⟩
      rfl
    · rintro v ⟨rfl⟩
      rfl
    · intro v hv
      obtain ⟨p, -, rfl⟩ := Option.map_eq_some_iff.mp hv
      rfl
    · intro v hv
      obtain ⟨s, -, rfl⟩ := Option.map_eq_some_iff.mp hv
      rfl
  read t := by
    have hid : Outline.asUInt64 (ofJson (.nat t.taskId)) = .ok t.taskId :=
      Outline.asUInt64_ofUInt64 t.taskId
    obtain ⟨row, hrow, hfound⟩ := exists_row_present "struct TaskUpdate" t.slots fields
      (by simp [slots]) (by
        simp only [fields, List.forall_mem_cons]
        refine ⟨?_, ?_, ?_, ?_, fun f hf => absurd hf List.not_mem_nil⟩
        · rintro v ⟨rfl⟩
          exact congrArg (Except.map _) hid
        · rintro v ⟨rfl⟩
          rfl
        · intro v hv
          obtain ⟨p, -, rfl⟩ := Option.map_eq_some_iff.mp (Option.some.inj hv)
          exact congrArg (Except.map _) (asOption_progress p)
        · intro v hv
          obtain ⟨s, -, rfl⟩ := Option.map_eq_some_iff.mp (Option.some.inj hv)
          rfl)
    simp only [fields, List.forall_mem_cons] at hfound
    obtain ⟨htask, hstatus, hprogress, hmessage, -⟩ := hfound
    have htask : row.get "task_id" Outline.asUInt64 = .ok t.taskId :=
      (Row.get_of_find? htask).trans hid
    have hstatus : row.get "status" Outline.asText = .ok t.status := Row.get_of_find? hstatus
    have hprogress : row.getD "progress" (Outline.asOption Outline.asUInt8) none = .ok t.progress :=
      Row.getD_optional _ asOption_progress hprogress
    have hmessage : row.getD "message" (Outline.asOption Outline.asText) none = .ok t.message :=
      Row.getD_optional .text (fun _ => rfl) hmessage
    simp only [Json.decodeValue, decode, members_eq, hrow, bind, Except.bind, htask, hstatus,
      hprogress, hmessage]

end TaskUpdate

namespace AccountStatusChange

def slots (a : AccountStatusChange) : List (String × Option Json) :=
  [("account_id", some (.nat a.accountId)), ("status", some (.text a.status)),
    ("reason", a.reason.map .text)]

theorem members_eq (a : AccountStatusChange) : a.members = present a.slots := by
  simp [members, present, slots, optionalMember]

theorem readsBack : ReadsBack members decode where
  plain a := by
    rw [members_eq]
    refine plain_present ?_
    simp only [slots, List.forall_mem_cons]
    refine ⟨?_, ?_, ?_, fun s hs => absurd hs List.not_mem_nil⟩
    · rintro v ⟨rfl⟩
      rfl
    · rintro v ⟨rfl⟩
      rfl
    · intro v hv
      obtain ⟨s, -, rfl⟩ := Option.map_eq_some_iff.mp hv
      rfl
  read a := by
    have hid : Outline.asUInt64 (ofJson (.nat a.accountId)) = .ok a.accountId :=
      Outline.asUInt64_ofUInt64 a.accountId
    obtain ⟨row, hrow, hfound⟩ := exists_row_present "struct AccountStatusChange" a.slots fields
      (by simp [slots]) (by
        simp only [fields, List.forall_mem_cons]
        refine ⟨?_, ?_, ?_, fun f hf => absurd hf List.not_mem_nil⟩
        · rintro v ⟨rfl⟩
          exact congrArg (Except.map _) hid
        · rintro v ⟨rfl⟩
          rfl
        · intro v hv
          obtain ⟨s, -, rfl⟩ := Option.map_eq_some_iff.mp (Option.some.inj hv)
          rfl)
    simp only [fields, List.forall_mem_cons] at hfound
    obtain ⟨haccount, hstatus, hreason, -⟩ := hfound
    have haccount : row.get "account_id" Outline.asUInt64 = .ok a.accountId :=
      (Row.get_of_find? haccount).trans hid
    have hstatus : row.get "status" Outline.asText = .ok a.status := Row.get_of_find? hstatus
    have hreason : row.getD "reason" (Outline.asOption Outline.asText) none = .ok a.reason :=
      Row.getD_optional .text (fun _ => rfl) hreason
    simp only [Json.decodeValue, decode, members_eq, hrow, bind, Except.bind, haccount, hstatus,
      hreason]

end AccountStatusChange

theorem NoticeLevel.decode_name (l : NoticeLevel) : decode (ofJson (.text l.name)) = .ok l := by
  cases l <;> rfl

namespace SystemNotice

def slots (n : SystemNotice) : List (String × Option Json) :=
  [("level", some (.text n.level.name)), ("title", some (.text n.title)),
    ("message", some (.text n.message))]

theorem members_eq (n : SystemNotice) : n.members = present n.slots := rfl

theorem readsBack : ReadsBack members decode where
  plain n := by
    rw [members_eq]
    refine plain_present ?_
    simp only [slots, List.forall_mem_cons]
    refine ⟨?_, ?_, ?_, fun s hs => absurd hs List.not_mem_nil⟩ <;>
    · rintro v ⟨rfl⟩
      rfl
  read n := by
    obtain ⟨row, hrow, hfound⟩ := exists_row_present "struct SystemNotice" n.slots fields
      (by simp [slots]) (by
        simp only [fields, List.forall_mem_cons]
        refine ⟨?_, ?_, ?_, fun f hf => absurd hf List.not_mem_nil⟩
        · rintro v ⟨rfl⟩
          exact congrArg (Except.map _) n.level.decode_name
        · rintro v ⟨rfl⟩
          rfl
        · rintro v ⟨rfl⟩
          rfl)
    simp only [fields, List.forall_mem_cons] at hfound
    obtain ⟨hlevel, htitle, hmessage, -⟩ := hfound
    have hlevel : row.get "level" NoticeLevel.decode = .ok n.level :=
      (Row.get_of_find? hlevel).trans n.level.decode_name
    have htitle : row.get "title" Outline.asText = .ok n.title := Row.get_of_find? htitle
    have hmessage : row.get "message" Outline.asText = .ok n.message := Row.get_of_find? hmessage
    simp only [Json.decodeValue, decode, members_eq, hrow, bind, Except.bind, hlevel, htitle,
      hmessage]

end SystemNotice

end PushHub
