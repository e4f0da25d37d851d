import PushHub.Proofs.Json.RoundTrip
import PushHub.Proofs.Text.Named

/-! What is kept of a value that is read: its objects have their members in the order of the names.
A value that has them so already, and nests no deeper than the reader allows, is kept as it is. -/
namespace PushHub.Json

/-! ## Depth and order -/

mutual

/-- How many lists and objects of a value stand inside one another. -/
def depth : Json → Nat
  | .list items => itemsDepth items + 1
  | .object members => membersDepth members + 1
  | _ => 0

def itemsDepth : List Json → Nat
  | [] => 0
  | v :: rest => max (depth v) (itemsDepth rest)

def membersDepth : List (String × Json) → Nat
  | [] => 0
  | (_, v) :: rest => max (depth v) (membersDepth rest)

end

mutual

def isOrdered : Json → Bool
  | .list items => areOrdered items
  | .object members => decide (Named.Sorted members) && membersOrdered members
  | _ => true

def areOrdered : List Json → Bool
  | [] => true
  | v :: rest => isOrdered v && areOrdered rest

def membersOrdered : List (String × Json) → Bool
  | [] => true
  | (_, v) :: rest => isOrdered v && membersOrdered rest

end

mutual

def isDistinct : Json → Bool
  | .list items => areDistinct items
  | .object members => decide (members.map Prod.fst).Nodup && membersDistinct members
  | _ => true

def areDistinct : List Json → Bool
  | [] => true
  | v :: rest => isDistinct v && areDistinct rest

def membersDistinct : List (String × Json) → Bool
  | [] => true
  | (_, v) :: rest => isDistinct v && membersDistinct rest

end

mutual

/-- A value as it is kept, of members that have the same name the last. -/
def canonical : Json → Json
  | .list items => .list (canonicalItems items)
  | .object members => .ofMembers (canonicalMembers members)
  | v => v

def canonicalItems : List Json → List Json
  | [] => []
  | v :: rest => canonical v :: canonicalItems rest

def canonicalMembers : List (String × Json) → List (String × Json)
  | [] => []
  | (k, v) :: rest => (k, canonical v) :: canonicalMembers rest

end

variable {v : Json} {items : List Json} {members : List (String × Json)} {n : Nat}

theorem membersDepth_lt_iff (hn : 0 < n) : membersDepth members < n ↔ ∀ p ∈ members, p.2.depth < n := by
  induction members with
  | nil => exact ⟨fun _ _ hp => (List.not_mem_nil hp).elim, fun _ => hn⟩
  | cons p rest ih => rw [membersDepth, Nat.max_lt, ih, List.forall_mem_cons]

theorem membersOrdered_iff : membersOrdered members = true ↔ ∀ p ∈ members, p.2.isOrdered = true := by
  induction members with
  | nil => exact ⟨fun _ _ hp => (List.not_mem_nil hp).elim, fun _ => rfl⟩
  | cons p rest ih => rw [membersOrdered, Bool.and_eq_true, ih, List.forall_mem_cons]

theorem membersDistinct_iff :
    membersDistinct members = true ↔ ∀ p ∈ members, p.2.isDistinct = true := by
  induction members with
  | nil => exact ⟨fun _ _ hp => (List.not_mem_nil hp).elim, fun _ => rfl⟩
  | cons p rest ih => rw [membersDistinct, Bool.and_eq_true, ih, List.forall_mem_cons]

theorem isDistinct_object : (Json.object members).isDistinct = true ↔
    (members.map Prod.fst).Nodup ∧ ∀ p ∈ members, p.2.isDistinct = true := by
  rw [isDistinct, Bool.and_eq_true, decide_eq_true_iff, membersDistinct_iff]

theorem isOrdered_object : (Json.object members).isOrdered = true ↔
    Named.Sorted members ∧ ∀ p ∈ members, p.2.isOrdered = true := by
  rw [isOrdered, Bool.and_eq_true, decide_eq_true_iff, membersOrdered_iff]

/-! ## Objects -/

theorem insertMember_eq (k : String) (v : Json) (members : List (String × Json)) :
    insertMember k v members = Named.insert k v members := by
  induction members with
  | nil => rfl
  | cons p rest ih => rw [insertMember, Named.insert, ih]

theorem ofMembers_eq (members : List (String × Json)) :
    ofMembers members = .object (Named.collect [] members) := by
  simp only [ofMembers, insertMember_eq]
  rfl

theorem canonicalMembers_eq (members : List (String × Json)) :
    canonicalMembers members = members.map fun p => (p.1, p.2.canonical) := by
  induction members with
  | nil => rfl
  | cons p rest ih => rw [canonicalMembers, List.map_cons, ih]

mutual

theorem canonical_of_ordered : ∀ v : Json, v.isOrdered = true → v.canonical = v
  | .null, _ => rfl
  | .bool _, _ => rfl
  | .number _, _ => rfl
  | .text _, _ => rfl
  | .list items, h => congrArg Json.list (canonicalItems_of_ordered items h)
  | .object members, h => by
    obtain ⟨hsorted, hmembers⟩ := Bool.and_eq_true_iff.mp h
    have hcollect : Named.collect [] members = members :=
      Named.collect_of_sorted (of_decide_eq_true hsorted)
    rw [canonical, canonicalMembers_of_ordered members hmembers, ofMembers_eq, hcollect]

theorem canonicalItems_of_ordered : ∀ items : List Json, areOrdered items = true →
    canonicalItems items = items
  | [], _ => rfl
  | v :: rest, h => by
    obtain ⟨hv, hrest⟩ := Bool.and_eq_true_iff.mp h
    rw [canonicalItems, canonical_of_ordered v hv, canonicalItems_of_ordered rest hrest]

theorem canonicalMembers_of_ordered : ∀ members : List (String × Json),
    membersOrdered members = true → canonicalMembers members = members
  | [], _ => rfl
  | (k, v) :: rest, h => by
    obtain ⟨hv, hrest⟩ := Bool.and_eq_true_iff.mp h
    rw [canonicalMembers, canonical_of_ordered v hv, canonicalMembers_of_ordered rest hrest]

end

/-! ## What is read -/

namespace Outline

mutual

theorem isWhole_ofJson : ∀ v : Json, (ofJson v).isWhole = true
  | .null => rfl
  | .bool _ => rfl
  | .number _ => rfl
  | .text _ => rfl
  | .list items => isWhole_itemsOfJson items
  | .object members => isWhole_membersOfJson members

theorem isWhole_itemsOfJson : ∀ items : List Json, Items.isWhole (itemsOfJson items) = true
  | [] => rfl
  | v :: rest => Bool.and_eq_true_iff.mpr ⟨isWhole_ofJson v, isWhole_itemsOfJson rest⟩

theorem isWhole_membersOfJson : ∀ members : List (String × Json),
    Members.isWhole (membersOfJson members) = true
  | [] => rfl
  | (_, v) :: rest => Bool.and_eq_true_iff.mpr ⟨isWhole_ofJson v, isWhole_membersOfJson rest⟩

end

theorem skipped_ofJson (v : Json) : (ofJson v).skipped = .ok () := if_pos (isWhole_ofJson v)

theorem values?_cons (room : Nat) (k : String) (o : Outline) (rest : Members) :
    Members.values? room (.cons (some k) o rest) =
      (o.value? room).bind fun v => (Members.values? room rest).map ((k, v) :: ·) := by
  cases hv : o.value? room <;> simp [Members.values?, hv]

mutual

theorem value?_ofJson : ∀ (v : Json) {room : Nat}, v.depth < room →
    (ofJson v).value? room = some v.canonical
  | .null, _, _ => rfl
  | .bool _, _, _ => rfl
  | .number _, _, _ => rfl
  | .text _, _, _ => rfl
  | .list items, room, h => by
    have hroom : itemsDepth items < room - 1 := Nat.lt_sub_of_add_lt h
    rw [ofJson, value?, if_neg (by omega), values?_itemsOfJson items hroom]
    rfl
  | .object members, room, h => by
    have hroom : membersDepth members < room - 1 := Nat.lt_sub_of_add_lt h
    rw [ofJson, value?, if_neg (by omega), values?_membersOfJson members hroom]
    rfl

theorem values?_itemsOfJson : ∀ (items : List Json) {room : Nat}, itemsDepth items < room →
    Items.values? room (itemsOfJson items) = some (canonicalItems items)
  | [], _, _ => rfl
  | v :: rest, room, h => by
    obtain ⟨hv, hrest⟩ := Nat.max_lt.mp h
    rw [itemsOfJson, Items.values?, value?_ofJson v hv]
    dsimp only
    rw [values?_itemsOfJson rest hrest]
    rfl

theorem values?_membersOfJson : ∀ (members : List (String × Json)) {room : Nat},
    membersDepth members < room →
    Members.values? room (membersOfJson members) = some (canonicalMembers members)
  | [], _, _ => rfl
  | (k, v) :: rest, room, h => by
    obtain ⟨hv, hrest⟩ := Nat.max_lt.mp h
    rw [membersOfJson, values?_cons, value?_ofJson v hv, values?_membersOfJson rest hrest]
    rfl

end

mutual

theorem ordered_of_value? : ∀ (o : Outline) {room : Nat} {v : Json}, 0 < room →
    o.value? room = some v → v.isOrdered = true ∧ v.depth < room
  | .null, _, _, hroom, h => by
    cases h
    exact ⟨rfl, hroom⟩
  | .bool _, _, _, hroom, h => by
    cases h
    exact ⟨rfl, hroom⟩
  | .number n, _, _, hroom, h => by
    obtain ⟨n, -, rfl⟩ := Option.map_eq_some_iff.mp h
    exact ⟨rfl, hroom⟩
  | .text s, _, _, hroom, h => by
    obtain ⟨s, -, rfl⟩ := Option.map_eq_some_iff.mp h
    exact ⟨rfl, hroom⟩
  | .fault, _, _, _, h => by cases h
  | .list items, room, v, _, h => by
    rw [value?] at h
    split at h
    · cases h
    · rename_i hroom
      obtain ⟨vs, hvs, rfl⟩ := Option.map_eq_some_iff.mp h
      obtain ⟨hordered, hdepth⟩ := ordered_of_values? items (by omega) hvs
      exact ⟨hordered, Nat.add_lt_of_lt_sub hdepth⟩
  | .object members, room, v, _, h => by
    rw [value?] at h
    split at h
    · cases h
    · rename_i hroom
      obtain ⟨ms, hms, rfl⟩ := Option.map_eq_some_iff.mp h
      have hread := ordered_of_members? members (by omega) hms
      -- Of members that share a name only the last is kept, so what is kept was read.
      have hmem : ∀ p ∈ Named.collect [] ms, p.2.isOrdered = true ∧ p.2.depth < room - 1 := by
        intro p hp
        rcases Named.mem_collect hp with hp | hp
        · cases hp
        · exact hread p hp
      have hdepth : membersDepth (Named.collect [] ms) < room - 1 :=
        (membersDepth_lt_iff (by omega)).mpr fun p hp => (hmem p hp).2
      rw [ofMembers_eq]
      exact ⟨isOrdered_object.mpr ⟨Named.sorted_collect .nil, fun p hp => (hmem p hp).1⟩,
        Nat.add_lt_of_lt_sub hdepth⟩

theorem ordered_of_values? : ∀ (items : Items) {room : Nat} {vs : List Json}, 0 < room →
    Items.values? room items = some vs → areOrdered vs = true ∧ itemsDepth vs < room
  | .closed, _, _, hroom, h => by
    cases h
    exact ⟨rfl, hroom⟩
  | .fault, _, _, _, h => by cases h
  | .cons o rest, room, vs, hroom, h => by
    rw [Items.values?] at h
    cases hv : o.value? room with
    | none => rw [hv] at h; cases h
    | some v =>
      rw [hv] at h
      obtain ⟨others, hothers, rfl⟩ := Option.map_eq_some_iff.mp h
      obtain ⟨hordered, hdepth⟩ := ordered_of_value? o hroom hv
      obtain ⟨hrest, hrestDepth⟩ := ordered_of_values? rest hroom hothers
      exact ⟨Bool.and_eq_true_iff.mpr ⟨hordered, hrest⟩, Nat.max_lt.mpr ⟨hdepth, hrestDepth⟩⟩

theorem ordered_of_members? : ∀ (members : Members) {room : Nat} {ms : List (String × Json)},
    0 < room → Members.values? room members = some ms →
    ∀ p ∈ ms, p.2.isOrdered = true ∧ p.2.depth < room
  | .closed, _, _, _, h => by
    cases h
    exact fun _ hp => nomatch hp
  | .fault, _, _, _, h => by cases h
  | .cons none _ _, _, _, _, h => by cases h
  | .cons (some k) o rest, room, ms, hroom, h => by
    rw [values?_cons] at h
    obtain ⟨v, hv, hrest⟩ := Option.bind_eq_some_iff.mp h
    obtain ⟨others, hothers, rfl⟩ := Option.map_eq_some_iff.mp hrest
    exact List.forall_mem_cons.mpr
      ⟨ordered_of_value? o hroom hv, ordered_of_members? rest hroom hothers⟩

end

end Outline

end PushHub.Json
