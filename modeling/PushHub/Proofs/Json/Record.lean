import PushHub.Proofs.Json.Canonical

/-! Records that are read from objects whose members have different names. The order of the members
does not matter, and neither do members that are no fields. -/
namespace PushHub.Json

open Outline (ofJson membersOfJson)

variable {fields : List Field} {members : List (String × Json)} {f : Field} {v : Json}

namespace Members

theorem find?_append (seen : Row) (name j : String) (o : Outline) :
    Row.find? (seen ++ [(name, o)]) j = (seen.find? j).or (if j = name then some o else none) := by
  unfold Row.find?
  rw [List.lookup_append, Named.lookup_cons]
  rfl

theorem row_cons_other {seen : Row} {name : String} {o : Outline} {rest : Members}
    (hfield : (fields.find? fun f => f.name == name) = none) (ho : o.skipped = .ok ()) :
    row fields seen (.cons (some name) o rest) = row fields seen rest := by
  rw [row, hfield]
  dsimp only
  rw [ho]
  rfl

theorem row_cons_field {seen : Row} {name : String} {o : Outline} {rest : Members}
    (hfield : (fields.find? fun f => f.name == name) = some f) :
    row fields seen (.cons (some name) o rest) =
      if (seen.find? name).isSome then fail (.duplicateField name)
      else within (.field name) (f.check o) >>= fun _ => row fields (seen ++ [(name, o)]) rest := by
  rw [row, hfield]
  dsimp only
  cases (seen.find? name).isSome <;> rfl

theorem exists_row_onto {seen : Row} (hdistinct : (members.map Prod.fst).Nodup)
    (hseen : ∀ p ∈ members, seen.find? p.1 = none)
    (hcheck : ∀ p ∈ members, ∀ f, (fields.find? fun f => f.name == p.1) = some f →
      f.check (ofJson p.2) = .ok ()) :
    ∃ row, Members.row fields seen (membersOfJson members) = .ok row ∧ ∀ f ∈ fields,
      row.find? f.name = (seen.find? f.name).or ((members.lookup f.name).map ofJson) := by
  induction members generalizing seen with
  | nil => exact ⟨seen, rfl, fun f _ => (Option.or_none).symm⟩
  | cons p rest ih =>
    obtain ⟨name, v⟩ := p
    obtain ⟨hfirst, hrest⟩ := List.nodup_cons.mp hdistinct
    have hfresh := hseen _ List.mem_cons_self
    have hothers : ∀ q ∈ rest, q.1 ≠ name := fun q hq heq =>
      hfirst (List.mem_map.mpr ⟨q, hq, heq⟩)
    have hlater := fun q hq => hcheck q (List.mem_cons_of_mem (name, v) hq)
    cases hfield : fields.find? fun f => f.name == name with
    | none =>
      obtain ⟨row, hrow, hfound⟩ := ih hrest (fun q hq => hseen q (List.mem_cons_of_mem _ hq)) hlater
      refine ⟨row, ?_, fun f hf => ?_⟩
      · rw [membersOfJson, row_cons_other hfield (Outline.skipped_ofJson v), hrow]
      · have hne : f.name ≠ name := fun heq =>
          List.find?_eq_none.mp hfield f hf (beq_iff_eq.mpr heq)
        rw [hfound f hf, Named.lookup_cons, if_neg hne]
    | some g =>
      have hseen' : ∀ q ∈ rest, Row.find? (seen ++ [(name, ofJson v)]) q.1 = none := by
        intro q hq
        rw [find?_append, hseen q (List.mem_cons_of_mem _ hq), if_neg (hothers q hq)]
        rfl
      obtain ⟨row, hrow, hfound⟩ := ih hrest hseen' hlater
      refine ⟨row, ?_, fun f hf => ?_⟩
      · rw [membersOfJson, row_of_check hfield hfresh (hcheck _ List.mem_cons_self g hfield), hrow]
      · rw [hfound f hf, find?_append, Named.lookup_cons]
        by_cases heq : f.name = name
        · have hnone : seen.find? f.name = none := heq ▸ hfresh
          rw [hnone, if_pos heq, if_pos heq]
          rfl
        · rw [if_neg heq, if_neg heq, Option.or_none]

theorem row_onto_eq_error {seen : Row} {e : Flaw} (hmem : ∃ p ∈ members, p.2 = v ∧
      (fields.find? fun f => f.name == p.1) = some f)
    (he : f.check (ofJson v) = .error e) :
    ∃ e, Members.row fields seen (membersOfJson members) = .error e := by
  induction members generalizing seen with
  | nil =>
    obtain ⟨p, hp, -⟩ := hmem
    cases hp
  | cons q rest ih =>
    obtain ⟨name, w⟩ := q
    obtain ⟨p, hp, hv, hfield⟩ := hmem
    rw [membersOfJson]
    rcases List.mem_cons.mp hp with rfl | hp
    · rw [row_cons_field hfield, show w = v from hv, he]
      split
      · exact ⟨_, rfl⟩
      · exact ⟨_, rfl⟩
    · have hrest (s : Row) : ∃ e, Members.row fields s (membersOfJson rest) = .error e :=
        ih ⟨p, hp, hv, hfield⟩
      cases hname : fields.find? fun f => f.name == name with
      | none =>
        rw [row_cons_other hname (Outline.skipped_ofJson w)]
        exact hrest seen
      | some g =>
        rw [row_cons_field hname]
        split
        · exact ⟨_, rfl⟩
        · cases g.check (ofJson w) with
          | error e' => exact ⟨_, rfl⟩
          | ok => exact hrest _

end Members

/-- A record is read from an object whose members have the types of its fields. -/
theorem exists_row (name : String) (hdistinct : (members.map Prod.fst).Nodup)
    (hcheck : ∀ f ∈ fields, ∀ v, members.lookup f.name = some v → f.check (ofJson v) = .ok ()) :
    ∃ row, (ofJson (.object members)).record name fields = .ok row ∧ ∀ f ∈ fields,
      row.find? f.name = (members.lookup f.name).map ofJson := by
  refine Members.exists_row_onto hdistinct (fun _ _ => rfl) fun p hp f hf => ?_
  have hname : f.name = p.1 := by simpa using List.find?_some hf
  refine hcheck f (List.mem_of_find?_eq_some hf) p.2 ?_
  rw [hname]
  exact Named.lookup_of_mem hdistinct hp

theorem record_eq_error (name : String) {e : Flaw}
    (hfield : (fields.find? fun g => g.name == f.name) = some f)
    (hv : members.lookup f.name = some v) (he : f.check (ofJson v) = .error e) :
    ∃ e, (ofJson (.object members)).record name fields = .error e :=
  Members.row_onto_eq_error ⟨(f.name, v), Named.mem_of_lookup hv, rfl, hfield⟩ he

/-- A record of fields with different names is read from an object, or a member is of a wrong type. -/
theorem record_cases (name : String) (fields : List Field)
    (hdistinct : (members.map Prod.fst).Nodup)
    (hfields : ∀ f ∈ fields, (fields.find? fun g => g.name == f.name) = some f) :
    (∃ row, (ofJson (.object members)).record name fields = .ok row ∧ ∀ f ∈ fields,
      row.find? f.name = (members.lookup f.name).map ofJson) ∨
    (∃ e, (ofJson (.object members)).record name fields = .error e) ∧
      ∃ f ∈ fields, ∃ v e, members.lookup f.name = some v ∧ f.check (ofJson v) = .error e := by
  by_cases hcheck : ∀ f ∈ fields, ∀ v, members.lookup f.name = some v → f.check (ofJson v) = .ok ()
  · exact .inl (exists_row name hdistinct hcheck)
  · simp only [Classical.not_forall] at hcheck
    obtain ⟨f, hf, v, hv, hwrong⟩ := hcheck
    cases he : f.check (ofJson v) with
    | ok => exact absurd he hwrong
    | error e => exact .inr ⟨record_eq_error name (hfields f hf) hv he, f, hf, v, e, hv, he⟩

/-! ## Records of one field -/

/-- A record of one field is the object that has it or the list of it alone, and may be empty if there
is something to take instead. -/
def alone? {α : Type} (name : String) (default : Option α) (read : Json → Option α) : Json → Option α
  | .object members => (members.lookup name).elim default read
  | .list [] => default
  | .list [v] => read v
  | _ => none

theorem record_surplus (name : String) (f : Field) (v w : Json) (rest : List Json) :
    ∃ e, (ofJson (.list (v :: w :: rest))).record name [f] = .error e := by
  unfold Outline.record ofJson
  simp only [Outline.itemsOfJson, Items.row]
  cases f.check (ofJson v) with
  | error e => exact ⟨_, rfl⟩
  | ok =>
    show ∃ e, (if (Items.count _).2 then fail (.surplus _) else fail .malformed) = .error e
    split
    · exact ⟨_, rfl⟩
    · exact ⟨_, rfl⟩

section

variable {α : Type} {read : Outline → Decoded α}

theorem toOption_of_check (read : Outline → Decoded α)
    (hread : ∀ o, f.check o = (read o).map fun _ => ()) {o : Outline} {e : Flaw}
    (h : f.check o = .error e) : (read o).toOption = none := by
  rw [hread] at h
  cases hr : read o with
  | error => rfl
  | ok => rw [hr] at h; cases h

theorem toOption_alone (name : String) (missing : Decoded α)
    (hread : ∀ o, f.check o = (read o).map fun _ => ())
    (hmissing : f.optional = false → missing.toOption = none)
    (hdistinct : ∀ members, v = .object members → (members.map Prod.fst).Nodup) :
    ((ofJson v).record name [f] >>= fun row => (row.find? f.name).elim missing read).toOption =
      v.alone? f.name missing.toOption fun v => (read (ofJson v)).toOption := by
  cases v with
  | object members =>
    rcases record_cases name [f] (hdistinct members rfl) (by simp) with
      ⟨row, hrow, hfound⟩ | ⟨⟨e, he⟩, g, hg, v, e', hv, hwrong⟩
    · rw [hrow]
      show ((row.find? f.name).elim missing read).toOption = _
      rw [hfound f List.mem_cons_self, alone?]
      cases members.lookup f.name <;> rfl
    · cases List.mem_singleton.mp hg
      rw [he, alone?, hv]
      exact (toOption_of_check read hread hwrong).symm
  | list items =>
    match items with
    | [] =>
      simp only [ofJson, Outline.itemsOfJson, Outline.record, Items.row, alone?]
      cases ho : f.optional with
      | false => exact (hmissing ho).symm
      | true => rfl
    | [v] =>
      have hrow : (ofJson (.list [v])).record name [f] =
          within (.item 0) (f.check (ofJson v)) >>= fun _ => .ok [(f.name, ofJson v)] := rfl
      have hself : Row.find? [(f.name, ofJson v)] f.name = some (ofJson v) :=
        (Named.lookup_cons f.name _ []).trans (if_pos rfl)
      rw [hrow, hread, alone?]
      cases hv : read (ofJson v) with
      | error e => rfl
      | ok a =>
        show ((Row.find? [(f.name, ofJson v)] f.name).elim missing read).toOption = _
        rw [hself]
        exact congrArg Except.toOption hv
    | v :: w :: rest =>
      obtain ⟨e, he⟩ := record_surplus name f v w rest
      rw [he]
      rfl
  | number n => cases n <;> rfl
  | _ => rfl

end

end PushHub.Json
