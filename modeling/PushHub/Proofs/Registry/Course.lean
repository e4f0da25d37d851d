import PushHub.Proofs.Registry.History

/-! The course a registry takes: one action after the other, each with what it publishes and answers.
Entries are kept without order, so every action may come upon them in another one. -/
namespace PushHub.Registry

/-- An action, and the registry as it comes upon it. -/
structure Moment where
  before : Membership
  action : Action

namespace Moment

def outcome (t : Moment) : Outcome :=
  match t.action with
  | .command c => t.before.handle c
  | .outside n a => ⟨t.before.act (.outside n a), [], none⟩

def after (t : Moment) : Membership := t.outcome.state

def events (t : Moment) : List Event := t.outcome.events

def reply (t : Moment) : Option Reply := t.outcome.reply

theorem after_eq (t : Moment) : t.after = t.before.act t.action := by
  obtain ⟨m, a⟩ := t
  cases a <;> rfl

end Moment

def published (ts : List Moment) : List Event := ts.flatMap Moment.events

theorem published_snoc (ts : List Moment) (t : Moment) :
    published (ts ++ [t]) = published ts ++ t.events := by
  simp [published]

namespace Membership

def inOrder (m : Membership) (entries : List Handle) : Membership := { m with entries := entries }

section

variable {m : Membership} {entries : List Handle}

theorem keyed_inOrder (hk : m.Keyed) (hp : entries.Perm m.entries) : (m.inOrder entries).Keyed :=
  (hp.map Handle.user).nodup_iff.mpr hk

theorem find?_inOrder (hk : m.Keyed) (hp : entries.Perm m.entries) (u : UserId) :
    (m.inOrder entries).find? u = m.find? u := by
  have hk' := keyed_inOrder hk hp
  have hiff (h : Handle) : (m.inOrder entries).find? u = some h ↔ m.find? u = some h := by
    constructor
    · intro hf
      have hu := user_of_find? hf
      subst hu
      exact hk.find?_eq_some.mpr (hp.mem_iff.mp (mem_of_find? hf))
    · intro hf
      have hu := user_of_find? hf
      subst hu
      exact hk'.find?_eq_some.mpr (hp.mem_iff.mpr (mem_of_find? hf))
  exact Option.ext hiff

end

end Membership

/-- What a registry may go through from a state on. -/
inductive Course (start : Membership) : List Moment → Membership → Prop
  | nil : Course start [] start
  | snoc {ts : List Moment} {m : Membership} (hc : Course start ts m) {entries : List Handle}
      (hp : entries.Perm m.entries) (a : Action) :
      Course start (ts ++ [⟨m.inOrder entries, a⟩]) (Moment.mk (m.inOrder entries) a).after

/-- The course of some actions that always come upon the entries in the order they are kept in. -/
def trail (m : Membership) : List Action → List Moment
  | [] => []
  | a :: as => ⟨m, a⟩ :: trail (m.act a) as

namespace Course

variable {start m : Membership} {ts us : List Moment} {t : Moment}

theorem cons {a : Action} {entries : List Handle} (hp : entries.Perm start.entries)
    (hc : Course (Moment.mk (start.inOrder entries) a).after ts m) :
    Course start (⟨start.inOrder entries, a⟩ :: ts) m := by
  induction hc with
  | nil => exact .snoc .nil hp a
  | snoc _ hq b ih => exact .snoc ih hq b

theorem ofTrail (m : Membership) (as : List Action) : Course m (trail m as) (m.run as) := by
  induction as generalizing m with
  | nil => exact .nil
  | cons a as ih =>
    have hp : m.entries.Perm m.entries := .refl _
    refine .cons hp ?_
    rw [Moment.after_eq]
    exact ih (m.act a)

theorem split (hc : Course start (ts ++ t :: us) m) :
    (∃ m₁ entries, Course start ts m₁ ∧ entries.Perm m₁.entries ∧ t.before = m₁.inOrder entries) ∧
      Course t.after us m := by
  generalize hall : ts ++ t :: us = all at hc
  induction hc generalizing us with
  | nil => simp at hall
  | snoc hc hp a ih =>
    rcases List.eq_nil_or_concat us with rfl | ⟨us, b, rfl⟩
    · obtain ⟨rfl, hb⟩ := List.append_inj' hall rfl
      cases List.singleton_inj.mp hb
      exact ⟨⟨_, _, hc, hp, rfl⟩, .nil⟩
    · rw [List.concat_eq_append, ← List.cons_append, ← List.append_assoc] at hall
      obtain ⟨hts, hb⟩ := List.append_inj' hall rfl
      cases List.singleton_inj.mp hb
      obtain ⟨hfirst, hrest⟩ := ih hts
      rw [List.concat_eq_append]
      exact ⟨hfirst, .snoc hrest hp a⟩

theorem keyed (hc : Course start ts m) (hk : start.Keyed) : m.Keyed := by
  induction hc with
  | nil => exact hk
  | snoc hc hp a ih =>
    rw [Moment.after_eq]
    exact Membership.keyed_act (Membership.keyed_inOrder ih hp) a

theorem keyed_before (hc : Course start (ts ++ t :: us) m) (hk : start.Keyed) : t.before.Keyed := by
  obtain ⟨⟨m₁, entries, hc₁, hp, ht⟩, -⟩ := hc.split
  rw [ht]
  exact Membership.keyed_inOrder (hc₁.keyed hk) hp

end Course

end PushHub.Registry
