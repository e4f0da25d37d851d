import PushHub.Auth.Verifier
import Mathlib.Data.List.Basic

/-! Verifiers that are asked one after the other. To ask one and then another is an associative
operation, and a chain is the product of its members; so a chain within a chain can as well be taken
apart. Among refusals the most telling one is kept. -/
namespace PushHub.Auth

namespace AuthError

variable {d e : AuthError}

theorem rank_eq_zero : e.rank = 0 ↔ e = .noVerifier := by
  cases e <;> simp [rank]

theorem eq_of_rank (hd : ∀ reason, d ≠ .signing reason) (he : ∀ reason, e ≠ .signing reason)
    (h : d.rank = e.rank) : d = e := by
  cases d <;> cases e <;> simp_all [rank]

/-! ## The more telling one -/

theorem worse_eq (d e : AuthError) : d.worse e = d ∨ d.worse e = e := by
  unfold worse
  split
  · exact .inr rfl
  · exact .inl rfl

theorem rank_worse (d e : AuthError) : (d.worse e).rank = max d.rank e.rank := by
  unfold worse
  split
  · rename_i h
    exact (Nat.max_eq_right (Nat.le_of_lt h)).symm
  · rename_i h
    exact (Nat.max_eq_left (Nat.le_of_not_lt h)).symm

theorem worse_assoc (c d e : AuthError) : (c.worse d).worse e = c.worse (d.worse e) := by
  by_cases hcd : c.rank < d.rank
  · have hc : ∀ x, d.rank ≤ x.rank → c.worse x = x := fun x hx => if_pos (Nat.lt_of_lt_of_le hcd hx)
    rw [hc d (Nat.le_refl _), hc (d.worse e) (rank_worse d e ▸ Nat.le_max_left _ _)]
  · have hd : c.worse d = c := if_neg hcd
    rw [hd]
    by_cases hde : d.rank < e.rank
    · rw [show d.worse e = e from if_pos hde]
    · have hce : ¬c.rank < e.rank := by omega
      rw [show d.worse e = d from if_neg hde, hd]
      exact if_neg hce

theorem noVerifier_worse (e : AuthError) : noVerifier.worse e = e := by
  cases e <;> rfl

theorem worse_noVerifier (e : AuthError) : e.worse .noVerifier = e := by
  cases e <;> rfl

end AuthError

namespace Verifier

variable {now : UInt64} {token : String} {u : UserId} {d e : AuthError} {v w : Verifier}
  {vs ws : List Verifier}

/-! ## One and then another -/

/-- The second one is asked if the first one refuses. -/
def otherwise (v w : Verifier) : Verifier := fun now token =>
  match v now token with
  | .ok u => .ok u
  | .error e => (w now token).mapError e.worse

theorem otherwise_of_ok (w : Verifier) (h : v now token = .ok u) :
    v.otherwise w now token = .ok u := by
  unfold otherwise
  rw [h]

theorem otherwise_of_error (w : Verifier) (h : v now token = .error e) :
    v.otherwise w now token = (w now token).mapError e.worse := by
  unfold otherwise
  rw [h]

theorem otherwise_eq_ok : v.otherwise w now token = .ok u ↔
    v now token = .ok u ∨ (∃ e, v now token = .error e) ∧ w now token = .ok u := by
  cases hv : v now token with
  | ok u' =>
    rw [otherwise_of_ok w hv]
    simp
  | error e =>
    rw [otherwise_of_error w hv]
    cases w now token <;> simp [Except.mapError]

theorem otherwise_eq_error : v.otherwise w now token = .error e ↔
    ∃ c d, v now token = .error c ∧ w now token = .error d ∧ e = c.worse d := by
  cases hv : v now token with
  | ok u' =>
    rw [otherwise_of_ok w hv]
    simp
  | error c =>
    rw [otherwise_of_error w hv]
    cases w now token <;> simp [Except.mapError, eq_comm]

theorem otherwise_assoc (u v w : Verifier) :
    (u.otherwise v).otherwise w = u.otherwise (v.otherwise w) := by
  funext now token
  cases hu : u now token with
  | ok a => rw [otherwise_of_ok _ (otherwise_of_ok v hu), otherwise_of_ok _ hu]
  | error c =>
    rw [otherwise_of_error _ hu]
    cases hv : v now token with
    | ok b =>
      have huv : u.otherwise v now token = .ok b := by
        rw [otherwise_of_error v hu, hv]
        rfl
      rw [otherwise_of_ok w huv, otherwise_of_ok w hv]
      rfl
    | error d =>
      have huv : u.otherwise v now token = .error (c.worse d) := by
        rw [otherwise_of_error v hu, hv]
        rfl
      rw [otherwise_of_error w huv, otherwise_of_error w hv]
      cases w now token with
      | ok b => rfl
      | error e => exact congrArg Except.error (AuthError.worse_assoc c d e)

/-! ## Chains -/

theorem ask_eq (now : UInt64) (token : String) (best : AuthError) (vs : List Verifier) :
    ask now token best vs = (chain vs now token).mapError best.worse := by
  unfold chain
  induction vs generalizing best with
  | nil => exact congrArg Except.error (AuthError.worse_noVerifier best).symm
  | cons v vs ih =>
    unfold ask
    cases v now token with
    | ok u => rfl
    | error d =>
      dsimp only
      rw [ih, ih (AuthError.noVerifier.worse d), AuthError.noVerifier_worse]
      cases ask now token .noVerifier vs with
      | ok u => rfl
      | error e => exact congrArg Except.error (AuthError.worse_assoc best d e)

theorem chain_cons (v : Verifier) (vs : List Verifier) :
    chain (v :: vs) = v.otherwise (chain vs) := by
  funext now token
  cases hv : v now token with
  | ok u =>
    rw [otherwise_of_ok _ hv, chain, ask, hv]
  | error e =>
    rw [otherwise_of_error _ hv, chain, ask, hv]
    dsimp only
    rw [ask_eq, AuthError.noVerifier_worse]

theorem chain_nil_otherwise (w : Verifier) : (chain []).otherwise w = w := by
  funext now token
  have hnobody : chain [] now token = .error .noVerifier := rfl
  rw [otherwise_of_error w hnobody]
  cases w now token with
  | ok u => rfl
  | error e => exact congrArg Except.error (AuthError.noVerifier_worse e)

theorem chain_append (vs ws : List Verifier) : chain (vs ++ ws) = (chain vs).otherwise (chain ws) := by
  induction vs with
  | nil => exact (chain_nil_otherwise _).symm
  | cons v vs ih => rw [List.cons_append, chain_cons, chain_cons, ih, otherwise_assoc]

theorem chain_eq_ok : chain vs now token = .ok u ↔ ∃ before v after, vs = before ++ v :: after ∧
    v now token = .ok u ∧ ∀ w ∈ before, ∃ e, w now token = .error e := by
  induction vs with
  | nil =>
    constructor
    · rintro ⟨⟩
    · rintro ⟨before, v, after, hvs, -⟩
      simp at hvs
  | cons v vs ih =>
    rw [chain_cons, otherwise_eq_ok, ih]
    constructor
    · rintro (hv | ⟨hv, before, w, after, rfl, hw, hbefore⟩)
      · exact ⟨[], v, vs, rfl, hv, by simp⟩
      · exact ⟨v :: before, w, after, rfl, hw, List.forall_mem_cons.mpr ⟨hv, hbefore⟩⟩
    · rintro ⟨before, w, after, hvs, hw, hbefore⟩
      cases before with
      | nil =>
        obtain ⟨rfl, rfl⟩ := List.cons.inj hvs
        exact .inl hw
      | cons x before =>
        obtain ⟨rfl, rfl⟩ := List.cons.inj hvs
        obtain ⟨hx, hbefore⟩ := List.forall_mem_cons.mp hbefore
        exact .inr ⟨hx, before, w, after, rfl, hw, hbefore⟩

/-- An error that stands for the refusals of all: it is one of theirs, and none tells more. -/
structure Strongest (now : UInt64) (token : String) (vs : List Verifier) (e : AuthError) : Prop where
  theirs : (vs = [] ∧ e = .noVerifier) ∨ ∃ v ∈ vs, v now token = .error e
  highest : ∀ v ∈ vs, ∃ d, v now token = .error d ∧ d.rank ≤ e.rank

theorem strongest_of_chain (h : chain vs now token = .error e) : Strongest now token vs e := by
  induction vs generalizing e with
  | nil =>
    cases h
    exact ⟨.inl ⟨rfl, rfl⟩, by simp⟩
  | cons v vs ih =>
    rw [chain_cons, otherwise_eq_error] at h
    obtain ⟨c, d, hv, hvs, rfl⟩ := h
    obtain ⟨htheirs, hhighest⟩ := ih hvs
    have hrank := AuthError.rank_worse c d
    constructor
    · right
      rcases AuthError.worse_eq c d with heq | heq
      · exact ⟨v, List.mem_cons_self, hv.trans (congrArg Except.error heq.symm)⟩
      · rcases htheirs with ⟨-, rfl⟩ | ⟨w, hw, hd⟩
        · exact ⟨v, List.mem_cons_self, AuthError.worse_noVerifier c ▸ hv⟩
        · exact ⟨w, List.mem_cons_of_mem v hw, hd.trans (congrArg Except.error heq.symm)⟩
    · intro w hw
      rcases List.mem_cons.mp hw with rfl | hw
      · exact ⟨c, hv, hrank ▸ Nat.le_max_left _ _⟩
      · obtain ⟨b, hb, hle⟩ := hhighest w hw
        exact ⟨b, hb, hrank ▸ Nat.le_trans hle (Nat.le_max_right _ _)⟩

theorem exists_error_of_chain (h : ∀ v ∈ vs, ∃ e, v now token = .error e) :
    ∃ e, chain vs now token = .error e := by
  cases hchain : chain vs now token with
  | error e => exact ⟨e, rfl⟩
  | ok u =>
    obtain ⟨before, v, after, rfl, hv, -⟩ := chain_eq_ok.mp hchain
    obtain ⟨e, he⟩ := h v (by simp)
    rw [hv] at he
    cases he

namespace Strongest

theorem rank_le (hd : Strongest now token vs d) (he : Strongest now token ws e)
    (h : ∀ v ∈ vs, v ∈ ws) : d.rank ≤ e.rank := by
  rcases hd.theirs with ⟨-, rfl⟩ | ⟨v, hv, hvd⟩
  · exact Nat.zero_le _
  · obtain ⟨c, hc, hle⟩ := he.highest v (h v hv)
    rw [hvd] at hc
    cases hc
    exact hle

theorem ne_signing (he : Strongest now token vs e)
    (h : ∀ v ∈ vs, ∀ reason, v now token ≠ .error (.signing reason)) (reason : String) :
    e ≠ .signing reason := by
  rintro rfl
  rcases he.theirs with ⟨-, heq⟩ | ⟨v, hv, heq⟩
  · cases heq
  · exact h v hv reason heq

end Strongest

theorem chain_eq_noVerifier : chain vs now token = .error .noVerifier ↔
    ∀ v ∈ vs, v now token = .error .noVerifier := by
  constructor
  · intro h v hv
    obtain ⟨d, hd, hle⟩ := (strongest_of_chain h).highest v hv
    rw [hd, AuthError.rank_eq_zero.mp (Nat.le_zero.mp hle)]
  · intro h
    obtain ⟨e, he⟩ := exists_error_of_chain fun v hv => ⟨_, h v hv⟩
    rcases (strongest_of_chain he).theirs with ⟨-, rfl⟩ | ⟨v, hv, hve⟩
    · exact he
    · rw [he, ← hve, h v hv]

/-- Refusals do not depend on the order, as long as nothing was to be signed. -/
theorem chain_perm (hp : ws.Perm vs) (hall : ∀ v ∈ vs, ∃ e, v now token = .error e)
    (hs : ∀ v ∈ vs, ∀ reason, v now token ≠ .error (.signing reason)) :
    chain ws now token = chain vs now token := by
  have hiff : ∀ v, v ∈ ws ↔ v ∈ vs := fun v => hp.mem_iff
  obtain ⟨d, hd⟩ := exists_error_of_chain fun v hv => hall v ((hiff v).mp hv)
  obtain ⟨e, he⟩ := exists_error_of_chain hall
  have hds := strongest_of_chain hd
  have hes := strongest_of_chain he
  have hrank : d.rank = e.rank := Nat.le_antisymm
    (hds.rank_le hes fun v => (hiff v).mp) (hes.rank_le hds fun v => (hiff v).mpr)
  rw [hd, he, AuthError.eq_of_rank (hds.ne_signing fun v hv => hs v ((hiff v).mp hv))
    (hes.ne_signing hs) hrank]

/-! ## Chains within chains -/

/-- Some chains among the verifiers, or within such a chain at any depth, make way for their
members. -/
inductive Unnests : List Verifier → List Verifier → Prop
  | nil : Unnests [] []
  | keep (v : Verifier) {vs ws : List Verifier} (h : Unnests vs ws) : Unnests (v :: vs) (v :: ws)
  | within {inner inner' vs ws : List Verifier} (hi : Unnests inner inner') (h : Unnests vs ws) :
      Unnests (chain inner :: vs) (chain inner' :: ws)
  | apart {inner inner' vs ws : List Verifier} (hi : Unnests inner inner') (h : Unnests vs ws) :
      Unnests (chain inner :: vs) (inner' ++ ws)

theorem Unnests.chain_eq (h : Unnests vs ws) : chain ws = chain vs := by
  induction h with
  | nil => rfl
  | keep v h ih => rw [chain_cons, chain_cons, ih]
  | within hi h ihi ih => rw [chain_cons, chain_cons, ihi, ih]
  | apart hi h ihi ih => rw [chain_append, chain_cons, ihi, ih]

/-- How a chain of verifiers answers. -/
structure Consults (vs : List Verifier) : Prop where
  accepts : ∀ now token u, chain vs now token = .ok u ↔ ∃ before v after,
    vs = before ++ v :: after ∧ v now token = .ok u ∧ ∀ w ∈ before, ∃ e, w now token = .error e
  refuses : ∀ now token, (¬∃ u, chain vs now token = .ok u) →
    ∃ e, chain vs now token = .error e ∧ Strongest now token vs e
  ranked : AuthError.noVerifier.rank < AuthError.invalidToken.rank ∧
    AuthError.invalidToken.rank < AuthError.unknownUser.rank ∧
    AuthError.unknownUser.rank < AuthError.expired.rank
  nobody : ∀ now token, chain vs now token = .error .noVerifier ↔
    ∀ v ∈ vs, v now token = .error .noVerifier
  anyOrder : ∀ now token ws, ws.Perm vs → (∀ v ∈ vs, ∃ e, v now token = .error e) →
    (∀ v ∈ vs, ∀ reason, v now token ≠ .error (.signing reason)) →
      chain ws now token = chain vs now token
  flat : ∀ ws, Unnests vs ws → chain ws = chain vs

theorem chain_consults (vs : List Verifier) : Consults vs where
  accepts _ _ _ := chain_eq_ok
  refuses now token h := by
    cases hchain : chain vs now token with
    | ok u => exact absurd ⟨u, hchain⟩ h
    | error e => exact ⟨e, rfl, strongest_of_chain hchain⟩
  ranked := by decide
  nobody _ _ := chain_eq_noVerifier
  anyOrder _ _ _ hp hall hs := chain_perm hp hall hs
  flat _ h := h.chain_eq

/-- Two tables that know one token in common, and a verifier for which every token is out of date. -/
def older : TokenTable := ⟨[("a", ⟨51, by decide⟩)]⟩

def newer : TokenTable := ⟨[("a", ⟨52, by decide⟩), ("b", ⟨53, by decide⟩)]⟩

def outdated : Verifier := fun _ _ => .error .expired

/-- A token that none of them knows is out of date in whatever order they are asked, and a token that
two of them know is that of the first, also if it is asked within a chain. -/
theorem patchwork_consults :
    chain [newer.verifier, older.verifier, outdated] 0 "c" = .error .expired ∧
    chain [outdated, newer.verifier, older.verifier] 0 "c" = .error .expired ∧
    ∃ u, chain [chain [outdated, chain [older.verifier]], newer.verifier] 0 "a" = .ok u ∧
      u.value = 51 := by
  have hlast : chain [newer.verifier, older.verifier, outdated] 0 "c" = .error .expired := by rfl
  have hall : ∀ v ∈ [newer.verifier, older.verifier, outdated], ∃ e : AuthError,
      v 0 "c" = .error e ∧ ∀ reason, e ≠ .signing reason := by
    simp only [List.forall_mem_cons]
    exact ⟨⟨.invalidToken, rfl, by simp⟩, ⟨.invalidToken, rfl, by simp⟩, ⟨.expired, rfl, by simp⟩,
      by simp⟩
  refine ⟨hlast, ?_, ?_⟩
  · have hp : [outdated, newer.verifier, older.verifier].Perm
        [newer.verifier, older.verifier, outdated] :=
      (List.Perm.swap newer.verifier outdated [older.verifier]).trans
        ((List.Perm.swap older.verifier outdated []).cons newer.verifier)
    rw [(chain_consults _).anyOrder 0 "c" _ hp (fun v hv => ?_) fun v hv reason heq => ?_]
    · exact hlast
    · obtain ⟨e, he, -⟩ := hall v hv
      exact ⟨e, he⟩
    · obtain ⟨e, he, hne⟩ := hall v hv
      rw [he] at heq
      exact hne reason (Except.error.inj heq)
  · have hflat : Unnests [chain [outdated, chain [older.verifier]], newer.verifier]
        [outdated, older.verifier, newer.verifier] :=
      .apart (.keep _ (.apart (.keep _ .nil) .nil)) (.keep _ .nil)
    rw [← (chain_consults _).flat _ hflat]
    exact ⟨_, ((chain_consults _).accepts 0 "a" _).mpr
      ⟨[outdated], older.verifier, [newer.verifier], rfl, rfl, by simp [outdated]⟩, rfl⟩

end Verifier

end PushHub.Auth
