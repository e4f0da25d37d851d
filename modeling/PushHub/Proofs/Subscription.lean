import PushHub.Subscription
import PushHub.Proofs.Text.ByteOrder
import Mathlib.Data.Finset.Card

/-! Subscriptions as sets of names. Requested names join one after the other while there is room; a
request is refused exactly if one of them is not followed afterwards. -/
namespace PushHub.SubscriptionSet

def names (s : SubscriptionSet) : Finset ChannelName := s.channels.toFinset

/-- A set that keeps to a limit, and in which no name stands twice. -/
structure Keeps (s : SubscriptionSet) (limit : Nat) : Prop where
  limited : s.limit = some limit
  nodup : s.channels.Nodup
  size : s.channels.length ≤ limit

theorem contains_iff {s : SubscriptionSet} {c : ChannelName} : s.contains c = true ↔ c ∈ s.names := by
  simp [contains, names]

theorem mem_channels_iff {s : SubscriptionSet} {c : ChannelName} : c ∈ s.channels ↔ c ∈ s.names := by
  simp [names]

theorem names_congr {s t : SubscriptionSet} (h : s.channels = t.channels) : s.names = t.names :=
  congrArg List.toFinset h

theorem names_eq_empty {s : SubscriptionSet} : s.names = ∅ ↔ s.channels = [] :=
  List.toFinset_eq_empty_iff s.channels

theorem Keeps.card {s : SubscriptionSet} {limit : Nat} (hs : s.Keeps limit) :
    s.names.card = s.channels.length :=
  List.toFinset_card_of_nodup hs.nodup

theorem keeps_empty (limit : Nat) : (empty (some limit)).Keeps limit :=
  ⟨rfl, List.nodup_nil, Nat.zero_le limit⟩

theorem insertSorted_perm (c : ChannelName) (names : List ChannelName) :
    (insertSorted c names).Perm (c :: names) := by
  induction names with
  | nil => exact .refl _
  | cons d rest ih =>
    unfold insertSorted
    split
    · exact .refl _
    · exact (ih.cons d).trans (.swap c d rest)

theorem names_insertSorted (c : ChannelName) (channels : List ChannelName) (limit : Option Nat) :
    (SubscriptionSet.mk (insertSorted c channels) limit).names = insert c channels.toFinset := by
  unfold names
  rw [List.toFinset_eq_of_perm _ _ (insertSorted_perm c channels), List.toFinset_cons]

section
variable {s : SubscriptionSet} {c : ChannelName}

theorem add_of_mem (hc : c ∈ s.names) : s.add c = .ok s :=
  if_pos (contains_iff.mpr hc)

theorem add_of_refusal {e : SubscriptionLimit} (hc : c ∉ s.names) (he : s.refusal? = some e) :
    s.add c = .error e := by
  unfold add
  rw [if_neg (contains_iff.not.mpr hc), he]

theorem add_of_room (hc : c ∉ s.names) (hroom : s.refusal? = none) :
    s.add c = .ok ⟨insertSorted c s.channels, s.limit⟩ := by
  unfold add
  rw [if_neg (contains_iff.not.mpr hc), hroom]

theorem refusal?_eq_some {e : SubscriptionLimit} :
    s.refusal? = some e ↔ s.limit = some e.max ∧ e.max ≤ s.size := by
  obtain ⟨max⟩ := e
  unfold refusal?
  cases hlimit : s.limit with
  | none => simp
  | some limit => grind

theorem refusal?_eq_none : s.refusal? = none ↔ ∀ max, s.limit = some max → s.size < max := by
  unfold refusal?
  cases hlimit : s.limit with
  | none => simp
  | some limit => simp

end

/-! ## One name after the other -/

/-- A name joins a set if there is room, or stands in it already. -/
def join (limit : Nat) (s : Finset ChannelName) (c : ChannelName) : Finset ChannelName :=
  if s.card < limit then insert c s else s

theorem subset_join (limit : Nat) (s : Finset ChannelName) (c : ChannelName) :
    s ⊆ join limit s c := by
  unfold join
  split
  · exact Finset.subset_insert c s
  · exact Finset.Subset.refl s

theorem subset_foldl_join (limit : Nat) (s : Finset ChannelName) (names : List ChannelName) :
    s ⊆ names.foldl (join limit) s := by
  induction names generalizing s with
  | nil => exact Finset.Subset.refl s
  | cons c rest ih => exact (subset_join limit s c).trans (ih _)

theorem foldl_join_of_full {limit : Nat} {s : Finset ChannelName} (hs : limit ≤ s.card)
    (names : List ChannelName) : names.foldl (join limit) s = s := by
  induction names with
  | nil => rfl
  | cons c rest ih =>
    have hstay : join limit s c = s := if_neg (Nat.not_lt_of_le hs)
    rw [List.foldl_cons, hstay, ih]

theorem card_foldl_join {limit : Nat} {s : Finset ChannelName} (hs : s.card ≤ limit)
    (names : List ChannelName) : (names.foldl (join limit) s).card ≤ limit := by
  induction names generalizing s with
  | nil => exact hs
  | cons c rest ih =>
    apply ih
    unfold join
    split
    · rename_i hroom
      exact (Finset.card_insert_le c s).trans hroom
    · exact hs

theorem add_cases {s : SubscriptionSet} {limit : Nat} (hs : s.Keeps limit) (c : ChannelName) :
    (∃ t, s.add c = .ok t ∧ t.Keeps limit ∧ t.names = join limit s.names c ∧ c ∈ t.names) ∨
      (s.add c = .error ⟨limit⟩ ∧ limit ≤ s.names.card ∧ c ∉ s.names) := by
  by_cases hc : c ∈ s.names
  · left
    refine ⟨s, add_of_mem hc, hs, ?_, hc⟩
    unfold join
    split
    · exact (Finset.insert_eq_of_mem hc).symm
    · rfl
  · cases hrefusal : s.refusal? with
    | some e =>
      right
      obtain ⟨max⟩ := e
      obtain ⟨hmax, hfull⟩ := refusal?_eq_some.mp hrefusal
      cases hs.limited.symm.trans hmax
      exact ⟨add_of_refusal hc hrefusal, hs.card ▸ hfull, hc⟩
    | none =>
      left
      have hroom : s.size < limit := refusal?_eq_none.mp hrefusal limit hs.limited
      have hperm := insertSorted_perm c s.channels
      have hnames := names_insertSorted c s.channels s.limit
      refine ⟨_, add_of_room hc hrefusal, ⟨hs.limited, ?_, ?_⟩, ?_, ?_⟩
      · exact hperm.nodup_iff.mpr (List.nodup_cons.mpr ⟨mem_channels_iff.not.mpr hc, hs.nodup⟩)
      · rw [hperm.length_eq, List.length_cons]
        exact hroom
      · rw [hnames]
        exact (if_pos (hs.card ▸ hroom)).symm
      · rw [hnames]
        exact Finset.mem_insert_self c _

/-- The names of a request join in its order, and it is refused if one of them is left out. -/
theorem subscribe_spec {s : SubscriptionSet} {limit : Nat} (hs : s.Keeps limit)
    (names : List ChannelName) :
    (s.subscribe names).1.Keeps limit ∧
      (s.subscribe names).1.names = names.foldl (join limit) s.names ∧
      (s.subscribe names).2 =
        if ∀ c ∈ names, c ∈ (s.subscribe names).1.names then none else some ⟨limit⟩ := by
  induction names generalizing s with
  | nil => simp [subscribe, hs]
  | cons c rest ih =>
    rcases add_cases hs c with ⟨t, hadd, ht, hjoin, hc⟩ | ⟨hadd, hfull, hc⟩
    · obtain ⟨hkeeps, hnames, hrefused⟩ := ih ht
      have hstep : s.subscribe (c :: rest) = t.subscribe rest := by
        rw [subscribe, hadd]
      have hmem : c ∈ (t.subscribe rest).1.names := by
        rw [hnames]
        exact subset_foldl_join limit _ rest hc
      rw [hstep]
      refine ⟨hkeeps, ?_, ?_⟩
      · rw [hnames, hjoin, List.foldl_cons]
      · rw [hrefused]
        simp [hmem]
    · have hstep : s.subscribe (c :: rest) = (s, some ⟨limit⟩) := by
        rw [subscribe, hadd]
      rw [hstep]
      refine ⟨hs, (foldl_join_of_full hfull _).symm, ?_⟩
      rw [if_neg fun hall => hc (hall c List.mem_cons_self)]

theorem names_unsubscribe (s : SubscriptionSet) (names : List ChannelName) :
    (s.unsubscribe names).names = s.names \ names.toFinset := by
  ext c
  simp [unsubscribe, SubscriptionSet.names]

theorem unsubscribe_spec {s : SubscriptionSet} {limit : Nat} (hs : s.Keeps limit)
    (names : List ChannelName) :
    (s.unsubscribe names).Keeps limit ∧
      (s.unsubscribe names).names = s.names \ names.toFinset :=
  ⟨⟨hs.limited, hs.nodup.filter _, (List.length_filter_le _ _).trans hs.size⟩,
    names_unsubscribe s names⟩

/-! ## The set of names and its limit

With a limit or with none, what a set holds and what it answers are told by its names alone. -/

def Fits (limit : Option Nat) (names : Finset ChannelName) : Prop :=
  ∀ max, limit = some max → names.card ≤ max

theorem Fits.subset {limit : Option Nat} {many few : Finset ChannelName} (h : Fits limit many)
    (hsub : few ⊆ many) : Fits limit few :=
  fun max hmax => (Finset.card_le_card hsub).trans (h max hmax)

/-- A set that keeps to its limit, with its names in their order and each of them once. -/
structure Tidy (limit : Option Nat) (s : SubscriptionSet) : Prop where
  limited : s.limit = limit
  sorted : s.channels.Pairwise fun c d => c.name < d.name
  fits : Fits limit s.names

theorem tidy_empty (limit : Option Nat) : (empty limit).Tidy limit :=
  ⟨rfl, .nil, fun max _ => Nat.zero_le max⟩

theorem sorted_insertSorted {c : ChannelName} {channels : List ChannelName}
    (hs : channels.Pairwise fun c d => c.name < d.name) (hc : c ∉ channels) :
    (insertSorted c channels).Pairwise fun c d => c.name < d.name := by
  induction channels with
  | nil => exact List.pairwise_singleton _ _
  | cons d rest ih =>
    obtain ⟨hfirst, hrest⟩ := List.pairwise_cons.mp hs
    obtain ⟨hne, hnew⟩ := not_or.mp (List.mem_cons.not.mp hc)
    unfold insertSorted
    split
    · rename_i hlt
      refine List.pairwise_cons.mpr ⟨fun e he => ?_, hs⟩
      rcases List.mem_cons.mp he with rfl | he
      · exact hlt
      · exact String.lt_trans hlt (hfirst e he)
    · rename_i hnot
      refine List.pairwise_cons.mpr ⟨fun e he => ?_, ih hrest hnew⟩
      rcases List.mem_cons.mp ((insertSorted_perm c rest).mem_iff.mp he) with rfl | he
      · refine Decidable.byContradiction fun hno => hne ?_
        have hname : e.name = d.name :=
          String.le_antisymm (String.not_lt.mp hno) (String.not_lt.mp hnot)
        cases e
        cases d
        congr
      · exact hfirst e he

section
variable {limit : Option Nat} {s : SubscriptionSet} {c : ChannelName}

theorem Tidy.nodup (hs : s.Tidy limit) : s.channels.Nodup := by
  refine hs.sorted.imp fun {c d} hlt heq => ?_
  rw [heq] at hlt
  exact String.lt_irrefl d.name hlt

theorem Tidy.size_eq (hs : s.Tidy limit) : s.size = s.names.card :=
  (List.toFinset_card_of_nodup hs.nodup).symm

theorem Tidy.ascending (hs : s.Tidy limit) :
    s.channels.Pairwise fun c d => Text.Below (Text.utf8 c.name) (Text.utf8 d.name) :=
  hs.sorted.imp Text.below_utf8

theorem Tidy.add_cases (hs : s.Tidy limit) (c : ChannelName) :
    (∃ t, s.add c = .ok t ∧ t.Tidy limit ∧ t.names = insert c s.names) ∨
      ∃ max, limit = some max ∧ s.add c = .error ⟨max⟩ ∧ s.names.card = max ∧ c ∉ s.names := by
  by_cases hc : c ∈ s.names
  · exact .inl ⟨s, add_of_mem hc, hs, (Finset.insert_eq_of_mem hc).symm⟩
  · cases hrefusal : s.refusal? with
    | some e =>
      obtain ⟨hlimit, hfull⟩ := refusal?_eq_some.mp hrefusal
      have hmax : limit = some e.max := hs.limited ▸ hlimit
      refine .inr ⟨e.max, hmax, add_of_refusal hc hrefusal, ?_, hc⟩
      exact le_antisymm (hs.fits e.max hmax) (hs.size_eq ▸ hfull)
    | none =>
      have hnames := names_insertSorted c s.channels s.limit
      refine .inl ⟨_, add_of_room hc hrefusal, ⟨hs.limited, ?_, fun max hmax => ?_⟩, hnames⟩
      · exact sorted_insertSorted hs.sorted (mem_channels_iff.not.mpr hc)
      · have hroom := refusal?_eq_none.mp hrefusal max (hs.limited.trans hmax)
        rw [hnames]
        exact (Finset.card_insert_le c s.names).trans (hs.size_eq ▸ hroom)

/-! ### The names of a request -/

/-- What stands in a set once the names before `c` were added and `c` itself found no room. -/
structure Stops (limit : Option Nat) (s t : SubscriptionSet) (taken : List ChannelName)
    (c : ChannelName) (max : Nat) : Prop where
  limited : limit = some max
  holds : t.names = s.names ∪ taken.toFinset
  full : t.names.card = max
  missing : c ∉ t.names

theorem Tidy.subscribe_cases (hs : s.Tidy limit) (asked : List ChannelName) :
    (∃ t, s.subscribe asked = (t, none) ∧ t.Tidy limit ∧ t.names = s.names ∪ asked.toFinset) ∨
      ∃ t taken c rest max, asked = taken ++ c :: rest ∧
        s.subscribe asked = (t, some ⟨max⟩) ∧ t.Tidy limit ∧ Stops limit s t taken c max := by
  induction asked generalizing s with
  | nil => exact .inl ⟨s, rfl, hs, by simp⟩
  | cons c rest ih =>
    rcases hs.add_cases c with ⟨next, hadd, hnext, hnames⟩ | ⟨max, hmax, hadd, hcard, hc⟩
    · have hstep : s.subscribe (c :: rest) = next.subscribe rest := by
        rw [SubscriptionSet.subscribe, hadd]
      have hunion (names : List ChannelName) :
          next.names ∪ names.toFinset = s.names ∪ (c :: names).toFinset := by
        rw [hnames, List.toFinset_cons, Finset.insert_union, Finset.union_insert]
      rcases ih hnext with ⟨t, hrun, ht, hholds⟩ | ⟨t, taken, d, others, max, rfl, hrun, ht, hstops⟩
      · exact .inl ⟨t, hstep.trans hrun, ht, hholds.trans (hunion rest)⟩
      · refine .inr ⟨t, c :: taken, d, others, max, rfl, hstep.trans hrun, ht, ?_⟩
        exact ⟨hstops.limited, hstops.holds.trans (hunion taken), hstops.full, hstops.missing⟩
    · have hstep : s.subscribe (c :: rest) = (s, some ⟨max⟩) := by
        rw [SubscriptionSet.subscribe, hadd]
      exact .inr ⟨s, [], c, rest, max, rfl, hstep, hs, hmax, by simp, hcard, hc⟩

/-- Names that all fit beside a set do not reach to one for which there was no room. -/
theorem Stops.prefix_of_fits {t : SubscriptionSet} {taken rest names : List ChannelName} {max : Nat}
    (h : Stops limit s t taken c max) (hpre : names <+: taken ++ c :: rest)
    (hfits : Fits limit (s.names ∪ names.toFinset)) : names <+: taken := by
  by_cases hshort : names.length ≤ taken.length
  · exact List.prefix_of_prefix_length_le hpre (List.prefix_append _ _) hshort
  · -- Otherwise `c` is among the names, and the set would hold one name more than its limit.
    have hthrough : taken ++ [c] <+: taken ++ c :: rest := ⟨rest, by simp⟩
    have hreach : taken ++ [c] <+: names := by
      refine List.prefix_of_prefix_length_le hthrough hpre ?_
      rw [List.length_append, List.length_singleton]
      exact Nat.lt_of_not_le hshort
    have hsub : insert c t.names ⊆ s.names ∪ names.toFinset := by
      intro d hd
      have hmem := hreach.subset (a := d)
      rw [h.holds] at hd
      simp only [Finset.mem_insert, Finset.mem_union, List.mem_toFinset, List.mem_append,
        List.mem_singleton] at hd hmem ⊢
      tauto
    have hmany := Finset.card_le_card hsub
    rw [Finset.card_insert_of_notMem h.missing, h.full] at hmany
    exact absurd (hmany.trans (hfits max h.limited)) (Nat.not_succ_le_self max)

theorem Stops.not_fits {t : SubscriptionSet} {taken rest : List ChannelName} {max : Nat}
    (h : Stops limit s t taken c max) : ¬ Fits limit (s.names ∪ (taken ++ c :: rest).toFinset) := by
  intro hfits
  have hall : taken ++ c :: rest <+: taken := h.prefix_of_fits (List.prefix_refl _) hfits
  have hlen := hall.length_le
  rw [List.length_append, List.length_cons] at hlen
  omega

theorem follow_eq (s : SubscriptionSet) (applied asked : List ChannelName) :
    s.follow applied asked = ((s.subscribe asked).1,
      (s.subscribe asked).2.elim (.ok (applied ++ asked)) .error) := by
  induction asked generalizing s applied with
  | nil => simp [follow, subscribe]
  | cons c rest ih =>
    unfold follow subscribe
    cases s.add c with
    | ok t => simp [ih]
    | error e => rfl

theorem serve_subscribe (s : SubscriptionSet) (asked : List ChannelName) :
    s.serve (.subscribe asked) =
      ((s.subscribe asked).1, (s.subscribe asked).2.elim (.ok asked) .error) :=
  follow_eq s [] asked

theorem leave_eq (s : SubscriptionSet) (names : List ChannelName) :
    s.leave names = (s.unsubscribe names, names) := by
  induction names generalizing s with
  | nil => simp [leave, unsubscribe]
  | cons c rest ih =>
    rw [leave, ih]
    simp [remove, unsubscribe, List.filter_filter, Bool.and_comm, bne, beq_eq_decide]

theorem serve_unsubscribe (s : SubscriptionSet) (names : List ChannelName) :
    s.serve (.unsubscribe names) = (s.unsubscribe names, .ok names) := by
  rw [serve, leave_eq]

theorem Tidy.unsubscribe (hs : s.Tidy limit) (names : List ChannelName) :
    (s.unsubscribe names).Tidy limit := by
  refine ⟨hs.limited, hs.sorted.filter _, hs.fits.subset ?_⟩
  rw [names_unsubscribe]
  exact Finset.sdiff_subset

theorem Tidy.serve (hs : s.Tidy limit) (request : Request) : (s.serve request).1.Tidy limit := by
  cases request with
  | subscribe asked =>
    rw [serve_subscribe]
    rcases hs.subscribe_cases asked with ⟨t, hrun, ht, -⟩ | ⟨t, _, _, _, _, -, hrun, ht, -⟩
    · exact hrun ▸ ht
    · exact hrun ▸ ht
  | unsubscribe names =>
    rw [serve_unsubscribe]
    exact hs.unsubscribe names

theorem Tidy.run (hs : s.Tidy limit) (requests : List Request) : (s.run requests).Tidy limit := by
  induction requests generalizing s with
  | nil => exact hs
  | cons request rest ih => exact ih (hs.serve request)

theorem admits_iff (s : SubscriptionSet) (filter : List ChannelName) :
    s.admits filter = true ↔ filter = [] ∨ ∃ c ∈ filter, c ∈ s.names := by
  simp [admits, contains_iff]

end

/-- The longest part of the names asked for, from the first of them on, that fits beside a set. -/
structure Longest (limit : Option Nat) (held : Finset ChannelName)
    (asked taken : List ChannelName) : Prop where
  isPrefix : taken <+: asked
  fits : Fits limit (held ∪ taken.toFinset)
  greatest : ∀ names, names <+: asked → Fits limit (held ∪ names.toFinset) → names <+: taken

/-- What a set of subscriptions with a limit, or with none, holds and answers. -/
structure Models (limit : Option Nat) (s : SubscriptionSet) : Prop where
  ascending : s.channels.Pairwise fun c d => Text.Below (Text.utf8 c.name) (Text.utf8 d.name)
  size_eq : s.size = s.names.card
  size_le : ∀ max, limit = some max → s.size ≤ max
  accepts (asked : List ChannelName) : (∃ answer, (s.serve (.subscribe asked)).2 = .ok answer) ↔
    Fits limit (s.names ∪ asked.toFinset)
  subscribes (asked : List ChannelName) (hfits : Fits limit (s.names ∪ asked.toFinset)) :
    ∃ t, s.serve (.subscribe asked) = (t, .ok asked) ∧ t.names = s.names ∪ asked.toFinset
  refuses (asked : List ChannelName) (hmany : ¬ Fits limit (s.names ∪ asked.toFinset)) :
    ∃ t taken max, limit = some max ∧ s.serve (.subscribe asked) = (t, .error ⟨max⟩) ∧
      Longest limit s.names asked taken ∧ t.names = s.names ∪ taken.toFinset ∧ t.size = max
  unsubscribes (asked : List ChannelName) :
    ∃ t, s.serve (.unsubscribe asked) = (t, .ok asked) ∧ t.names = s.names \ asked.toFinset
  admits (filter : List ChannelName) :
    s.admits filter = true ↔ filter = [] ∨ ∃ c ∈ filter, c ∈ s.names

theorem Tidy.models {limit : Option Nat} {s : SubscriptionSet} (hs : s.Tidy limit) :
    s.Models limit where
  ascending := hs.ascending
  size_eq := hs.size_eq
  size_le max hmax := hs.size_eq ▸ hs.fits max hmax
  accepts asked := by
    rcases hs.subscribe_cases asked with
      ⟨t, hrun, ht, hholds⟩ | ⟨t, taken, c, rest, max, rfl, hrun, -, hstops⟩
    · rw [serve_subscribe, hrun, ← hholds]
      exact iff_of_true ⟨_, rfl⟩ ht.fits
    · rw [serve_subscribe, hrun]
      exact iff_of_false (by simp) hstops.not_fits
  subscribes asked hfits := by
    rcases hs.subscribe_cases asked with
      ⟨t, hrun, -, hholds⟩ | ⟨t, taken, c, rest, max, rfl, -, -, hstops⟩
    · rw [serve_subscribe, hrun]
      exact ⟨t, rfl, hholds⟩
    · exact absurd hfits hstops.not_fits
  refuses asked hmany := by
    rcases hs.subscribe_cases asked with
      ⟨t, -, ht, hholds⟩ | ⟨t, taken, c, rest, max, rfl, hrun, ht, hstops⟩
    · exact absurd (hholds ▸ ht.fits) hmany
    · rw [serve_subscribe, hrun]
      refine ⟨t, taken, max, hstops.limited, rfl, ⟨List.prefix_append _ _, ?_, ?_⟩, hstops.holds, ?_⟩
      · exact hstops.holds ▸ ht.fits
      · exact fun names hpre hfits => hstops.prefix_of_fits hpre hfits
      · exact ht.size_eq.trans hstops.full
  unsubscribes asked :=
    ⟨_, serve_unsubscribe s asked, names_unsubscribe s asked⟩
  admits := admits_iff s

/-- Whatever was asked of a set since it was empty, it holds distinct names in their order and keeps
to its limit: the names of a request are added all if they fit, and else as far as they do. -/
theorem run_models (limit : Option Nat) (requests : List Request) :
    ((empty limit).run requests).Models limit :=
  ((tidy_empty limit).run requests).models

example : (empty (some 1)).serve (.subscribe [taskUpdates, taskUpdates, accountStatus]) =
    (⟨[taskUpdates], some 1⟩, .error ⟨1⟩) := by decide +kernel

end PushHub.SubscriptionSet
