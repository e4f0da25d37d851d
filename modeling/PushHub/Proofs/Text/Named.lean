import Mathlib.Data.List.Pairwise

/-! Things with names, in the order of their names and each name once. A new thing is put in its
place, or in the place of the one that has its name already. -/
namespace PushHub.Named

variable {α : Type} {k j : String} {a : α} {ts done : List (String × α)}

def Sorted (ts : List (String × α)) : Prop := ts.Pairwise fun s t => s.1 < t.1

instance : Decidable (Sorted ts) := inferInstanceAs (Decidable (List.Pairwise _ _))

def insert (k : String) (a : α) : List (String × α) → List (String × α)
  | [] => [(k, a)]
  | (k', a') :: rest =>
    if k < k' then (k, a) :: (k', a') :: rest
    else if k = k' then (k, a) :: rest
    else (k', a') :: insert k a rest

def collect (done ts : List (String × α)) : List (String × α) :=
  ts.foldl (fun done t => insert t.1 t.2 done) done

theorem mem_insert {e : String × α} (h : e ∈ insert k a ts) : e = (k, a) ∨ e ∈ ts := by
  induction ts with
  | nil => simpa [insert] using h
  | cons t ts ih =>
    unfold insert at h
    split at h
    · simpa using h
    · split at h
      · simp only [List.mem_cons] at h ⊢
        exact h.imp_right .inr
      · rcases List.mem_cons.mp h with rfl | h
        · exact .inr List.mem_cons_self
        · exact (ih h).imp_right (List.mem_cons_of_mem t)

theorem sorted_insert (hs : Sorted ts) : Sorted (insert k a ts) := by
  induction ts with
  | nil => exact List.pairwise_singleton _ _
  | cons t ts ih =>
    obtain ⟨hfirst, hrest⟩ := List.pairwise_cons.mp hs
    unfold insert
    split
    · rename_i hlt
      refine List.pairwise_cons.mpr ⟨fun e he => ?_, hs⟩
      rcases List.mem_cons.mp he with rfl | he
      · exact hlt
      · exact String.lt_trans hlt (hfirst e he)
    · rename_i hle
      split
      · rename_i heq
        exact List.pairwise_cons.mpr ⟨fun e he => heq ▸ hfirst e he, hrest⟩
      · rename_i hne
        have hgt : t.1 < k := by
          apply Decidable.of_not_not
          intro hnot
          exact hne (String.le_antisymm (String.not_lt.mp hnot) (String.not_lt.mp hle))
        refine List.pairwise_cons.mpr ⟨fun e he => ?_, ih hrest⟩
        rcases mem_insert he with rfl | he
        · exact hgt
        · exact hfirst e he

theorem insert_of_lt (h : ∀ t ∈ ts, t.1 < k) : insert k a ts = ts ++ [(k, a)] := by
  induction ts with
  | nil => rfl
  | cons t ts ih =>
    have hlt := h t List.mem_cons_self
    have hnot : ¬ k < t.1 := fun hgt => String.lt_irrefl k (String.lt_trans hgt hlt)
    have hne : k ≠ t.1 := fun heq => String.lt_irrefl k (heq ▸ hlt)
    rw [insert, if_neg hnot, if_neg hne, ih fun s hs => h s (List.mem_cons_of_mem t hs)]
    rfl

theorem lookup_cons (j : String) (t : String × α) (ts : List (String × α)) :
    (t :: ts).lookup j = if j = t.1 then some t.2 else ts.lookup j := by
  by_cases hj : j = t.1
  · rw [if_pos hj, hj]
    exact List.lookup_cons_self
  · obtain ⟨k, a⟩ := t
    rw [if_neg hj, List.lookup_cons, beq_false_of_ne hj]

theorem lookup_eq_none (h : j ∉ ts.map Prod.fst) : ts.lookup j = none := by
  induction ts with
  | nil => rfl
  | cons t ts ih =>
    rw [List.map_cons, List.mem_cons, not_or] at h
    rw [lookup_cons, if_neg h.1, ih h.2]

theorem mem_of_lookup (h : ts.lookup j = some a) : (j, a) ∈ ts := by
  induction ts with
  | nil => cases h
  | cons t ts ih =>
    rw [lookup_cons] at h
    split at h
    · rename_i hj
      cases h
      rw [hj]
      exact List.mem_cons_self
    · exact List.mem_cons_of_mem t (ih h)

theorem lookup_of_mem {t : String × α} (hdistinct : (ts.map Prod.fst).Nodup) (ht : t ∈ ts) :
    ts.lookup t.1 = some t.2 := by
  induction ts with
  | nil => cases ht
  | cons s ts ih =>
    obtain ⟨hfirst, hrest⟩ := List.nodup_cons.mp hdistinct
    rw [lookup_cons]
    rcases List.mem_cons.mp ht with rfl | ht
    · rw [if_pos rfl]
    · have hne : t.1 ≠ s.1 := fun heq => hfirst (heq ▸ List.mem_map_of_mem (f := Prod.fst) ht)
      rw [if_neg hne, ih hrest ht]

theorem lookup_insert : (insert k a ts).lookup j = if j = k then some a else ts.lookup j := by
  induction ts with
  | nil => exact lookup_cons j (k, a) []
  | cons t ts ih =>
    unfold insert
    split
    · exact lookup_cons j (k, a) (t :: ts)
    · split
      · rename_i heq
        rw [lookup_cons, lookup_cons, heq]
        split <;> rfl
      · rename_i hne
        rw [lookup_cons, lookup_cons, ih]
        by_cases hj : j = t.1
        · rw [if_pos hj, if_neg fun heq : j = k => hne (heq.symm.trans hj), if_pos hj]
        · rw [if_neg hj, if_neg hj]

/-! ## Many things -/

theorem collect_of_sorted (h : Sorted (done ++ ts)) : collect done ts = done ++ ts := by
  induction ts generalizing done with
  | nil => exact (List.append_nil done).symm
  | cons t ts ih =>
    have hbefore : ∀ s ∈ done, s.1 < t.1 := fun s hs =>
      (List.pairwise_append.mp h).2.2 s hs t List.mem_cons_self
    have hsorted : Sorted ((done ++ [t]) ++ ts) := by simpa using h
    rw [collect, List.foldl_cons, insert_of_lt hbefore, ← collect, ih hsorted]
    simp

theorem sorted_collect (hs : Sorted done) : Sorted (collect done ts) := by
  induction ts generalizing done with
  | nil => exact hs
  | cons t ts ih => exact ih (sorted_insert hs)

theorem mem_collect {e : String × α} (h : e ∈ collect done ts) : e ∈ done ∨ e ∈ ts := by
  induction ts generalizing done with
  | nil => exact .inl h
  | cons t ts ih =>
    rcases ih h with h | h
    · rcases mem_insert h with rfl | h
      · exact .inr List.mem_cons_self
      · exact .inl h
    · exact .inr (List.mem_cons_of_mem t h)

theorem lookup_collect (h : (ts.map Prod.fst).Nodup) :
    (collect done ts).lookup j = (ts.lookup j).or (done.lookup j) := by
  induction ts generalizing done with
  | nil => rfl
  | cons t ts ih =>
    obtain ⟨hfirst, hrest⟩ := List.nodup_cons.mp h
    have hcollect : collect done (t :: ts) = collect (insert t.1 t.2 done) ts := rfl
    rw [hcollect, ih hrest, lookup_insert, lookup_cons]
    by_cases hj : j = t.1
    · rw [if_pos hj, if_pos hj, hj, lookup_eq_none hfirst]
      rfl
    · rw [if_neg hj, if_neg hj]

theorem Sorted.nodup (h : Sorted ts) : (ts.map Prod.fst).Nodup := by
  refine List.pairwise_map.mpr (h.imp fun hlt heq => ?_)
  exact String.lt_irrefl _ (heq ▸ hlt)

end PushHub.Named
