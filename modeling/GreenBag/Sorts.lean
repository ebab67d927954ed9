import Mathlib.Tactic

/-! Stable sorts, as what is left after the earliest least element was taken out again and again. -/

namespace GreenBag.Sorts

variable {α β κ : Type} [LinearOrder κ] {k : α → κ} {l l' l'' done rest xs ys : List α} {t : α}

/-- In order, with the elements of each key as they were. -/
structure StableSort (k : α → κ) (l l' : List α) : Prop where
  sorted : l'.Pairwise fun a b => k a ≤ k b
  same : ∀ x, l'.filter (fun a => k a = x) = l.filter fun a => k a = x

lemma StableSort.perm (h : StableSort k l l') : l'.Perm l := by
  classical
  refine List.perm_iff_count.mpr fun a => ?_
  have hcount : ∀ m : List α, m.count a = (m.filter fun b => k b = k a).count a := fun m =>
    (List.count_filter (by simp)).symm
  rw [hcount l', hcount l, h.same]

lemma StableSort.unique (h' : StableSort k l l') (h'' : StableSort k l l'') : l' = l'' := by
  induction l' generalizing l l'' with
  | nil =>
    have hl := h'.perm.symm.eq_nil
    subst hl
    exact h''.perm.eq_nil.symm
  | cons a l' ih =>
    cases l'' with
    | nil =>
      have hl := h''.perm.symm.eq_nil
      subst hl
      exact h'.perm.eq_nil
    | cons b l'' =>
      have hp := h'.perm.trans h''.perm.symm
      obtain ⟨ha, hs'⟩ := List.pairwise_cons.mp h'.sorted
      obtain ⟨hb, hs''⟩ := List.pairwise_cons.mp h''.sorted
      have hab : k a ≤ k b := by
        rcases List.mem_cons.mp (hp.mem_iff.mpr List.mem_cons_self) with rfl | hm
        · exact le_rfl
        · exact ha b hm
      have hba : k b ≤ k a := by
        rcases List.mem_cons.mp (hp.mem_iff.mp List.mem_cons_self) with rfl | hm
        · exact le_rfl
        · exact hb a hm
      have hk := le_antisymm hab hba
      have hsame : ∀ x, (a :: l').filter (fun c => k c = x) = (b :: l'').filter fun c => k c = x :=
        fun x => (h'.same x).trans (h''.same x).symm
      have hhead := hsame (k a)
      rw [List.filter_cons_of_pos (by simp), List.filter_cons_of_pos (by simp [hk])] at hhead
      obtain ⟨rfl, -⟩ := List.cons.inj hhead
      rw [ih (l := l'') ⟨hs', fun x => ?_⟩ ⟨hs'', fun x => rfl⟩]
      have hx := hsame x
      by_cases hax : k a = x
      · rw [List.filter_cons_of_pos (by simp [hax]), List.filter_cons_of_pos (by simp [hax])] at hx
        exact (List.cons.inj hx).2
      · rwa [List.filter_cons_of_neg (by simp [hax]), List.filter_cons_of_neg (by simp [hax])] at hx

lemma StableSort.map {f : β → α} {m m' : List β} (h : StableSort (fun b => k (f b)) m m') :
    StableSort k (m.map f) (m'.map f) where
  sorted := List.pairwise_map.mpr h.sorted
  same x := by
    rw [List.filter_map, List.filter_map]
    exact congrArg _ (h.same x)

/-- The earliest of the least elements, and what is around it. -/
structure Least (k : α → κ) (l xs : List α) (t : α) (ys : List α) : Prop where
  split : l = xs ++ t :: ys
  before : ∀ b ∈ xs, k t < k b
  behind : ∀ b ∈ ys, k t ≤ k b

lemma Least.le (h : Least k l xs t ys) : ∀ b ∈ xs ++ ys, k t ≤ k b := by
  intro b hb
  rcases List.mem_append.mp hb with hb | hb
  · exact (h.before b hb).le
  · exact h.behind b hb

lemma least_singleton : Least k [t] [] t [] := ⟨rfl, by simp, by simp⟩

lemma Least.snoc (h : Least k l xs t ys) (b : α) :
    if k b < k t then Least k (l ++ [b]) l b [] else Least k (l ++ [b]) xs t (ys ++ [b]) := by
  obtain ⟨rfl, hbefore, hbehind⟩ := h
  split_ifs with hb
  · refine ⟨rfl, fun c hc => ?_, by simp⟩
    rcases List.mem_append.mp hc with hc | hc
    · exact hb.trans (hbefore c hc)
    · rcases List.mem_cons.mp hc with rfl | hc
      · exact hb
      · exact hb.trans_le (hbehind c hc)
  · refine ⟨by simp, hbefore, fun c hc => ?_⟩
    rcases List.mem_append.mp hc with hc | hc
    · exact hbehind c hc
    · exact List.mem_singleton.mp hc ▸ not_lt.mp hb

/-- A list that is partly sorted. -/
structure Sorting (k : α → κ) (l done rest : List α) : Prop where
  sorted : done.Pairwise fun a b => k a ≤ k b
  le : ∀ a ∈ done, ∀ b ∈ rest, k a ≤ k b
  same : ∀ x, done.filter (fun a => k a = x) ++ rest.filter (fun a => k a = x) =
    l.filter fun a => k a = x

lemma Sorting.start : Sorting k l [] l := ⟨List.Pairwise.nil, by simp, by simp⟩

lemma Sorting.step (h : Sorting k l done rest) (ht : Least k rest xs t ys) :
    Sorting k l (done ++ [t]) (xs ++ ys) := by
  have hmem : ∀ b ∈ xs ++ ys, b ∈ rest := by
    intro b hb
    rw [ht.split]
    simp only [List.mem_append, List.mem_cons] at hb ⊢
    tauto
  have htrest : t ∈ rest := by
    rw [ht.split]
    simp
  refine ⟨?_, fun a ha b hb => ?_, fun x => ?_⟩
  · refine List.pairwise_append.mpr ⟨h.sorted, by simp, fun a ha b hb => ?_⟩
    exact h.le a ha b (List.mem_singleton.mp hb ▸ htrest)
  · rcases List.mem_append.mp ha with ha | ha
    · exact h.le a ha b (hmem b hb)
    · exact List.mem_singleton.mp ha ▸ ht.le b hb
  · rw [← h.same x, ht.split]
    by_cases hx : k t = x
    · have hnone : xs.filter (fun a => k a = x) = [] :=
        List.filter_eq_nil_iff.mpr fun b hb => by
          have := ht.before b hb
          simpa using (hx ▸ this).ne'
      simp [List.filter_append, hx, hnone]
    · simp [List.filter_append, hx]

lemma Sorting.finish (h : Sorting k l done []) : StableSort k l done :=
  ⟨h.sorted, fun x => by simpa using h.same x⟩

end GreenBag.Sorts
