import Mathlib.Tactic
import Mathlib.Data.List.TakeWhile

/-! Cutting a list in two at the first or the last place where an element stands, or at the first
place where a pattern does. The element or the pattern itself is in neither part. -/

namespace GreenBag.Cuts

variable {α : Type} [DecidableEq α] {a b : α} {l xs ys pat : List α}

def first (b : α) : List α → Option (List α × List α)
  | [] => none
  | a :: as => if a = b then some ([], as) else (first b as).map fun (xs, ys) => (a :: xs, ys)

def last (b : α) (l : List α) : Option (List α × List α) :=
  (first b l.reverse).map fun (xs, ys) => (ys.reverse, xs.reverse)

def pattern (pat : List α) : List α → Option (List α × List α)
  | [] => if pat = [] then some ([], []) else none
  | a :: as =>
    if pat <+: a :: as then some ([], (a :: as).drop pat.length)
    else (pattern pat as).map fun (xs, ys) => (a :: xs, ys)

lemma first_append (h : b ∉ xs) : first b (xs ++ b :: ys) = some (xs, ys) := by
  induction xs with
  | nil => rw [List.nil_append, first, if_pos rfl]
  | cons a as ih =>
    obtain ⟨hab, has⟩ := not_or.mp (List.mem_cons.not.mp h)
    rw [List.cons_append, first, if_neg (Ne.symm hab), ih has]
    rfl

lemma first_eq_none_iff : first b l = none ↔ b ∉ l := by
  induction l with
  | nil => simp [first]
  | cons a as ih =>
    rw [first]
    split_ifs with hab
    · simp [hab]
    · simp [ih, Ne.symm hab]

lemma of_first (h : first b l = some (xs, ys)) : l = xs ++ b :: ys ∧ b ∉ xs := by
  have hb : b ∈ l := by
    by_contra hn
    rw [first_eq_none_iff.mpr hn] at h
    cases h
  obtain ⟨xs', ys', rfl, hn⟩ := List.eq_append_cons_of_mem hb
  rw [first_append hn] at h
  cases h
  exact ⟨rfl, hn⟩

lemma takeWhile_eq (b : α) (l : List α) : l.takeWhile (· ≠ b) = (first b l).elim l Prod.fst := by
  induction l with
  | nil => rfl
  | cons a as ih =>
    by_cases hab : a = b
    · simp [first, hab]
    · rw [List.takeWhile_cons_of_pos (by simpa using hab), ih, first, if_neg hab]
      cases first b as <;> rfl

lemma behind_append (b : α) (xs ys : List α) :
    ∃ zs, (first b (xs ++ b :: ys)).elim [] Prod.snd = zs ++ ys := by
  by_cases hb : b ∈ xs
  · obtain ⟨us, vs, rfl, hn⟩ := List.eq_append_cons_of_mem hb
    refine ⟨vs ++ [b], ?_⟩
    rw [List.append_assoc, List.cons_append, first_append hn]
    simp
  · exact ⟨[], by rw [first_append hb]; rfl⟩

lemma behind_suffix (b : α) (l : List α) : (first b l).elim [] Prod.snd <:+ l := by
  cases hf : first b l with
  | none => exact List.nil_suffix
  | some cut =>
    obtain ⟨xs, ys⟩ := cut
    rw [(of_first hf).1]
    exact ⟨xs ++ [b], by simp⟩

lemma last_append (h : b ∉ ys) : last b (xs ++ b :: ys) = some (xs, ys) := by
  have hr : (xs ++ b :: ys).reverse = ys.reverse ++ b :: xs.reverse := by simp
  rw [last, hr, first_append (by simpa using h)]
  simp

lemma last_eq_none_iff : last b l = none ↔ b ∉ l := by
  rw [last, Option.map_eq_none_iff, first_eq_none_iff, List.mem_reverse]

lemma of_last (h : last b l = some (xs, ys)) : l = xs ++ b :: ys ∧ b ∉ ys := by
  rw [last, Option.map_eq_some_iff] at h
  obtain ⟨⟨ys', xs'⟩, hf, hp⟩ := h
  obtain ⟨hl, hn⟩ := of_first hf
  cases hp
  refine ⟨?_, by simpa using hn⟩
  rw [← l.reverse_reverse, hl]
  simp

lemma pattern_append (h : b ∉ xs) : pattern (b :: pat) (xs ++ (b :: pat ++ ys)) = some (xs, ys) := by
  induction xs with
  | nil => simp [pattern]
  | cons a as ih =>
    obtain ⟨hab, has⟩ := not_or.mp (List.mem_cons.not.mp h)
    rw [List.cons_append, pattern, if_neg, ih has]
    · rfl
    · exact fun hp => hab (List.cons_prefix_cons.mp hp).1

lemma of_pattern (h : pattern pat l = some (xs, ys)) : l = xs ++ (pat ++ ys) := by
  induction l generalizing xs with
  | nil =>
    rw [pattern] at h
    split_ifs at h with hp
    cases h
    simp [hp]
  | cons a as ih =>
    rw [pattern] at h
    split_ifs at h with hp
    · cases h
      obtain ⟨zs, hz⟩ := hp
      rw [← hz]
      simp
    · rw [Option.map_eq_some_iff] at h
      obtain ⟨⟨xs', ys'⟩, hf, hq⟩ := h
      cases hq
      rw [ih hf]
      simp

/-- A text with a mark in it that is cut off ends with the mark only right behind it. -/
lemma take_eq_iff {c : α} {n : ℕ} {zs : List α} (hx : c ∉ xs) (hy : c ∉ ys) :
    (xs ++ c :: zs).take (n + 1) = ys ++ [c] ↔
      xs = ys ∧ (xs.length < n ∧ zs = [] ∨ xs.length = n) := by
  by_cases hle : xs.length ≤ n
  · have htake : (xs ++ c :: zs).take (n + 1) = xs ++ c :: zs.take (n - xs.length) := by
      rw [List.take_append, List.take_of_length_le (by omega), Nat.succ_sub hle, List.take_succ_cons]
    rw [htake]
    constructor
    · intro he
      have hcut := congrArg (first c) he
      rw [first_append hx, first_append hy] at hcut
      simp only [Option.some.injEq, Prod.mk.injEq, List.take_eq_nil_iff] at hcut
      refine ⟨hcut.1, ?_⟩
      rcases hcut.2 with hn | hz
      · exact .inr (by omega)
      · rcases Nat.lt_or_eq_of_le hle with hlt | heq
        · exact .inl ⟨hlt, hz⟩
        · exact .inr heq
    · rintro ⟨rfl, ⟨-, rfl⟩ | rfl⟩ <;> simp
  · have htake : (xs ++ c :: zs).take (n + 1) = xs.take (n + 1) := by
      rw [List.take_append, Nat.sub_eq_zero_of_le (by omega), List.take_zero, List.append_nil]
    rw [htake]
    refine iff_of_false (fun he => ?_) fun h => by omega
    have hm : c ∈ xs.take (n + 1) := he ▸ by simp
    exact hx (List.mem_of_mem_take hm)

omit [DecidableEq α] in
lemma exists_span (f : α → Bool) (l : List α) : ∃ xs ys, l = xs ++ ys ∧ (∀ c ∈ xs, f c = true) ∧
    ∀ c, ys.head? = some c → f c = false := by
  refine ⟨l.takeWhile f, l.dropWhile f, List.takeWhile_append_dropWhile.symm, fun c hc => ?_,
    fun c hc => ?_⟩
  · exact List.mem_takeWhile_imp hc
  · have hnot := List.head?_dropWhile_not f l
    rw [hc] at hnot
    exact hnot

omit [DecidableEq α] in
lemma takeWhile_span {f : α → Bool} (hx : ∀ c ∈ xs, f c = true)
    (hy : ∀ c, ys.head? = some c → f c = false) : (xs ++ ys).takeWhile f = xs := by
  rw [List.takeWhile_append_of_pos hx]
  cases ys with
  | nil => simp
  | cons c ys => rw [List.takeWhile_cons_of_neg (by simp [hy c rfl]), List.append_nil]

omit [DecidableEq α] in
lemma dropWhile_span {f : α → Bool} (hx : ∀ c ∈ xs, f c = true)
    (hy : ∀ c, ys.head? = some c → f c = false) : (xs ++ ys).dropWhile f = ys := by
  rw [List.dropWhile_append_of_pos hx]
  cases ys with
  | nil => rfl
  | cons c ys => rw [List.dropWhile_cons_of_neg (by simp [hy c rfl])]

end GreenBag.Cuts
