import Mathlib.Tactic
import Mathlib.Data.Int.Interval
import Mathlib.Algebra.Order.BigOperators.Group.Finset

/-! Closed integer ranges and how often a list of them covers a point. -/

namespace GreenBag.Ranges

structure Range where
  first : ℤ
  last : ℤ
  deriving DecidableEq, Repr

namespace Range

def size (r : Range) : ℤ := r.last - r.first + 1

instance : Membership ℤ Range := ⟨fun r b => r.first ≤ b ∧ b ≤ r.last⟩

instance (b : ℤ) (r : Range) : Decidable (b ∈ r) :=
  inferInstanceAs (Decidable (r.first ≤ b ∧ b ≤ r.last))

lemma mem_iff {b : ℤ} {r : Range} : b ∈ r ↔ r.first ≤ b ∧ b ≤ r.last := Iff.rfl

def Disjoint (r s : Range) : Prop := ∀ b, b ∈ r → b ∉ s

end Range

/-- How many of the ranges contain the point. -/
def cover (rs : List Range) (b : ℤ) : ℕ := rs.countP (fun r => decide (b ∈ r))

@[simp] lemma cover_nil (b : ℤ) : cover [] b = 0 := rfl

lemma cover_cons (r : Range) (rs : List Range) (b : ℤ) :
    cover (r :: rs) b = (if b ∈ r then 1 else 0) + cover rs b := by
  simp only [cover, List.countP_cons, decide_eq_true_eq]
  omega

@[simp] lemma cover_append (rs ss : List Range) (b : ℤ) :
    cover (rs ++ ss) b = cover rs b + cover ss b := by
  simp [cover, List.countP_append]

lemma cover_singleton (r : Range) (b : ℤ) : cover [r] b = if b ∈ r then 1 else 0 := by
  simp [cover_cons]

lemma cover_perm {rs ss : List Range} (h : rs.Perm ss) (b : ℤ) : cover rs b = cover ss b :=
  h.countP_eq _

lemma cover_pos_iff {rs : List Range} {b : ℤ} : 0 < cover rs b ↔ ∃ r ∈ rs, b ∈ r := by
  simp [cover, List.countP_pos_iff]

lemma cover_eq_zero_iff {rs : List Range} {b : ℤ} : cover rs b = 0 ↔ ∀ r ∈ rs, b ∉ r := by
  simp [cover, List.countP_eq_zero]

lemma cover_empty {r : Range} (h : r.last < r.first) (rs : List Range) (b : ℤ) :
    cover (r :: rs) b = cover rs b := by
  rw [cover_cons, if_neg (by rw [Range.mem_iff]; omega), Nat.zero_add]

lemma cover_cut {a m c : ℤ} (h₁ : a ≤ m) (h₂ : m ≤ c + 1) (rs : List Range) (b : ℤ) :
    cover (⟨a, m - 1⟩ :: ⟨m, c⟩ :: rs) b = cover (⟨a, c⟩ :: rs) b := by
  simp only [cover_cons, Range.mem_iff]
  split_ifs <;> omega

/-- The ranges are disjoint and their union is the interval from `lo` up to `hi`, exclusive. -/
def Tiles (rs : List Range) (lo hi : ℤ) : Prop :=
  rs.Pairwise Range.Disjoint ∧ ∀ b, (∃ r ∈ rs, b ∈ r) ↔ lo ≤ b ∧ b < hi

lemma disjoint_of_cover {rs : List Range} (h : ∀ b, cover rs b ≤ 1) :
    rs.Pairwise Range.Disjoint := by
  induction rs with
  | nil => exact List.Pairwise.nil
  | cons r rs ih =>
    refine List.pairwise_cons.mpr ⟨?_, ih (fun b => ?_)⟩
    · intro s hs b hr hb
      have hc := h b
      have hp : 0 < cover rs b := cover_pos_iff.mpr ⟨s, hs, hb⟩
      rw [cover_cons, if_pos hr] at hc
      omega
    · have hc := h b
      rw [cover_cons] at hc
      omega

lemma tiles_of_cover {rs : List Range} {lo hi : ℤ}
    (h : ∀ b, cover rs b = if lo ≤ b ∧ b < hi then 1 else 0) : Tiles rs lo hi := by
  refine ⟨disjoint_of_cover (fun b => ?_), fun b => ?_⟩
  · rw [h b]
    split <;> omega
  · rw [← cover_pos_iff, h b]
    split <;> simp_all

def total (rs : List Range) : ℤ := (rs.map Range.size).sum

@[simp] lemma total_nil : total [] = 0 := rfl

@[simp] lemma total_cons (r : Range) (rs : List Range) : total (r :: rs) = r.size + total rs := by
  simp [total]

lemma sum_cover_range (r : Range) (n : ℤ) (h₀ : 0 ≤ r.first) (h₁ : r.last < n)
    (h₂ : r.first ≤ r.last + 1) :
    ∑ b ∈ Finset.Ico 0 n, (if b ∈ r then 1 else 0 : ℤ) = r.size := by
  have hf : (Finset.Ico 0 n).filter (fun b => b ∈ r) = Finset.Icc r.first r.last := by
    ext b
    simp only [Finset.mem_filter, Finset.mem_Ico, Finset.mem_Icc, Range.mem_iff]
    omega
  rw [← Finset.sum_filter, hf, Finset.sum_const, Int.card_Icc, Range.size]
  simp only [nsmul_eq_mul, mul_one]
  omega

lemma sum_cover (rs : List Range) (n : ℤ)
    (h : ∀ r ∈ rs, 0 ≤ r.first ∧ r.last < n ∧ r.first ≤ r.last + 1) :
    ∑ b ∈ Finset.Ico 0 n, (cover rs b : ℤ) = total rs := by
  induction rs with
  | nil => simp
  | cons r rs ih =>
    obtain ⟨h₀, h₁, h₂⟩ := h r List.mem_cons_self
    have hr := ih (fun s hs => h s (List.mem_cons_of_mem _ hs))
    simp only [cover_cons, Nat.cast_add, Finset.sum_add_distrib, hr, total_cons]
    congr 1
    rw [← sum_cover_range r n h₀ h₁ h₂]
    exact Finset.sum_congr rfl (fun b _ => by split <;> simp)

/-- Ranges without overlap inside `[0, n)` whose sizes add up to `n` leave no gap. -/
lemma covered_of_total {rs : List Range} {n : ℤ} (hc : ∀ b, cover rs b ≤ 1)
    (h : ∀ r ∈ rs, 0 ≤ r.first ∧ r.last < n ∧ r.first ≤ r.last + 1) (ht : total rs = n) {b : ℤ}
    (h₀ : 0 ≤ b) (hb : b < n) : 0 < cover rs b := by
  by_contra hz
  have hlt : ∑ c ∈ Finset.Ico 0 n, (cover rs c : ℤ) < ∑ _c ∈ Finset.Ico 0 n, (1 : ℤ) := by
    refine Finset.sum_lt_sum (fun c _ => by exact_mod_cast hc c) ⟨b, ?_, ?_⟩
    · simp [h₀, hb]
    · have : cover rs b = 0 := by omega
      simp [this]
  rw [sum_cover rs n h, ht] at hlt
  simp only [Finset.sum_const, Int.card_Ico, nsmul_eq_mul, mul_one] at hlt
  omega

end GreenBag.Ranges
