import Mathlib.Tactic

/-! Machine integers in two's complement: the values of a width, and what becomes of a value that is
converted to it. -/

namespace GreenBag.Words

def InRange (width : ℕ) (x : ℤ) : Prop := -2 ^ (width - 1) ≤ x ∧ x < 2 ^ (width - 1)

instance (width : ℕ) (x : ℤ) : Decidable (InRange width x) := inferInstanceAs (Decidable (_ ∧ _))

def narrow (width : ℕ) (x : ℤ) : ℤ := x.bmod (2 ^ width)

variable {width : ℕ} {x y : ℤ}

lemma InRange.mono_of_nonneg (h : InRange width y) (h₀ : 0 ≤ x) (hxy : x ≤ y) : InRange width x := by
  have hp : (0 : ℤ) < 2 ^ (width - 1) := by positivity
  exact ⟨by omega, hxy.trans_lt h.2⟩

lemma narrow_of_inRange (hw : 0 < width) (h : InRange width x) : narrow width x = x := by
  obtain ⟨n, rfl⟩ := Nat.exists_eq_succ_of_ne_zero hw.ne'
  obtain ⟨h₁, h₂⟩ := h
  rw [Nat.succ_sub_one] at h₁ h₂
  apply Int.bmod_eq_of_le
  · push_cast
    rw [pow_succ]
    omega
  · push_cast
    rw [pow_succ]
    omega

lemma narrow_inRange (hw : 0 < width) (x : ℤ) : InRange width (narrow width x) := by
  obtain ⟨n, rfl⟩ := Nat.exists_eq_succ_of_ne_zero hw.ne'
  have hpos : 0 < 2 ^ (n + 1) := by positivity
  have hlow := Int.le_bmod (x := x) hpos
  have hhigh := Int.bmod_lt (x := x) hpos
  have hp : (2 : ℤ) ^ (n + 1) = 2 ^ n * 2 := pow_succ ..
  push_cast at hlow hhigh
  simp only [InRange, narrow, Nat.succ_eq_add_one, Nat.add_sub_cancel]
  omega

lemma dvd_sub_narrow (width : ℕ) (x : ℤ) : 2 ^ width ∣ x - narrow width x := by
  have h := Int.dvd_self_sub_bmod (x := x) (m := 2 ^ width)
  push_cast at h
  exact h

end GreenBag.Words
