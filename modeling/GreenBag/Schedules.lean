import GreenBag.Ranges

/-! Fetching a file over several links. Each link has a queue of byte ranges; what no link has been
given lies from the frontier on. Bytes change hands, but each is always in one place. -/

namespace GreenBag.Schedules

open Ranges Function

structure Schedule (ι : Type) where
  size : ℤ
  done : List Range
  queue : ι → List Range
  frontier : ℤ

namespace Schedule

variable {ι : Type}

def unassigned (p : Schedule ι) : Range := ⟨p.frontier, p.size - 1⟩

lemma unassigned_cut {p : Schedule ι} {n : ℤ} (h₀ : 0 ≤ n) (hn : p.frontier + n ≤ p.size) (b : ℤ) :
    cover [p.unassigned] b = cover [⟨p.frontier, p.frontier + n - 1⟩] b +
      cover [(⟨p.frontier + n, p.size - 1⟩ : Range)] b := by
  have hc := cover_cut (a := p.frontier) (m := p.frontier + n) (c := p.size - 1)
    (by omega) (by omega) [] b
  rw [cover_cons] at hc
  simp only [unassigned, cover_singleton] at hc ⊢
  omega

variable [Fintype ι]

/-- In how many places the byte is: fetched, queued on a link, or not given to any. -/
def load (p : Schedule ι) (b : ℤ) : ℕ :=
  cover p.done b + ∑ i, cover (p.queue i) b + cover [p.unassigned] b

def Balanced (p : Schedule ι) : Prop :=
  ∀ b, p.load b = if 0 ≤ b ∧ b < p.size then 1 else 0

/-- What is still to be fetched. -/
def missing (p : Schedule ι) (b : ℤ) : ℕ := ∑ i, cover (p.queue i) b + cover [p.unassigned] b

lemma load_eq (p : Schedule ι) (b : ℤ) : p.load b = cover p.done b + p.missing b := by
  simp only [load, missing]
  omega

variable [DecidableEq ι]

inductive Step : Schedule ι → Schedule ι → Prop
  | fetch {p : Schedule ι} (i : ι) {a c n : ℤ} {rest : List Range} :
      p.queue i = ⟨a, c⟩ :: rest → 0 ≤ n → a + n ≤ c + 1 →
      Step p { p with
        done := ⟨a, a + n - 1⟩ :: p.done
        queue := update p.queue i (⟨a + n, c⟩ :: rest) }
  | retire {p : Schedule ι} (i : ι) {r : Range} {rest : List Range} :
      p.queue i = r :: rest → r.last < r.first → Step p { p with queue := update p.queue i rest }
  | extend {p : Schedule ι} (n : ℤ) (share : ι → List Range) :
      0 ≤ n → p.frontier + n ≤ p.size →
      (∀ b, ∑ i, cover (share i) b = cover [⟨p.frontier, p.frontier + n - 1⟩] b) →
      Step p { p with queue := fun i => p.queue i ++ share i, frontier := p.frontier + n }
  | deal {p : Schedule ι} (kept share share' : ι → List Range) :
      p.queue = (fun i => kept i ++ share i) →
      (∀ b, ∑ i, cover (share' i) b = ∑ i, cover (share i) b) →
      Step p { p with queue := fun i => kept i ++ share' i }

lemma sum_split (f : ι → ℕ) (i : ι) : ∑ j, f j = f i + ∑ j ∈ Finset.univ.erase i, f j :=
  (Finset.add_sum_erase _ f (Finset.mem_univ i)).symm

lemma sum_update (q : ι → List Range) (i : ι) (rs : List Range) (b : ℤ) :
    ∑ j, cover (update q i rs j) b + cover (q i) b = ∑ j, cover (q j) b + cover rs b := by
  rw [sum_split _ i, sum_split (fun j => cover (q j) b) i, update_self]
  have hr : ∑ j ∈ Finset.univ.erase i, cover (update q i rs j) b =
      ∑ j ∈ Finset.univ.erase i, cover (q j) b :=
    Finset.sum_congr rfl (fun j hj => by rw [update_of_ne (Finset.ne_of_mem_erase hj)])
  omega

lemma Step.load_eq {p q : Schedule ι} (h : Step p q) (b : ℤ) : q.load b = p.load b := by
  cases h with
  | @fetch i a c n rest hq h₀ hn =>
    have hs := sum_update p.queue i (⟨a + n, c⟩ :: rest) b
    have hc := cover_cut (a := a) (m := a + n) (c := c) (by omega) (by omega) rest b
    rw [hq] at hs
    rw [cover_cons] at hc
    simp only [load, cover_cons, unassigned] at hs hc ⊢
    omega
  | @retire i r rest hq hr =>
    have hs := sum_update p.queue i rest b
    rw [hq, cover_empty hr] at hs
    simp only [load, unassigned]
    omega
  | extend n share h₀ hn hc =>
    have hu := unassigned_cut h₀ hn b
    have hb := hc b
    simp only [load, unassigned, cover_append, Finset.sum_add_distrib] at hu ⊢
    omega
  | deal kept share share' hq hc =>
    have hb := hc b
    simp only [load, unassigned, hq, cover_append, Finset.sum_add_distrib]
    omega

lemma load_drop {p : Schedule ι} (i : ι) {r : Range} {rest : List Range}
    (hq : p.queue i = r :: rest) (b : ℤ) :
    ({ p with queue := update p.queue i rest } : Schedule ι).load b ≤ p.load b := by
  have hs := sum_update p.queue i rest b
  rw [hq, cover_cons] at hs
  simp only [load, unassigned]
  omega

lemma Step.size_eq {p q : Schedule ι} (h : Step p q) : q.size = p.size := by cases h <;> rfl

lemma Step.balanced {p q : Schedule ι} (h : Step p q) (hp : p.Balanced) : q.Balanced := by
  intro b
  rw [h.load_eq, h.size_eq]
  exact hp b

abbrev Steps : Schedule ι → Schedule ι → Prop := Relation.ReflTransGen Step

lemma Steps.load_eq {p q : Schedule ι} (h : Steps p q) (b : ℤ) : q.load b = p.load b := by
  induction h with
  | refl => rfl
  | tail _ hs ih => rw [hs.load_eq, ih]

lemma Steps.balanced {p q : Schedule ι} (h : Steps p q) (hp : p.Balanced) : q.Balanced := by
  induction h with
  | refl => exact hp
  | tail _ hs ih => exact hs.balanced ih

end Schedule

end GreenBag.Schedules
