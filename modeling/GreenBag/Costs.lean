import GreenBag.Hidden

/-! What a program spends at most: relations between states that are indexed by amounts, and the rules by
which the amounts of steps add up. -/

namespace GreenBag.Programs

variable {ε σ κ α β : Type} [AddMonoid κ]

/-- What may hold between two states where at most so much was spent from the one to the other. -/
structure Scale (κ σ : Type) [AddMonoid κ] where
  rel : κ → σ → σ → Prop
  refl : ∀ n s, rel n s s
  trans : ∀ {m n s t u}, rel m s t → rel n t u → rel (m + n) s u

/-- The program spends no more, whether it returns or crashes. -/
def Costs (S : Scale κ σ) (n : κ) (x : EStateM ε σ α) : Prop :=
  ∀ s, wp x (fun _ t => S.rel n s t) (fun _ t => S.rel n s t) s

variable {S : Scale κ σ} {m n : κ} {x : EStateM ε σ α} {y : EStateM ε σ β} {s t u : σ}

lemma Scale.trans_free (h : S.rel 0 s t) (h' : S.rel n t u) : S.rel n s u := by
  have hu := S.trans h h'
  rwa [zero_add] at hu

lemma Scale.free_trans (h : S.rel n s t) (h' : S.rel 0 t u) : S.rel n s u := by
  have hu := S.trans h h'
  rwa [add_zero] at hu

namespace Costs

variable {f : β → EStateM ε σ α} {c : Prop} [Decidable c]

lemma pure (a : α) : Costs S n (pure a : EStateM ε σ α) := fun s => S.refl n s

lemma throw (e : ε) : Costs S n (throw e : EStateM ε σ α) := fun s => S.refl n s

lemma get : Costs S n (get : EStateM ε σ σ) := fun s => S.refl n s

lemma modify {g : σ → σ} (hg : ∀ s, S.rel n s (g s)) :
    Costs S n (modify g : EStateM ε σ PUnit) := hg

lemma bind (hy : Costs S m y) (hf : ∀ b, Costs S n (f b)) : Costs S (m + n) (y >>= f) := by
  intro s
  rw [wp_bind]
  apply wp_mono (hy s)
  · intro b t ht
    apply wp_mono (hf b t)
    · exact fun _ _ hu => S.trans ht hu
    · exact fun _ _ hu => S.trans ht hu
  · exact fun _ t ht => S.trans ht (S.refl n t)

lemma free (hy : Costs S 0 y) (hf : ∀ b, Costs S n (f b)) : Costs S n (y >>= f) := by
  have h := bind hy hf
  rwa [zero_add] at h

lemma bind_free (hy : Costs S n y) (hf : ∀ b, Costs S 0 (f b)) : Costs S n (y >>= f) := by
  have h := bind hy hf
  rwa [add_zero] at h

lemma more (h : Costs S n x) : Costs S (n + m) x := by
  intro s
  apply wp_mono (h s)
  · exact fun _ t ht => S.trans ht (S.refl m t)
  · exact fun _ t ht => S.trans ht (S.refl m t)

lemma ite {z : EStateM ε σ α} (hx : c → Costs S n x) (hz : ¬ c → Costs S n z) :
    Costs S n (if c then x else z) := by
  split_ifs with h
  · exact hx h
  · exact hz h

lemma whenever {x : EStateM ε σ Unit} (hx : c → Costs S n x) : Costs S n (whenever c x) :=
  ite hx fun _ => pure ()

lemma ensure (e : ε) : Costs S n (ensure e c) := ite (fun _ => pure ()) fun _ => throw e

lemma demand (e : ε) (o : Option α) : Costs S n (demand e o) := by
  cases o with
  | none => exact throw e
  | some a => exact pure a

lemma each {f : α → EStateM ε σ Unit} {as : List α} (hf : ∀ a, Costs S n (f a)) :
    Costs S (as.length • n) (each f as) := by
  induction as with
  | nil => exact pure ()
  | cons a as ih =>
    have h := bind (hf a) fun _ => ih
    rwa [← succ_nsmul'] at h

lemma each_free {f : α → EStateM ε σ Unit} {as : List α} (hf : ∀ a, Costs S 0 (f a)) :
    Costs S 0 (Programs.each f as) := by
  have h : Costs S (as.length • 0) (Programs.each f as) := each hf
  rwa [nsmul_zero] at h

lemma wp {post : α → σ → Prop} {crash : ε → σ → Prop} (h : Costs S n x)
    (hp : ∀ a t, S.rel n s t → post a t) (hc : ∀ e t, S.rel n s t → crash e t) :
    wp x post crash s :=
  wp_mono (h s) (fun a t ht => hp a t ht) fun e t ht => hc e t ht

end Costs

end GreenBag.Programs
