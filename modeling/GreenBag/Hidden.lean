import GreenBag.Machines

/-! Frames: what all steps of a program keep, and which faults it may crash with. Programs that are blind
to a part of the state neither look at it nor change it, and from states that are related a program in
lockstep ends in the same way. -/

namespace GreenBag.Programs

variable {ε σ η α β : Type}

/-- What holds between the state before some steps and the one behind them, and the faults that are
allowed in a state. -/
structure Frame (ε σ : Type) where
  rel : σ → σ → Prop
  fault : ε → σ → Prop
  refl : ∀ s, rel s s
  trans : ∀ {s t u}, rel s t → rel t u → rel s u

def Keeps (F : Frame ε σ) (x : EStateM ε σ α) : Prop :=
  ∀ s, wp x (fun _ t => F.rel s t) (fun e t => F.fault e t ∧ F.rel s t) s

/-- The program is made of steps that do not depend on what `put` puts into the state, and keep it. -/
inductive Blind (put : σ → η → σ) (F : Frame ε σ) : {α : Type} → EStateM ε σ α → Prop
  | pure {α : Type} (a : α) : Blind put F (pure a)
  | throw {α : Type} {e : ε} : (∀ s, F.fault e s) → Blind put F (throw e : EStateM ε σ α)
  | modify {f : σ → σ} : (∀ s h, f (put s h) = put (f s) h) → (∀ s, F.rel s (f s)) →
      Blind put F (modify f)
  | read {α : Type} {k : σ → EStateM ε σ α} : (∀ s h, k (put s h) = k s) →
      (∀ s, Blind put F (k s)) → Blind put F (get >>= k)
  | bind {α β : Type} {x : EStateM ε σ β} {f : β → EStateM ε σ α} : Blind put F x →
      (∀ b, Blind put F (f b)) → Blind put F (x >>= f)

/-- The result with another state. -/
def mapState (f : σ → σ) : EStateM.Result ε σ α → EStateM.Result ε σ α
  | .ok a s => .ok a (f s)
  | .error e s => .error e (f s)

section

variable {F G : Frame ε σ} {put : σ → η → σ} {x : EStateM ε σ α} {c : Prop} [Decidable c]

namespace Keeps

lemma pure (a : α) : Keeps F (pure a) := fun s => F.refl s

lemma throw {e : ε} (he : ∀ s, F.fault e s) : Keeps F (throw e : EStateM ε σ α) :=
  fun s => ⟨he s, F.refl s⟩

lemma get : Keeps F (get : EStateM ε σ σ) := fun s => F.refl s

lemma modify {f : σ → σ} (hf : ∀ s, F.rel s (f s)) : Keeps F (modify f) := hf

lemma bind {y : EStateM ε σ β} {f : β → EStateM ε σ α} (hy : Keeps F y) (hf : ∀ b, Keeps F (f b)) :
    Keeps F (y >>= f) := by
  intro s
  rw [wp_bind]
  refine wp_mono (hy s) (fun b t ht => ?_) (fun _ _ h => h)
  exact wp_mono (hf b t) (fun _ _ hu => F.trans ht hu) fun _ _ hu => ⟨hu.1, F.trans ht hu.2⟩

lemma ite {y : EStateM ε σ α} (hx : c → Keeps F x) (hy : ¬ c → Keeps F y) :
    Keeps F (if c then x else y) := by
  split_ifs with h
  · exact hx h
  · exact hy h

lemma whenever {x : EStateM ε σ Unit} (hx : c → Keeps F x) : Keeps F (whenever c x) :=
  ite hx fun _ => pure ()

lemma ensure {e : ε} (he : ∀ s, F.fault e s) : Keeps F (ensure e c) :=
  ite (fun _ => pure ()) fun _ => throw he

lemma demand {e : ε} (he : ∀ s, F.fault e s) (o : Option α) : Keeps F (demand e o) := by
  cases o with
  | none => exact throw he
  | some a => exact pure a

lemma each {f : α → EStateM ε σ Unit} {as : List α} (hf : ∀ a, Keeps F (f a)) :
    Keeps F (each f as) := by
  induction as with
  | nil => exact pure ()
  | cons a as ih => exact bind (hf a) fun _ => ih

lemma wp {post : α → σ → Prop} {crash : ε → σ → Prop} {s : σ} (h : Keeps F x)
    (hp : ∀ a t, F.rel s t → post a t) (hc : ∀ e t, F.fault e t → F.rel s t → crash e t) :
    wp x post crash s :=
  wp_mono (h s) (fun a t ht => hp a t ht) fun e t ht => hc e t ht.1 ht.2

lemma mono (h : Keeps F x) (hr : ∀ s t, F.rel s t → G.rel s t) (he : ∀ e s, F.fault e s → G.fault e s) :
    Keeps G x :=
  fun s => h.wp (fun _ t ht => hr s t ht) fun e t hf ht => ⟨he e t hf, hr s t ht⟩

end Keeps

namespace Blind

lemma keeps (h : Blind put F x) : Keeps F x := by
  induction h with
  | pure a => exact .pure a
  | throw he => exact .throw he
  | modify _ hf => exact .modify hf
  | read _ _ ih => exact .bind .get ih
  | bind _ _ ihx ihf => exact .bind ihx ihf

lemma run_put (h : Blind put F x) (s : σ) (c : η) : x (put s c) = mapState (put · c) (x s) := by
  induction h generalizing s with
  | pure a => rfl
  | throw he => rfl
  | modify hp _ =>
    show EStateM.Result.ok PUnit.unit _ = EStateM.Result.ok PUnit.unit _
    rw [hp]
  | @read _ k hk _ ih =>
    show k (put s c) (put s c) = mapState (put · c) (k s s)
    rw [hk, ih]
  | @bind _ _ y f _ _ ihx ihf =>
    show EStateM.bind y f (put s c) = mapState (put · c) (EStateM.bind y f s)
    rw [EStateM.bind, EStateM.bind, ihx]
    cases hy : y s with
    | ok b t => exact ihf b t
    | error e t => rfl

lemma view_eq (h : Blind put F x) {view : σ → η} (hp : ∀ s, put s (view s) = s)
    (hv : ∀ s d, view (put s d) = d) (s : σ) :
    Programs.wp x (fun _ t => view t = view s) (fun _ t => view t = view s) s := by
  have he := h.run_put s (view s)
  rw [hp] at he
  rw [wp_iff]
  refine ⟨fun a t ht => ?_, fun e t ht => ?_⟩
  · rw [ht] at he
    rw [(EStateM.Result.ok.inj he).2, hv]
  · rw [ht] at he
    rw [(EStateM.Result.error.inj he).2, hv]

/-- A program that is blind to something is blind to each part of it. -/
lemma part {θ : Type} {put' : σ → θ → σ} (h : Blind put F x) (view : σ → η) (insert : η → θ → η)
    (hp : ∀ s, put s (view s) = s) (hv : ∀ s d, view (put s d) = d)
    (hput : ∀ s c, put' s c = put s (insert (view s) c)) : Blind put' F x := by
  induction h with
  | pure a => exact .pure a
  | throw he => exact .throw he
  | @modify f hf hr =>
    refine .modify (fun s c => ?_) hr
    have hview : view (f s) = view s := by
      have hs := hf s (view s)
      rw [hp] at hs
      rw [hs, hv]
    rw [hput, hput, hf, hview]
  | read hk _ ih => exact .read (fun s c => by rw [hput, hk]) ih
  | bind _ _ ihx ihf => exact .bind ihx ihf

lemma mono (h : Blind put F x) (hr : ∀ s t, F.rel s t → G.rel s t) (he : ∀ e s, F.fault e s → G.fault e s) :
    Blind put G x := by
  induction h with
  | pure a => exact .pure a
  | throw hf => exact .throw fun s => he _ s (hf s)
  | modify hp hf => exact .modify hp fun s => hr _ _ (hf s)
  | read hk _ ih => exact .read hk ih
  | bind _ _ ihx ihf => exact .bind ihx ihf

lemma ite {y : EStateM ε σ α} (hx : c → Blind put F x) (hy : ¬ c → Blind put F y) :
    Blind put F (if c then x else y) := by
  split_ifs with h
  · exact hx h
  · exact hy h

lemma whenever {x : EStateM ε σ Unit} (hx : c → Blind put F x) : Blind put F (whenever c x) :=
  ite hx fun _ => pure ()

lemma ensure {e : ε} (he : ∀ s, F.fault e s) : Blind put F (ensure e c) :=
  ite (fun _ => pure ()) fun _ => throw he

lemma demand {e : ε} (he : ∀ s, F.fault e s) (o : Option α) : Blind put F (demand e o) := by
  cases o with
  | none => exact throw he
  | some a => exact pure a

lemma each {f : α → EStateM ε σ Unit} {as : List α} (hf : ∀ a, Blind put F (f a)) :
    Blind put F (each f as) := by
  induction as with
  | nil => exact pure ()
  | cons a as ih => exact bind (hf a) fun _ => ih

end Blind

end

/-- Both end in the same way, in related states. -/
inductive Matches (R : σ → σ → Prop) : EStateM.Result ε σ α → EStateM.Result ε σ α → Prop
  | ok {a s t} : R s t → Matches R (.ok a s) (.ok a t)
  | error {e s t} : R s t → Matches R (.error e s) (.error e t)

def Lockstep (R : σ → σ → Prop) (x : EStateM ε σ α) : Prop := ∀ s t, R s t → Matches R (x s) (x t)

namespace Lockstep

variable {R : σ → σ → Prop} {F : Frame ε σ} {put : σ → η → σ} {x : EStateM ε σ α} {c : Prop} [Decidable c]

lemma pure (a : α) : Lockstep R (pure a : EStateM ε σ α) := fun _ _ h => .ok h

lemma throw (e : ε) : Lockstep R (throw e : EStateM ε σ α) := fun _ _ h => .error h

lemma modify {f : σ → σ} (hf : ∀ s t, R s t → R (f s) (f t)) :
    Lockstep R (modify f : EStateM ε σ Unit) :=
  fun s t h => .ok (hf s t h)

lemma read {k : σ → EStateM ε σ α} (hk : ∀ s t, R s t → k t = k s) (h : ∀ s, Lockstep R (k s)) :
    Lockstep R (get >>= k) := by
  intro s t hst
  show Matches R (k s s) (k t t)
  rw [hk s t hst]
  exact h s s t hst

lemma bind {y : EStateM ε σ β} {f : β → EStateM ε σ α} (hy : Lockstep R y)
    (hf : ∀ b, Lockstep R (f b)) : Lockstep R (y >>= f) := by
  intro s t hst
  show Matches R (EStateM.bind y f s) (EStateM.bind y f t)
  rw [EStateM.bind, EStateM.bind]
  have h := hy s t hst
  generalize y s = q, y t = r at h
  cases h with
  | ok h => exact hf _ _ _ h
  | error h => exact .error h

lemma ite {y : EStateM ε σ α} (hx : c → Lockstep R x) (hy : ¬ c → Lockstep R y) :
    Lockstep R (if c then x else y) := by
  split_ifs with h
  · exact hx h
  · exact hy h

lemma whenever {x : EStateM ε σ Unit} (hx : c → Lockstep R x) : Lockstep R (whenever c x) :=
  ite hx fun _ => pure ()

lemma ensure (e : ε) : Lockstep R (ensure e c) := ite (fun _ => pure ()) fun _ => throw e

/-- States that differ in the hidden part only are all the same to a blind program. -/
lemma of_blind {view : σ → η} (h : Blind put F x) (hp : ∀ s, put s (view s) = s)
    (hv : ∀ s d, view (put s d) = d) (hR : ∀ s t, R s t → ∃ d, t = put s d)
    (hF : ∀ s t d, R s (put s d) → F.rel s t → view t = view s → R t (put t d)) : Lockstep R x := by
  intro s t hst
  obtain ⟨d, rfl⟩ := hR s t hst
  have hk := (wp_iff _).mp (wp_and (h.keeps s) (h.view_eq hp hv s))
  rw [h.run_put s d]
  cases hx : x s with
  | ok a u => exact .ok (hF s u d hst (hk.1 a u hx).1 (hk.1 a u hx).2)
  | error e u => exact .error (hF s u d hst (hk.2 e u hx).1.2 (hk.2 e u hx).2)

end Lockstep

end GreenBag.Programs

namespace GreenBag.Machines

open Programs

variable {σ ε Label : Type} {M : Machine σ ε Label} [∀ s l, Decidable (M.enabled s l)]
  {R : σ → σ → Prop}

/-- Where related states enable the same steps and all steps are in lockstep, so are all lists of them. -/
lemma lockstep_perform (he : ∀ s t l, R s t → (M.enabled t l ↔ M.enabled s l))
    (hx : ∀ l, Lockstep R (M.exec l)) (ls : List Label) {s t : σ} (h : R s t) :
    Matches R (perform M ls s) (perform M ls t) := by
  induction ls generalizing s t with
  | nil => exact .ok h
  | cons l ls ih =>
    rw [perform, perform]
    by_cases hl : M.enabled s l
    · rw [if_pos hl, if_pos ((he s t l h).mpr hl)]
      have hm := hx l s t h
      generalize M.exec l s = q, M.exec l t = r at hm
      cases hm with
      | ok h => exact ih h
      | error h => exact .error h
    · rw [if_neg hl, if_neg (mt (he s t l h).mp hl)]
      exact .error h

end GreenBag.Machines
