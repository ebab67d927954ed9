import Mathlib.Tactic

/-! Weakest preconditions of programs that carry a state and may crash. A crash keeps the state it
was reached in, so a postcondition can be stated for it as well. -/

namespace GreenBag.Programs

variable {ε σ α β : Type}

def wp (x : EStateM ε σ α) (post : α → σ → Prop) (crash : ε → σ → Prop) (s : σ) : Prop :=
  match x s with
  | .ok a t => post a t
  | .error e t => crash e t

variable {post : α → σ → Prop} {crash : ε → σ → Prop} {s : σ}

lemma wp_iff (x : EStateM ε σ α) :
    wp x post crash s ↔
      (∀ a t, x s = .ok a t → post a t) ∧ (∀ e t, x s = .error e t → crash e t) := by
  unfold wp
  cases h : x s <;> simp

lemma wp_mono {x : EStateM ε σ α} {post' : α → σ → Prop} {crash' : ε → σ → Prop}
    (h : wp x post crash s) (hp : ∀ a t, post a t → post' a t)
    (hc : ∀ e t, crash e t → crash' e t) : wp x post' crash' s := by
  rw [wp_iff] at h ⊢
  exact ⟨fun a t ht => hp a t (h.1 a t ht), fun e t ht => hc e t (h.2 e t ht)⟩

lemma wp_and {x : EStateM ε σ α} {post' : α → σ → Prop} {crash' : ε → σ → Prop}
    (h : wp x post crash s) (h' : wp x post' crash' s) :
    wp x (fun a t => post a t ∧ post' a t) (fun e t => crash e t ∧ crash' e t) s := by
  rw [wp_iff] at h h' ⊢
  exact ⟨fun a t ht => ⟨h.1 a t ht, h'.1 a t ht⟩, fun e t ht => ⟨h.2 e t ht, h'.2 e t ht⟩⟩

lemma wp_of_ok {x : EStateM ε σ α} {a : α} {t : σ} (h : x s = .ok a t) :
    wp x post crash s ↔ post a t := by
  rw [wp, h]

lemma bind_of_ok {x : EStateM ε σ β} {f : β → EStateM ε σ α} {b : β} {t : σ} (h : x s = .ok b t) :
    (x >>= f) s = f b t := by
  show EStateM.bind x f s = _
  rw [EStateM.bind, h]

lemma wp_of_forall {x : EStateM ε σ α} (hp : ∀ a t, post a t) (hc : ∀ e t, crash e t) :
    wp x post crash s :=
  (wp_iff x).mpr ⟨fun a t _ => hp a t, fun e t _ => hc e t⟩

lemma exists_of_wp {x : EStateM ε σ α} (h : wp x post (fun _ _ => False) s) :
    ∃ a t, x s = .ok a t ∧ post a t := by
  unfold wp at h
  cases hx : x s with
  | ok a t =>
    rw [hx] at h
    exact ⟨a, t, rfl, h⟩
  | error e t =>
    rw [hx] at h
    exact h.elim

@[simp] lemma wp_pure (a : α) :
    wp (pure a : EStateM ε σ α) post crash s ↔ post a s := Iff.rfl

@[simp] lemma wp_bind (x : EStateM ε σ β) (f : β → EStateM ε σ α) :
    wp (x >>= f) post crash s ↔ wp x (fun b t => wp (f b) post crash t) crash s := by
  show wp (EStateM.bind x f) post crash s ↔ _
  unfold wp EStateM.bind
  cases x s <;> rfl

@[simp] lemma wp_map (f : β → α) (x : EStateM ε σ β) :
    wp (f <$> x) post crash s ↔ wp x (fun b t => post (f b) t) crash s := by
  show wp (EStateM.map f x) post crash s ↔ _
  unfold wp EStateM.map
  cases x s <;> rfl

@[simp] lemma wp_seqRight (x : EStateM ε σ β) (y : EStateM ε σ α) :
    wp (x *> y) post crash s ↔ wp x (fun _ t => wp y post crash t) crash s := by
  show wp (EStateM.seqRight x fun _ => y) post crash s ↔ _
  unfold wp EStateM.seqRight
  cases x s <;> rfl

@[simp] lemma wp_throw (e : ε) :
    wp (throw e : EStateM ε σ α) post crash s ↔ crash e s := Iff.rfl

@[simp] lemma wp_get {post : σ → σ → Prop} :
    wp (get : EStateM ε σ σ) post crash s ↔ post s s := Iff.rfl

@[simp] lemma wp_set {post : PUnit → σ → Prop} (t : σ) :
    wp (set t : EStateM ε σ PUnit) post crash s ↔ post ⟨⟩ t := Iff.rfl

@[simp] lemma wp_modify {post : PUnit → σ → Prop} (f : σ → σ) :
    wp (modify f : EStateM ε σ PUnit) post crash s ↔ post ⟨⟩ (f s) := Iff.rfl

@[simp] lemma wp_ite (c : Prop) [Decidable c] (x y : EStateM ε σ α) :
    wp (if c then x else y) post crash s ↔
      (c → wp x post crash s) ∧ (¬ c → wp y post crash s) := by
  by_cases h : c <;> simp [h]

/-- Read a possibly missing value, crashing where there is none. -/
def demand (e : ε) : Option α → EStateM ε σ α
  | some a => pure a
  | none => throw e

@[simp] lemma demand_some (e : ε) (a : α) : (demand e (some a) : EStateM ε σ α) = pure a := rfl

@[simp] lemma demand_none (e : ε) : (demand e none : EStateM ε σ α) = throw e := rfl

@[simp] lemma wp_demand (e : ε) (o : Option α) :
    wp (demand e o) post crash s ↔ (∀ a, o = some a → post a s) ∧ (o = none → crash e s) := by
  cases o <;> simp

/-- Crash unless a condition holds. -/
def ensure (e : ε) (c : Prop) [Decidable c] : EStateM ε σ Unit :=
  if c then pure () else throw e

@[simp] lemma wp_ensure {post : Unit → σ → Prop} (e : ε) (c : Prop) [Decidable c] :
    wp (ensure e c) post crash s ↔ (c → post () s) ∧ (¬ c → crash e s) := by
  simp [ensure]

/-- Run a program only under a condition. -/
def whenever (c : Prop) [Decidable c] (x : EStateM ε σ Unit) : EStateM ε σ Unit :=
  if c then x else pure ()

@[simp] lemma wp_whenever {post : Unit → σ → Prop} (c : Prop) [Decidable c]
    (x : EStateM ε σ Unit) :
    wp (whenever c x) post crash s ↔ (c → wp x post crash s) ∧ (¬ c → post () s) := by
  simp [whenever]

/-- Run a program for each element of a list in turn. -/
def each (f : α → EStateM ε σ Unit) : List α → EStateM ε σ Unit
  | [] => pure ()
  | a :: as => do
    f a
    each f as

@[simp] lemma each_nil (f : α → EStateM ε σ Unit) : each f [] = pure () := rfl

@[simp] lemma each_cons (f : α → EStateM ε σ Unit) (a : α) (as : List α) :
    each f (a :: as) = (f a >>= fun _ => each f as) := rfl

lemma wp_each {f : α → EStateM ε σ Unit} {I : σ → Prop} {as : List α} (h : I s)
    (hf : ∀ a ∈ as, ∀ t, I t → wp (f a) (fun _ u => I u) crash t) :
    wp (each f as) (fun _ u => I u) crash s := by
  induction as generalizing s with
  | nil => exact h
  | cons a as ih =>
    rw [each_cons, wp_bind]
    refine wp_mono (hf a List.mem_cons_self s h) ?_ (fun _ _ h => h)
    exact fun _ t ht => ih ht fun b hb => hf b (List.mem_cons_of_mem _ hb)

end GreenBag.Programs
