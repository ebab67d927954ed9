import GreenBag.Hidden

/-! Programs that work on a part of the state, and steps of a machine that are taken on a part of the
state of another one. -/

namespace GreenBag.Programs

/-- A part of a state that can be looked at and replaced. -/
structure Part (σ τ : Type) where
  view : σ → τ
  put : σ → τ → σ
  view_put : ∀ s t, view (put s t) = t

variable {ε σ τ α : Type} {p : Part σ τ} {x : EStateM ε τ α} {s : σ}

def zoom (p : Part σ τ) (x : EStateM ε τ α) : EStateM ε σ α := fun s =>
  match x (p.view s) with
  | .ok a t => .ok a (p.put s t)
  | .error e t => .error e (p.put s t)

@[simp] lemma wp_zoom {post : α → σ → Prop} {crash : ε → σ → Prop} :
    wp (zoom p x) post crash s ↔
      wp x (fun a t => post a (p.put s t)) (fun e t => crash e (p.put s t)) (p.view s) := by
  unfold wp zoom
  cases x (p.view s) <;> rfl

/-- What is kept of the part. -/
def Frame.on (F : Frame ε τ) (p : Part σ τ) : Frame ε σ where
  rel s t := F.rel (p.view s) (p.view t)
  fault e s := F.fault e (p.view s)
  refl s := F.refl (p.view s)
  trans h h' := F.trans h h'

lemma Keeps.zoom {F : Frame ε τ} (h : Keeps F x) : Keeps (F.on p) (zoom p x) := by
  intro s
  rw [wp_zoom]
  refine wp_mono (h (p.view s)) (fun _ t ht => ?_) fun e t ht => ?_
  · rwa [← p.view_put s t] at ht
  · rwa [← p.view_put s t] at ht

lemma wp_result (x : EStateM ε σ α) (s : σ) :
    wp x (fun a t => x s = .ok a t) (fun e t => x s = .error e t) s :=
  (wp_iff x).mpr ⟨fun _ _ h => h, fun _ _ h => h⟩

end GreenBag.Programs

namespace GreenBag.Machines

open Programs

variable {ε τ Label : Type} {M : Machine τ ε Label}

def performs (M : Machine τ ε Label) [∀ s l, Decidable (M.enabled s l)] (ls : List Label) :
    EStateM (Option ε) τ Unit := perform M ls

/-- Steps that keep an invariant and take each state to a related one, also where one crashes, do so when
they are taken one after the other. -/
lemma wp_performs [∀ s l, Decidable (M.enabled s l)] {I : τ → Prop} {R : τ → τ → Prop} {t : τ}
    (hrefl : ∀ s, R s s) (htrans : ∀ s t u, R s t → R t u → R s u)
    (hstep : ∀ s l, I s → M.enabled s l → wp (M.exec l) (fun _ t => I t ∧ R s t) (fun _ t => R s t) s)
    (ls : List Label) (h : I t) : wp (performs M ls) (fun _ u => I u ∧ R t u) (fun _ u => R t u) t := by
  induction ls generalizing t with
  | nil => exact ⟨h, hrefl t⟩
  | cons l ls ih =>
    unfold wp performs perform
    split_ifs with he
    · have hl := (wp_iff _).mp (hstep t l h he)
      cases hx : M.exec l t with
      | ok _ u =>
        obtain ⟨hu, hr⟩ := hl.1 _ u hx
        exact wp_mono (ih hu) (fun _ v hv => ⟨hv.1, htrans t u v hr hv.2⟩) fun _ v hv => htrans t u v hr hv
      | error e u => exact hl.2 e u hx
    · exact hrefl t

/-- The steps were all taken, and led to a state with the property. -/
def Ends (P : σ → Prop) : EStateM.Result ε σ Unit → Prop
  | .ok _ s => P s
  | .error _ _ => False

instance (P : σ → Prop) [DecidablePred P] : DecidablePred fun r : EStateM.Result ε σ Unit => Ends P r
  | .ok _ s => inferInstanceAs (Decidable (P s))
  | .error _ _ => isFalse id

lemma exists_of_ends {N : Machine σ ε Label} [∀ s l, Decidable (N.enabled s l)] {P : σ → Prop}
    (h : Reachable N allow s) (ls : List Label) (hl : ∀ l ∈ ls, allow l) (he : Ends P (perform N ls s)) :
    ∃ t, Reachable N allow t ∧ P t := by
  cases hr : perform N ls s with
  | ok _ t =>
    rw [hr] at he
    exact ⟨t, perform_reachable ls hl h hr, he⟩
  | error e t =>
    rw [hr] at he
    exact he.elim

end GreenBag.Machines
