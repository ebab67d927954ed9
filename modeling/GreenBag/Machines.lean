import GreenBag.Programs

/-! Labelled machines whose steps are programs: reachable states, crashes, invariants. -/

namespace GreenBag.Machines

open Programs

structure Machine (σ ε Label : Type) where
  start : σ → Prop
  enabled : σ → Label → Prop
  exec : Label → EStateM ε σ Unit

variable {σ ε Label : Type} {M : Machine σ ε Label} {allow allow' : Label → Prop}

/-- The states reached from a start by enabled steps whose labels are all allowed. -/
inductive Reachable (M : Machine σ ε Label) (allow : Label → Prop) : σ → Prop
  | start {s} : M.start s → Reachable M allow s
  | step {s t} (l : Label) : Reachable M allow s → M.enabled s l → allow l →
      M.exec l s = .ok () t → Reachable M allow t

def Crashes (M : Machine σ ε Label) (allow : Label → Prop) (e : ε) (t : σ) : Prop :=
  ∃ s l, Reachable M allow s ∧ M.enabled s l ∧ allow l ∧ M.exec l s = .error e t

lemma Reachable.mono {s : σ} (h : Reachable M allow s) (hl : ∀ l, allow l → allow' l) :
    Reachable M allow' s := by
  induction h with
  | start h => exact .start h
  | step l _ he ha hs ih => exact .step l ih he (hl l ha) hs

lemma Reachable.invariant {I : σ → Prop} {s : σ} (h : Reachable M allow s)
    (h₀ : ∀ s, M.start s → I s)
    (hstep : ∀ s l, I s → M.enabled s l → allow l →
      wp (M.exec l) (fun _ t => I t) (fun _ _ => True) s) : I s := by
  induction h with
  | start h => exact h₀ _ h
  | step l _ he ha hs ih => exact ((wp_iff _).mp (hstep _ l ih he ha)).1 () _ hs

lemma Crashes.invariant {I : σ → Prop} {C : ε → σ → Prop} {e : ε} {t : σ}
    (h : Crashes M allow e t) (h₀ : ∀ s, M.start s → I s)
    (hstep : ∀ s l, I s → M.enabled s l → allow l →
      wp (M.exec l) (fun _ t => I t) C s) : C e t := by
  obtain ⟨s, l, hr, he, ha, hs⟩ := h
  have hi := hr.invariant h₀ (fun s l hi he ha =>
    wp_mono (hstep s l hi he ha) (fun _ _ h => h) (fun _ _ _ => trivial))
  exact ((wp_iff _).mp (hstep s l hi he ha)).2 e t hs

variable [∀ s l, Decidable (M.enabled s l)]

/-- Perform a list of steps, stopping at the first that is not enabled or crashes. -/
def perform (M : Machine σ ε Label) [∀ s l, Decidable (M.enabled s l)] :
    List Label → σ → EStateM.Result (Option ε) σ Unit
  | [], s => .ok () s
  | l :: ls, s =>
    if M.enabled s l then
      match M.exec l s with
      | .ok _ t => perform M ls t
      | .error e t => .error (some e) t
    else .error none s

lemma perform_reachable (ls : List Label) (hl : ∀ l ∈ ls, allow l) {s t : σ}
    (hs : Reachable M allow s) (h : perform M ls s = .ok () t) : Reachable M allow t := by
  induction ls generalizing s with
  | nil => cases h; exact hs
  | cons l ls ih =>
    rw [perform] at h
    split_ifs at h with he
    split at h
    · rename_i u hu
      exact ih (fun l' hl' => hl l' (List.mem_cons_of_mem _ hl'))
        (.step l hs he (hl l List.mem_cons_self) hu) h
    · cases h

lemma perform_crashes (ls : List Label) (hl : ∀ l ∈ ls, allow l) {e : ε} {s t : σ}
    (hs : Reachable M allow s) (h : perform M ls s = .error (some e) t) : Crashes M allow e t := by
  induction ls generalizing s with
  | nil => cases h
  | cons l ls ih =>
    rw [perform] at h
    split_ifs at h with he
    · split at h
      · rename_i u hu
        exact ih (fun l' hl' => hl l' (List.mem_cons_of_mem _ hl'))
          (.step l hs he (hl l List.mem_cons_self) hu) h
      · rename_i e' u hu
        cases h
        exact ⟨s, l, hs, he, hl l List.mem_cons_self, hu⟩
    · cases h

end GreenBag.Machines
