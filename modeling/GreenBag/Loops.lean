import GreenBag.Programs

/-! Loops whose body goes on with new variables or ends with a result. The number of rounds is bounded,
and a loop that runs out of them crashes; an invariant that counts the rounds to come rules that out. -/

namespace GreenBag.Programs

variable {ε σ α β : Type}

def loop (e : ε) (body : β → EStateM ε σ (β ⊕ α)) : ℕ → β → EStateM ε σ α
  | 0, _ => throw e
  | n + 1, b => do
    match ← body b with
    | .inl b => loop e body n b
    | .inr a => pure a

/-- What a round leaves: the invariant for fewer rounds to come, or the result. -/
def Round (inv : ℕ → β → σ → Prop) (post : α → σ → Prop) (n : ℕ) : β ⊕ α → σ → Prop
  | .inl b, s => ∃ m < n, inv m b s
  | .inr a, s => post a s

lemma wp_loop {e : ε} {body : β → EStateM ε σ (β ⊕ α)} {post : α → σ → Prop}
    {crash : ε → σ → Prop} (inv : ℕ → β → σ → Prop)
    (hbody : ∀ n b s, inv n b s → wp (body b) (Round inv post n) crash s)
    {rounds n : ℕ} {b : β} {s : σ} (hb : inv n b s) (hn : n < rounds) :
    wp (loop e body rounds b) post crash s := by
  induction rounds generalizing n b s with
  | zero => omega
  | succ rounds ih =>
    rw [loop, wp_bind]
    apply wp_mono (hbody n b s hb)
    · rintro (b' | a) t ht
      · obtain ⟨m, hm, ht⟩ := ht
        exact ih ht (by omega)
      · exact ht
    · exact fun _ _ ht => ht

lemma wp_bind_keeps {x : EStateM ε σ β} {f : β → EStateM ε σ α} {crash : ε → σ → Prop} {I : σ → Prop}
    {s : σ} (hx : wp x (fun _ => I) crash s) (hf : ∀ b t, I t → wp (f b) (fun _ => I) crash t) :
    wp (x >>= f) (fun _ => I) crash s := by
  rw [wp_bind]
  exact wp_mono hx (fun b t ht => hf b t ht) fun _ _ ht => ht

/-- What each round keeps, whether it crashes or not, is kept by a loop. -/
lemma wp_loop_keeps {e : ε} {body : β → EStateM ε σ (β ⊕ α)} {crash : ε → σ → Prop} {I : σ → Prop}
    (hcrash : ∀ s, I s → crash e s) (hbody : ∀ b s, I s → wp (body b) (fun _ => I) crash s)
    {rounds : ℕ} {b : β} {s : σ} (hs : I s) : wp (loop e body rounds b) (fun _ => I) crash s := by
  induction rounds generalizing b s with
  | zero => exact hcrash s hs
  | succ rounds ih =>
    rw [loop, wp_bind]
    apply wp_mono (hbody b s hs) _ fun _ _ ht => ht
    rintro (b' | a) t ht
    · exact ih ht
    · exact ht

end GreenBag.Programs
