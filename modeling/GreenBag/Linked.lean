import GreenBag.Loops

/-! Singly linked lists in a heap. A pointer is an address or NULL, and a path is what following `next`
from a pointer visits up to another pointer. -/

namespace GreenBag.Linked

open Programs

structure Cell (α : Type) where
  value : α
  next : Option ℕ

abbrev Heap (α : Type) := ℕ → Option (Cell α)

inductive HeapFault
  | null
  | dangling
  | outOfBounds
  | endless
  deriving DecidableEq, Repr

abbrev HeapProgram (α : Type) := EStateM HeapFault (Heap α)

variable {α β : Type} {h h' : Heap α} {p q r : Option ℕ} {a b : ℕ} {l l' l₁ l₂ : List ℕ}

def load (p : Option ℕ) : HeapProgram α (Cell α) := do
  let a ← demand .null p
  let h ← get
  demand .dangling (h a)

def setNext (h : Heap α) (a : ℕ) (q : Option ℕ) : Heap α :=
  Function.update h a ((h a).map fun c => { c with next := q })

def storeNext (p q : Option ℕ) : HeapProgram α Unit := do
  let _ ← load p
  let a ← demand .null p
  modify fun h => setNext h a q

def setValue (h : Heap α) (a : ℕ) (v : α) : Heap α :=
  Function.update h a ((h a).map fun c => { c with value := v })

def storeValue (p : Option ℕ) (v : α) : HeapProgram α Unit := do
  let _ ← load p
  let a ← demand .null p
  modify fun h => setValue h a v

/-- A heap with the address `malloc` returns next and what was freed, the latest first. -/
structure Store (α : Type) where
  heap : Heap α
  brk : ℕ
  freed : List ℕ

abbrev StoreProgram (α : Type) := EStateM HeapFault (Store α)

/-- Nothing is allocated at the addresses to come. -/
def Store.Bounded (s : Store α) : Prop := ∀ a, s.brk ≤ a → s.heap a = none

def onHeap {γ : Type} (x : HeapProgram α γ) : StoreProgram α γ := fun s =>
  match x s.heap with
  | .ok c h => .ok c { s with heap := h }
  | .error e h => .error e { s with heap := h }

/-- A new cell, with what is in it by chance. -/
def malloc (c : Cell α) : StoreProgram α (Option ℕ) := do
  let s ← get
  set { s with heap := Function.update s.heap s.brk (some c), brk := s.brk + 1 }
  return some s.brk

def free : Option ℕ → StoreProgram α Unit
  | none => pure ()
  | some a => do
    let s ← get
    let _ ← demand .dangling (s.heap a)
    set { s with heap := Function.update s.heap a none, freed := a :: s.freed }

def Path (h : Heap α) : Option ℕ → List ℕ → Option ℕ → Prop
  | p, [], q => p = q
  | p, a :: l, q => p = some a ∧ ∃ c, h a = some c ∧ Path h c.next l q

@[simp] lemma path_nil : Path h p [] q ↔ p = q := Iff.rfl

lemma path_cons : Path h p (a :: l) q ↔ p = some a ∧ ∃ c, h a = some c ∧ Path h c.next l q := Iff.rfl

lemma path_append : Path h p (l₁ ++ l₂) q ↔ ∃ r, Path h p l₁ r ∧ Path h r l₂ q := by
  induction l₁ generalizing p with
  | nil => simp
  | cons a l ih =>
    rw [List.cons_append, path_cons]
    constructor
    · rintro ⟨rfl, c, hc, hl⟩
      obtain ⟨r, hr, hq⟩ := ih.mp hl
      exact ⟨r, ⟨rfl, c, hc, hr⟩, hq⟩
    · rintro ⟨r, ⟨rfl, c, hc, hr⟩, hq⟩
      exact ⟨rfl, c, hc, ih.mpr ⟨r, hr, hq⟩⟩

lemma Path.congr (hp : Path h p l q) (hh : ∀ a ∈ l, h' a = h a) : Path h' p l q := by
  induction l generalizing p with
  | nil => exact hp
  | cons a l ih =>
    obtain ⟨rfl, c, hc, hl⟩ := hp
    refine ⟨rfl, c, (hh a List.mem_cons_self).trans hc, ih hl fun b hb => ?_⟩
    exact hh b (List.mem_cons_of_mem a hb)

lemma Path.cell (hp : Path h p l q) (ha : a ∈ l) : ∃ c, h a = some c := by
  induction l generalizing p with
  | nil => cases ha
  | cons b l ih =>
    obtain ⟨rfl, c, hc, hl⟩ := hp
    cases ha with
    | head => exact ⟨c, hc⟩
    | tail _ ha => exact ih hl ha

lemma Path.unique (hl : Path h p l none) (hl' : Path h p l' none) : l = l' := by
  induction l generalizing p l' with
  | nil =>
    cases l' with
    | nil => rfl
    | cons a l' =>
      cases hl
      cases hl'.1
  | cons a l ih =>
    obtain ⟨rfl, c, hc, hl⟩ := hl
    cases l' with
    | nil => cases hl'
    | cons b l' =>
      obtain ⟨hab, d, hd, hl'⟩ := hl'
      cases hab
      cases hc.symm.trans hd
      rw [ih hl hl']

lemma Path.nodup (hl : Path h p l none) : l.Nodup := by
  induction l generalizing p with
  | nil => exact List.nodup_nil
  | cons a l ih =>
    have hsplit := hl
    obtain ⟨rfl, c, hc, ht⟩ := hl
    refine List.nodup_cons.mpr ⟨fun ha => ?_, ih ht⟩
    obtain ⟨l₁, l₂, rfl⟩ := List.append_of_mem ha
    obtain ⟨r, -, hr⟩ := path_append.mp ht
    have hback : Path h (some a) (a :: l₂) none := by
      obtain ⟨rfl, d, hd, hrest⟩ := hr
      exact ⟨rfl, d, hd, hrest⟩
    have hlen := congrArg List.length (hsplit.unique hback)
    simp at hlen
    omega

@[simp] lemma setNext_self {c : Cell α} (hc : h a = some c) :
    setNext h a q a = some { c with next := q } := by
  rw [setNext, Function.update_self, hc]
  rfl

@[simp] lemma setValue_self {c : Cell α} {v : α} (hc : h a = some c) :
    setValue h a v a = some { c with value := v } := by
  rw [setValue, Function.update_self, hc]
  rfl

lemma setValue_of_ne {v : α} (hab : b ≠ a) : setValue h a v b = h b := Function.update_of_ne hab _ _

lemma setNext_of_ne (hab : b ≠ a) : setNext h a q b = h b := Function.update_of_ne hab _ _

lemma Path.setNext (hp : Path h p l q) (ha : a ∉ l) (r : Option ℕ) : Path (setNext h a r) p l q :=
  hp.congr fun _ hb => setNext_of_ne (ne_of_mem_of_not_mem hb ha)

lemma Path.relink (hp : Path h p (l ++ [a]) q) (hl : a ∉ l) (r : Option ℕ) :
    Path (Linked.setNext h a r) p (l ++ [a]) r := by
  obtain ⟨s, hs, rfl, c, hc, -⟩ := path_append.mp hp
  exact path_append.mpr ⟨some a, hs.setNext hl r, rfl, _, setNext_self hc, rfl⟩

/-- A path without its own cells twice that comes back to where it began. -/
structure Circle (h : Heap α) (p : Option ℕ) (l : List ℕ) : Prop where
  path : Path h p l p
  nodup : l.Nodup
  ne_nil : l ≠ []

/-- Only the links of some cells were written. -/
structure Relinked (l : List ℕ) (h h' : Heap α) : Prop where
  values : ∀ a, (h' a).map Cell.value = (h a).map Cell.value
  others : ∀ a ∉ l, h' a = h a

lemma Relinked.refl (l : List ℕ) (h : Heap α) : Relinked l h h := ⟨fun _ => rfl, fun _ _ => rfl⟩

lemma Relinked.trans {h'' : Heap α} (hh : Relinked l h h') (hh' : Relinked l h' h'') :
    Relinked l h h'' :=
  ⟨fun a => (hh'.values a).trans (hh.values a), fun a ha => (hh'.others a ha).trans (hh.others a ha)⟩

lemma Relinked.mono (hh : Relinked l h h') (hl : ∀ a ∈ l, a ∈ l') : Relinked l' h h' :=
  ⟨hh.values, fun a ha => hh.others a fun hm => ha (hl a hm)⟩

lemma Relinked.setNext (hh : Relinked l h h') (ha : a ∈ l) (q : Option ℕ) :
    Relinked l h (Linked.setNext h' a q) := by
  refine ⟨fun b => ?_, fun b hb => ?_⟩
  · rw [← hh.values b]
    by_cases hb : b = a
    · subst hb
      rw [Linked.setNext, Function.update_self]
      cases h' b <;> rfl
    · rw [setNext_of_ne hb]
  · rw [setNext_of_ne (ne_of_mem_of_not_mem ha hb).symm, hh.others b hb]

lemma Relinked.path (hh : Relinked l h h') (hp : Path h p l' q) (hl : ∀ a ∈ l', a ∉ l) :
    Path h' p l' q :=
  hp.congr fun a ha => hh.others a (hl a ha)

section Wp

variable {s : Heap α} {crash : HeapFault → Heap α → Prop}

@[simp] lemma wp_load {post : Cell α → Heap α → Prop} :
    wp (load p) post crash s ↔
      (∀ a, p = some a → (∀ c, s a = some c → post c s) ∧ (s a = none → crash .dangling s)) ∧
        (p = none → crash .null s) := by
  simp [load]

lemma wp_load_some {post : Cell α → Heap α → Prop} {c : Cell α} (hc : s a = some c) :
    wp (load (some a)) post crash s ↔ post c s := by
  simp [hc]

lemma wp_storeNext {post : Unit → Heap α → Prop} {c : Cell α} (hc : s a = some c) :
    wp (storeNext (some a) q) post crash s ↔ post () (Linked.setNext s a q) := by
  simp [storeNext, hc]

lemma wp_storeValue {post : Unit → Heap α → Prop} {c : Cell α} {v : α} (hc : s a = some c) :
    wp (storeValue (some a) v) post crash s ↔ post () (Linked.setValue s a v) := by
  simp [storeValue, hc]

end Wp

section Store

variable {s : Store α} {crash : HeapFault → Store α → Prop}

@[simp] lemma wp_onHeap {γ : Type} {post : γ → Store α → Prop} (x : HeapProgram α γ) :
    wp (onHeap x) post crash s ↔
      wp x (fun c h => post c { s with heap := h }) (fun e h => crash e { s with heap := h }) s.heap := by
  unfold wp onHeap
  cases x s.heap <;> rfl

@[simp] lemma wp_malloc {post : Option ℕ → Store α → Prop} (c : Cell α) :
    wp (malloc c) post crash s ↔
      post (some s.brk) { s with heap := Function.update s.heap s.brk (some c), brk := s.brk + 1 } := by
  simp [malloc]

lemma wp_free {post : Unit → Store α → Prop} {c : Cell α} (hc : s.heap a = some c) :
    wp (free (some a)) post crash s ↔
      post () { s with heap := Function.update s.heap a none, freed := a :: s.freed } := by
  simp [free, hc]

end Store

end GreenBag.Linked
