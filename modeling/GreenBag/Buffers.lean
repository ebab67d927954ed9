import GreenBag.Cuts
import GreenBag.Loops

/-! Separate buffers of bytes and the strings in them. A string ends at the first NUL of its buffer. An
access outside of a buffer is a fault, and so is a read behind the end of a string. -/

namespace GreenBag.Buffers

open Programs

inductive BufferFault
  | outOfBounds
  | endless
  deriving DecidableEq, Repr

abbrev Memory (ι : Type) := ι → List UInt8

abbrev BufferProgram (ι : Type) := EStateM BufferFault (Memory ι)

variable {ι : Type}

def fetch (x : ι) (i : ℕ) : BufferProgram ι UInt8 := do
  let m ← get
  demand .outOfBounds (m x)[i]?

/-- A character of the string in a buffer, or its NUL. -/
def fetchChar (x : ι) (i : ℕ) : BufferProgram ι UInt8 := do
  let m ← get
  ensure .outOfBounds (0 ∉ (m x).take i)
  demand .outOfBounds (m x)[i]?

/-- The string in a buffer from an index on. -/
def fetchString (x : ι) (i : ℕ) : BufferProgram ι (List UInt8) := do
  let m ← get
  ensure .outOfBounds (0 ∉ (m x).take i)
  let (s, _) ← demand .outOfBounds (Cuts.first 0 ((m x).drop i))
  return s

variable [DecidableEq ι]

def store (x : ι) (i : ℕ) (b : UInt8) : BufferProgram ι Unit := do
  let m ← get
  ensure .outOfBounds (i < (m x).length)
  set (Function.update m x ((m x).set i b))

def storeAll (x : ι) (i : ℕ) : List UInt8 → BufferProgram ι Unit
  | [] => pure ()
  | b :: bs => do
    store x i b
    storeAll x (i + 1) bs

def strcpy (x : ι) (i : ℕ) (s : List UInt8) : BufferProgram ι Unit := storeAll x i (s ++ [0])

def overwrite (l : List UInt8) (i : ℕ) : List UInt8 → List UInt8
  | [] => l
  | b :: bs => overwrite (l.set i b) (i + 1) bs

/-- A buffer with a string in it. -/
def Holds (l s : List UInt8) : Prop := 0 ∉ s ∧ s ++ [0] <+: l

/-- Each buffer has its size. -/
def Shaped (size : ι → ℕ) (m : Memory ι) : Prop := ∀ x, (m x).length = size x

section

variable {l s s' bs pre rest : List UInt8} {i j : ℕ} {b : UInt8}

lemma take_set_succ (hi : i < l.length) : (l.set i b).take (i + 1) = l.take i ++ [b] := by
  rw [List.take_succ_eq_append_getElem (by simpa using hi), List.take_set_of_le le_rfl,
    List.getElem_set_self]

@[simp] lemma length_overwrite : (overwrite l i bs).length = l.length := by
  induction bs generalizing l i with
  | nil => rfl
  | cons b bs ih => rw [overwrite, ih, List.length_set]

lemma overwrite_eq (h : i + bs.length ≤ l.length) :
    overwrite l i bs = l.take i ++ (bs ++ l.drop (i + bs.length)) := by
  induction bs generalizing l i with
  | nil => simp [overwrite]
  | cons b bs ih =>
    rw [List.length_cons] at h ⊢
    rw [overwrite, ih (by rw [List.length_set]; omega), take_set_succ (by omega), List.append_assoc,
      List.singleton_append, List.cons_append, List.drop_set_of_lt (by omega)]
    congr 4
    omega

lemma take_overwrite (h : i + bs.length ≤ l.length) :
    (overwrite l i bs).take (i + bs.length) = l.take i ++ bs := by
  rw [overwrite_eq h, ← List.append_assoc]
  apply List.take_left'
  rw [List.length_append, List.length_take]
  omega

lemma take_overwrite_append (h : i + (s ++ s').length ≤ l.length) :
    (overwrite l i (s ++ s')).take (i + s.length) = l.take i ++ s := by
  have htake := congrArg (List.take (i + s.length)) (take_overwrite h)
  rw [List.length_append] at h
  rw [List.take_take, List.length_append, min_eq_left (by omega), ← List.append_assoc] at htake
  rw [htake]
  apply List.take_left'
  rw [List.length_append, List.length_take]
  omega

lemma getElem?_overwrite (h : i + bs.length ≤ j) : (overwrite l i bs)[j]? = l[j]? := by
  induction bs generalizing l i with
  | nil => rfl
  | cons b bs ih =>
    rw [List.length_cons] at h
    rw [overwrite, ih (by omega), List.getElem?_set_ne (by omega)]

lemma holds_iff : Holds l s ↔ 0 ∉ s ∧ l.take s.length = s ∧ l[s.length]? = some 0 := by
  refine and_congr_right fun _ => ⟨?_, ?_⟩
  · rintro ⟨more, rfl⟩
    simp
  · rintro ⟨htake, hget⟩
    obtain ⟨hlt, h0⟩ := List.getElem?_eq_some_iff.mp hget
    refine ⟨l.drop (s.length + 1), ?_⟩
    calc s ++ [0] ++ l.drop (s.length + 1) = l.take s.length ++ l.drop s.length := by
          rw [List.drop_eq_getElem_cons hlt, h0, htake, List.append_assoc, List.singleton_append]
      _ = l := List.take_append_drop _ _

lemma Holds.first (h : Holds l s) : ∃ more, Cuts.first 0 l = some (s, more) := by
  obtain ⟨h0, more, rfl⟩ := h
  exact ⟨more, by rw [List.append_assoc, List.singleton_append, Cuts.first_append h0]⟩

lemma Holds.unique (h : Holds l s) (h' : Holds l s') : s = s' := by
  obtain ⟨more, hf⟩ := h.first
  obtain ⟨more', hf'⟩ := h'.first
  cases hf.symm.trans hf'
  rfl

lemma Holds.length_lt (h : Holds l s) : s.length < l.length := by
  have hle := h.2.length_le
  rw [List.length_append, List.length_singleton] at hle
  omega

lemma holds_overwrite (h0 : 0 ∉ s) (hs : s.length < l.length) : Holds (overwrite l 0 (s ++ [0])) s := by
  refine ⟨h0, ?_⟩
  have hroom : 0 + (s ++ [0]).length ≤ l.length := by simpa using hs
  have htake := take_overwrite hroom
  rw [List.take_zero, List.nil_append] at htake
  exact ⟨_, htake ▸ List.take_append_drop _ _⟩

lemma holds_set (htake : l.take i = s) (hi : i < l.length) : Holds (l.set i 0) (s.takeWhile (· ≠ 0)) := by
  have hcut : l.set i 0 = s ++ 0 :: l.drop (i + 1) := by
    rw [List.set_eq_take_append_cons_drop, if_pos hi, htake]
  refine ⟨fun h0 => by simpa using List.mem_takeWhile_imp h0, ?_⟩
  rw [hcut, Cuts.takeWhile_eq]
  cases hf : Cuts.first 0 s with
  | none => exact ⟨l.drop (i + 1), by simp⟩
  | some cut =>
    obtain ⟨xs, ys⟩ := cut
    rw [(Cuts.of_first hf).1]
    exact ⟨ys ++ 0 :: l.drop (i + 1), by simp⟩

section Wp

variable {m : Memory ι} {size : ι → ℕ} {x : ι} {crash : BufferFault → Memory ι → Prop}

omit [DecidableEq ι] in
lemma wp_fetch {post : UInt8 → Memory ι → Prop} (h : (m x)[i]? = some b) :
    wp (fetch x i) post crash m ↔ post b m := by
  rw [fetch, wp_bind, wp_get, h, demand_some, wp_pure]

omit [DecidableEq ι] in
lemma wp_fetchChar {post : UInt8 → Memory ι → Prop} (h : Holds (m x) (pre ++ rest)) :
    wp (fetchChar x pre.length) post crash m ↔ post (rest.headD 0) m := by
  obtain ⟨h0, more, hm⟩ := h
  rw [fetchChar, wp_bind, wp_get, wp_bind, wp_ensure, wp_demand, ← hm]
  have htake : (pre ++ rest ++ [0] ++ more).take pre.length = pre := by simp
  have hget : (pre ++ rest ++ [0] ++ more)[pre.length]? = some (rest.headD 0) := by
    cases rest <;> simp
  rw [htake, hget]
  have hpre : 0 ∉ pre := fun hn => h0 (List.mem_append_left _ hn)
  simp [hpre]

omit [DecidableEq ι] in
lemma wp_fetchChar_behind {post : UInt8 → Memory ι → Prop} (h : Holds (m x) s) (hi : s.length < i) :
    wp (fetchChar x i) post crash m ↔ crash .outOfBounds m := by
  obtain ⟨-, more, hm⟩ := h
  rw [fetchChar, wp_bind, wp_get, wp_bind, wp_ensure, ← hm]
  have hmem : 0 ∈ (s ++ [0] ++ more).take i := by
    have hcut : (s ++ [0] ++ more).take i = s ++ [0] ++ more.take (i - (s.length + 1)) := by
      rw [List.take_append, List.take_of_length_le (by simpa using hi), List.length_append,
        List.length_singleton]
    rw [hcut]
    simp
  exact ⟨fun h => h.2 (not_not_intro hmem), fun h => ⟨fun hn => absurd hmem hn, fun _ => h⟩⟩

omit [DecidableEq ι] in
lemma wp_fetchString {post : List UInt8 → Memory ι → Prop} (h : Holds (m x) (pre ++ rest)) :
    wp (fetchString x pre.length) post crash m ↔ post rest m := by
  obtain ⟨h0, more, hm⟩ := h
  rw [List.mem_append, not_or] at h0
  have htake : (pre ++ rest ++ [0] ++ more).take pre.length = pre := by simp
  have hdrop : Cuts.first 0 ((pre ++ rest ++ [0] ++ more).drop pre.length) = some (rest, more) := by
    rw [List.append_assoc, List.append_assoc, List.drop_left, List.singleton_append,
      Cuts.first_append h0.2]
  rw [fetchString, wp_bind, wp_get, wp_bind, wp_ensure, ← hm, htake, wp_bind, hdrop]
  simp [h0.1]

lemma wp_store {post : Unit → Memory ι → Prop} (hi : i < (m x).length) :
    wp (store x i b) post crash m ↔ post () (Function.update m x ((m x).set i b)) := by
  rw [store, wp_bind, wp_get, wp_bind, wp_ensure, wp_set]
  simp [hi]

lemma wp_store_update {post : Unit → Memory ι → Prop} (hi : i < l.length) :
    wp (store x i b) post crash (Function.update m x l) ↔ post () (Function.update m x (l.set i b)) := by
  rw [wp_store (by rwa [Function.update_self]), Function.update_self, Function.update_idem]

lemma wp_storeAll {post : Unit → Memory ι → Prop} (hi : i + bs.length ≤ (m x).length) :
    wp (storeAll x i bs) post crash m ↔ post () (Function.update m x (overwrite (m x) i bs)) := by
  induction bs generalizing m i with
  | nil => rw [storeAll, wp_pure, overwrite, Function.update_eq_self]
  | cons b bs ih =>
    rw [List.length_cons] at hi
    rw [storeAll, wp_bind, wp_store (by omega), ih]
    · rw [Function.update_self, Function.update_idem, overwrite]
    · rw [Function.update_self, List.length_set]
      omega

lemma wp_strcpy {post : Unit → Memory ι → Prop} (hi : i + s.length < (m x).length) :
    wp (strcpy x i s) post crash m ↔
      post () (Function.update m x (overwrite (m x) i (s ++ [0]))) := by
  rw [strcpy, wp_storeAll]
  rw [List.length_append, List.length_singleton]
  omega

lemma Shaped.update (h : Shaped size m) (hl : l.length = (m x).length) :
    Shaped size (Function.update m x l) := fun y => by
  by_cases hy : y = x
  · subst hy
    rw [Function.update_self, hl, h y]
  · rw [Function.update_of_ne hy, h y]

lemma Shaped.wp_store (h : Shaped size m) :
    wp (store x i b) (fun _ => Shaped size) (fun _ _ => True) m := by
  rw [store, wp_bind, wp_get, wp_bind, wp_ensure, wp_set]
  exact ⟨fun _ => h.update (by rw [List.length_set]), fun _ => trivial⟩

lemma Shaped.wp_storeAll (h : Shaped size m) :
    wp (storeAll x i bs) (fun _ => Shaped size) (fun _ _ => True) m := by
  induction bs generalizing m i with
  | nil => exact h
  | cons b bs ih =>
    rw [storeAll, wp_bind]
    exact wp_mono h.wp_store (fun _ _ ht => ih ht) fun _ _ ht => ht

omit [DecidableEq ι] in
lemma Shaped.wp_fetch (h : Shaped size m) :
    wp (fetch x i) (fun _ => Shaped size) (fun _ _ => True) m := by
  rw [fetch, wp_bind, wp_get, wp_demand]
  exact ⟨fun _ _ => h, fun _ => trivial⟩

end Wp

end

end GreenBag.Buffers
