import GreenBag.Linked
import GreenBag.Zooming

/-! Lists in one heap, each with a pointer to its head: every cell belongs to one list, and none was freed
twice. -/

namespace GreenBag.Linked

open Programs Function

variable {ι α : Type}

structure Arena (ι α : Type) where
  store : Store α
  root : ι → Option ℕ

abbrev ArenaProgram (ι α : Type) := EStateM HeapFault (Arena ι α)

def storePart : Part (Arena ι α) (Store α) where
  view := Arena.store
  put s t := { s with store := t }
  view_put _ _ := rfl

def onStore {γ : Type} (x : StoreProgram α γ) : ArenaProgram ι α γ := zoom storePart x

/-- The last cell of a list. -/
def lastCell (rounds : ℕ) (p : Option ℕ) : HeapProgram α (Option ℕ) :=
  loop .endless (fun p => do
    let c ← load p
    if c.next = none then return .inr p
    return .inl c.next) rounds p

section

variable [DecidableEq ι]

def setRoot (i : ι) (p : Option ℕ) : ArenaProgram ι α Unit :=
  modify fun s => { s with root := update s.root i p }

def pushBack (i : ι) (v : α) : ArenaProgram ι α Unit := do
  let p ← onStore (malloc ⟨v, none⟩)
  let s ← get
  if s.root i = none then setRoot i p
  else do
    let q ← onStore (onHeap (lastCell (s.store.brk + 1) (s.root i)))
    onStore (onHeap (storeNext q p))

def popFront (i : ι) : ArenaProgram ι α Unit := do
  let s ← get
  let c ← onStore (onHeap (load (s.root i)))
  setRoot i c.next
  onStore (free (s.root i))

def popAll (i : ι) : ArenaProgram ι α Unit := do
  let s ← get
  loop .endless (fun _ => do
    let s ← get
    if s.root i = none then return .inr ()
    popFront i
    return .inl ()) (s.store.brk + 1) ()

/-- The second list is linked to the last cell of the first. -/
def splice (i j : ι) : ArenaProgram ι α Unit := do
  let s ← get
  let q ← onStore (onHeap (lastCell (s.store.brk + 1) (s.root i)))
  onStore (onHeap (storeNext q (s.root j)))
  setRoot j none

/-- The first list, which is empty, gets the cells of the second. -/
def handOver (i j : ι) : ArenaProgram ι α Unit := do
  let s ← get
  setRoot i (s.root j)
  setRoot j none

end

/-- The values in some cells. -/
def Carries (h : Heap α) (l : List ℕ) (vs : List α) : Prop :=
  l.map (fun a => (h a).map Cell.value) = vs.map some

/-- Each list runs through its own cells, all that is allocated belongs to one, and nothing was freed that
is still there, or twice. -/
structure Owned (s : Arena ι α) (cells : ι → List ℕ) (lists : ι → List α) : Prop where
  path : ∀ i, Path s.store.heap (s.root i) (cells i) none
  carries : ∀ i, Carries s.store.heap (cells i) (lists i)
  apart : ∀ i j a, a ∈ cells i → a ∈ cells j → i = j
  live : ∀ a c, s.store.heap a = some c → ∃ i, a ∈ cells i
  bounded : s.store.Bounded
  once : s.store.freed.Nodup
  gone : ∀ a ∈ s.store.freed, s.store.heap a = none ∧ a < s.store.brk

/-- The heap holds the lists. -/
def Holds (s : Arena ι α) (lists : ι → List α) : Prop := ∃ cells, Owned s cells lists

section

variable {h h' : Heap α} {p q : Option ℕ} {a : ℕ} {l l₁ l₂ : List ℕ} {v : α} {vs vs₁ vs₂ : List α}

lemma carries_nil : Carries h [] ([] : List α) := rfl

lemma Carries.nil (hc : Carries h [] vs) : vs = [] := List.map_eq_nil_iff.mp hc.symm

lemma Carries.append (h₁ : Carries h l₁ vs₁) (h₂ : Carries h l₂ vs₂) : Carries h (l₁ ++ l₂) (vs₁ ++ vs₂) := by
  rw [Carries, List.map_append, List.map_append, h₁, h₂]

lemma Carries.congr (hc : Carries h l vs) (hh : ∀ a ∈ l, (h' a).map Cell.value = (h a).map Cell.value) :
    Carries h' l vs := by
  rw [Carries, ← hc]
  exact List.map_congr_left hh

lemma Carries.cons (hc : Carries h (a :: l) vs) : ∃ v ws, vs = v :: ws ∧ Carries h l ws := by
  cases vs with
  | nil => cases hc
  | cons v ws => exact ⟨v, ws, rfl, (List.cons.inj hc).2⟩

lemma values_setNext (h : Heap α) (a : ℕ) (q : Option ℕ) (b : ℕ) :
    (setNext h a q b).map Cell.value = (h b).map Cell.value :=
  ((Relinked.refl [a] h).setNext List.mem_cons_self q).values b

lemma Carries.setNext (hc : Carries h l vs) (a : ℕ) (q : Option ℕ) : Carries (Linked.setNext h a q) l vs :=
  hc.congr fun b _ => values_setNext h a q b

lemma Path.last_not_mem (hp : Path h p (l ++ [a]) none) : a ∉ l := by
  have hnodup := hp.nodup
  rw [List.nodup_append] at hnodup
  exact fun hm => hnodup.2.2 a hm a List.mem_cons_self rfl

lemma none_iff_of_values (ha : (h' a).map Cell.value = (h a).map Cell.value) : h' a = none ↔ h a = none := by
  cases hx : h a <;> cases hx' : h' a <;> simp_all

lemma wp_lastCell {crash : HeapFault → Heap α → Prop} {rounds : ℕ} (hp : Path h p (l ++ [a]) none)
    (hr : (l ++ [a]).length < rounds) : wp (lastCell rounds p) (fun q t => q = some a ∧ t = h) crash h := by
  apply wp_loop (fun n p t => t = h ∧ ∃ rest, Path h p (rest ++ [a]) none ∧ n = rest.length)
  · rintro n p t ⟨rfl, rest, hrest, rfl⟩
    cases rest with
    | nil =>
      obtain ⟨rfl, c, hc, hnext⟩ := hrest
      rw [wp_bind, wp_load_some hc, wp_ite]
      exact ⟨fun _ => ⟨rfl, rfl⟩, fun hn => absurd hnext hn⟩
    | cons b rest =>
      obtain ⟨rfl, c, hc, hnext⟩ := hrest
      rw [wp_bind, wp_load_some hc, wp_ite]
      refine ⟨fun hn => ?_, fun _ => ?_⟩
      · rw [hn] at hnext
        cases rest <;> exact absurd hnext.1 (by simp)
      · exact ⟨rest.length, Nat.lt_succ_self _, rfl, rest, hnext, rfl⟩
  · exact ⟨rfl, l, hp, rfl⟩
  · rw [List.length_append, List.length_singleton] at hr
    omega

end

section

variable {s : Arena ι α} {cells : ι → List ℕ} {lists : ι → List α} {i j : ι} {a : ℕ} {v : α}
  {crash : HeapFault → Arena ι α → Prop}

lemma Owned.cell (h : Owned s cells lists) (ha : a ∈ cells i) : ∃ c, s.store.heap a = some c := (h.path i).cell ha

lemma Owned.lt (h : Owned s cells lists) (ha : a ∈ cells i) : a < s.store.brk := by
  obtain ⟨c, hc⟩ := h.cell ha
  by_contra hn
  rw [h.bounded a (not_lt.mp hn)] at hc
  cases hc

lemma Owned.length_le (h : Owned s cells lists) (i : ι) : (cells i).length ≤ s.store.brk := by
  have hsub : (cells i).Subperm (List.range s.store.brk) :=
    List.subperm_of_subset (h.path i).nodup fun a ha => List.mem_range.mpr (h.lt ha)
  simpa using hsub.length_le

lemma Owned.root_eq_none (h : Owned s cells lists) : s.root i = none ↔ lists i = [] := by
  have hp := h.path i
  have hc := h.carries i
  cases hl : cells i with
  | nil =>
    rw [hl] at hp hc
    exact ⟨fun _ => hc.nil, fun _ => hp⟩
  | cons b l =>
    rw [hl] at hp hc
    obtain ⟨w, ws, hw, -⟩ := hc.cons
    rw [hp.1, hw]
    simp

lemma Owned.heap_empty (h : Owned s cells lists) (hl : ∀ i, lists i = []) (a : ℕ) : s.store.heap a = none := by
  by_contra hn
  obtain ⟨c, hc⟩ := Option.ne_none_iff_exists'.mp hn
  obtain ⟨i, hi⟩ := h.live a c hc
  have hcarries := congrArg List.length (h.carries i)
  rw [hl i, List.length_map, List.map_nil, List.length_nil] at hcarries
  rw [List.length_eq_zero_iff.mp hcarries] at hi
  cases hi

/-- What `malloc` gives belongs to no list yet. -/
lemma Owned.fresh (h : Owned s cells lists) : s.store.brk ∉ cells i := fun hm => lt_irrefl _ (h.lt hm)

lemma Owned.out (h : Owned s cells lists) (hj : j ≠ i) (ha : a ∈ cells j) : a ∉ cells i :=
  fun hm => hj (h.apart j i a ha hm)

lemma Owned.not_freed (h : Owned s cells lists) (ha : a ∈ cells i) : a ∉ s.store.freed := by
  intro hf
  obtain ⟨c, hc⟩ := h.cell ha
  rw [(h.gone a hf).1] at hc
  cases hc

lemma Owned.wp_head (h : Owned s cells lists) {vs : List α} (hv : lists i = v :: vs)
    {crash : HeapFault → Heap α → Prop} :
    wp (load (s.root i)) (fun c t => c.value = v ∧ t = s.store.heap) crash s.store.heap := by
  have hp := h.path i
  have hc := h.carries i
  rw [hv] at hc
  cases hl : cells i with
  | nil =>
    rw [hl] at hc
    cases hc
  | cons a l =>
    rw [hl] at hp hc
    obtain ⟨hr, c, hcell, -⟩ := hp
    rw [hr, wp_load_some hcell]
    have hvalue : (s.store.heap a).map Cell.value = some v := (List.cons.inj hc).1
    rw [hcell] at hvalue
    exact ⟨Option.some.inj hvalue, rfl⟩

variable [DecidableEq ι]

lemma Owned.change (h : Owned s cells lists) {t : Arena ι α} {l : List ℕ} {vs : List α}
    (hroot : ∀ j, j ≠ i → t.root j = s.root j)
    (hheap : ∀ j, j ≠ i → ∀ b ∈ cells j, t.store.heap b = s.store.heap b)
    (hpath : Path t.store.heap (t.root i) l none) (hcarries : Carries t.store.heap l vs)
    (hown : ∀ b ∈ l, ∀ j, j ≠ i → b ∉ cells j)
    (hlive : ∀ b c, t.store.heap b = some c → b ∈ l ∨ ∃ j, j ≠ i ∧ b ∈ cells j)
    (hbounded : t.store.Bounded) (honce : t.store.freed.Nodup)
    (hgone : ∀ b ∈ t.store.freed, t.store.heap b = none ∧ b < t.store.brk) :
    Owned t (update cells i l) (update lists i vs) := by
  refine ⟨fun j => ?_, fun j => ?_, fun j k b hj hk => ?_, fun b c hb => ?_, hbounded, honce, hgone⟩
  · by_cases hj : j = i
    · subst hj
      rwa [update_self]
    · rw [update_of_ne hj, hroot j hj]
      exact (h.path j).congr (hheap j hj)
  · by_cases hj : j = i
    · subst hj
      rwa [update_self, update_self]
    · rw [update_of_ne hj, update_of_ne hj]
      exact (h.carries j).congr fun b hb => congrArg _ (hheap j hj b hb)
  · by_cases hji : j = i <;> by_cases hki : k = i
    · exact hji.trans hki.symm
    · rw [hji, update_self] at hj
      rw [update_of_ne hki] at hk
      exact absurd hk (hown b hj k hki)
    · rw [update_of_ne hji] at hj
      rw [hki, update_self] at hk
      exact absurd hj (hown b hk j hji)
    · rw [update_of_ne hji] at hj
      rw [update_of_ne hki] at hk
      exact h.apart j k b hj hk
  · rcases hlive b c hb with hl | ⟨j, hj, hm⟩
    · exact ⟨i, by rwa [update_self]⟩
    · exact ⟨j, by rwa [update_of_ne hj]⟩

lemma Owned.grow (h : Owned s cells lists) {t : Arena ι α} {vs : List α}
    (hroot : ∀ j, j ≠ i → t.root j = s.root j)
    (hheap : ∀ b, b ∉ cells i → b ≠ s.store.brk → t.store.heap b = s.store.heap b)
    (hpath : Path t.store.heap (t.root i) (cells i ++ [s.store.brk]) none)
    (hcarries : Carries t.store.heap (cells i ++ [s.store.brk]) vs)
    (hbrk : t.store.brk = s.store.brk + 1) (hfreed : t.store.freed = s.store.freed) :
    Owned t (update cells i (cells i ++ [s.store.brk])) (update lists i vs) := by
  apply h.change hroot _ hpath hcarries
  · intro b hb j hj hm
    rcases List.mem_append.mp hb with hb | hb
    · exact h.out hj hm hb
    · obtain rfl := List.mem_singleton.mp hb
      exact h.fresh hm
  · intro b c hc
    by_cases hb : b ∈ cells i ++ [s.store.brk]
    · exact .inl hb
    · rw [List.mem_append, List.mem_singleton, not_or] at hb
      rw [hheap b hb.1 hb.2] at hc
      obtain ⟨j, hj⟩ := h.live b c hc
      exact .inr ⟨j, fun hji => hb.1 (hji ▸ hj), hj⟩
  · intro b hb
    rw [hbrk] at hb
    rw [hheap b (fun hm => absurd (h.lt hm) (by omega)) (by omega)]
    exact h.bounded b (by omega)
  · rw [hfreed]
    exact h.once
  · intro b hb
    rw [hfreed] at hb
    obtain ⟨hn, hlt⟩ := h.gone b hb
    rw [hbrk, hheap b (fun hm => h.not_freed hm hb) hlt.ne]
    exact ⟨hn, by omega⟩
  · exact fun j hj b hb => hheap b (h.out hj hb) (ne_of_mem_of_not_mem hb h.fresh)

lemma Owned.push (h : Owned s cells lists) (i : ι) (v : α) :
    wp (pushBack i v) (fun _ t => Holds t (update lists i (lists i ++ [v]))) crash s := by
  have hkept : ∀ b, b ≠ s.store.brk → update s.store.heap s.store.brk (some ⟨v, none⟩) b = s.store.heap b :=
    fun b hb => update_of_ne hb _ _
  have hnew : update s.store.heap s.store.brk (some ⟨v, none⟩) s.store.brk = some ⟨v, none⟩ := update_self ..
  have hold : ∀ b ∈ cells i, b ≠ s.store.brk := fun b hb => ne_of_mem_of_not_mem hb h.fresh
  have hpath : Path (update s.store.heap s.store.brk (some ⟨v, none⟩)) (s.root i) (cells i) none :=
    (h.path i).congr fun b hb => hkept b (hold b hb)
  have hcarries : Carries (update s.store.heap s.store.brk (some ⟨v, none⟩)) (cells i ++ [s.store.brk])
      (lists i ++ [v]) := by
    apply Carries.append
    · exact (h.carries i).congr fun b hb => congrArg _ (hkept b (hold b hb))
    · rw [Carries, List.map_singleton, hnew]
      rfl
  simp only [pushBack, onStore, setRoot, wp_bind, wp_zoom, wp_malloc, wp_get, wp_ite, storePart, wp_modify, wp_onHeap]
  refine ⟨fun hnone => ?_, fun hsome => ?_⟩
  · refine ⟨_, h.grow (fun j hj => update_of_ne hj _ _) (fun b _ hb => hkept b hb) ?_ hcarries rfl rfl⟩
    have hnil : cells i = [] := by
      rw [hnone] at hpath
      cases hc : cells i with
      | nil => rfl
      | cons b l =>
        rw [hc] at hpath
        cases hpath.1
    rw [hnil]
    exact ⟨update_self .., _, hnew, rfl⟩
  · rcases List.eq_nil_or_concat (cells i) with hnil | ⟨l, a, hla⟩
    · rw [hnil] at hpath
      exact absurd hpath hsome
    have hlast := hpath
    rw [hla, List.concat_eq_append] at hlast
    have hlen := h.length_le i
    have hmem : a ∈ cells i := by simp [hla]
    apply wp_mono (wp_lastCell hlast (by rw [hla, List.concat_eq_append] at hlen; omega)) _ fun _ _ hf => hf
    rintro q t ⟨rfl, rfl⟩
    obtain ⟨c, hc⟩ := hpath.cell hmem
    rw [wp_storeNext hc]
    refine ⟨_, h.grow (fun _ _ => rfl) (fun b hb hn => ?_) ?_ ?_ rfl rfl⟩
    · exact (setNext_of_ne (ne_of_mem_of_not_mem hmem hb).symm).trans (hkept b hn)
    · have hlinked := hlast.relink hlast.last_not_mem (some s.store.brk)
      rw [hla, List.concat_eq_append]
      refine path_append.mpr ⟨some s.store.brk, hlinked, rfl, ⟨v, none⟩, ?_, rfl⟩
      exact (setNext_of_ne (hold a hmem).symm).trans hnew
    · exact hcarries.setNext a _

lemma Owned.shrink (h : Owned s cells lists) {t : Arena ι α} {l : List ℕ} {vs : List α} (hl : cells i = a :: l)
    (hroot : ∀ j, j ≠ i → t.root j = s.root j) (hheap : t.store.heap = update s.store.heap a none)
    (hpath : Path s.store.heap (t.root i) l none) (hcarries : Carries s.store.heap l vs)
    (hbrk : t.store.brk = s.store.brk) (hfreed : t.store.freed = a :: s.store.freed) :
    Owned t (update cells i l) (update lists i vs) := by
  have hmem : a ∈ cells i := hl ▸ List.mem_cons_self
  have hal : a ∉ l := by
    have hn := (h.path i).nodup
    rw [hl] at hn
    exact (List.nodup_cons.mp hn).1
  have hsame : ∀ b, b ≠ a → t.store.heap b = s.store.heap b := fun b hb => by rw [hheap, update_of_ne hb]
  have hin : ∀ b ∈ l, b ≠ a := fun b hb => ne_of_mem_of_not_mem hb hal
  apply h.change hroot (fun j hj b hb => hsame b (ne_of_mem_of_not_mem hmem (h.out hj hb)).symm)
  · exact hpath.congr fun b hb => hsame b (hin b hb)
  · exact hcarries.congr fun b hb => congrArg _ (hsame b (hin b hb))
  · exact fun b hb j hj hm => h.out hj hm (hl ▸ List.mem_cons_of_mem a hb)
  · intro b c hc
    have hba : b ≠ a := by
      rintro rfl
      rw [hheap, update_self] at hc
      cases hc
    rw [hsame b hba] at hc
    obtain ⟨j, hj⟩ := h.live b c hc
    by_cases hji : j = i
    · rw [hji, hl] at hj
      exact .inl ((List.mem_cons.mp hj).resolve_left hba)
    · exact .inr ⟨j, hji, hj⟩
  · intro b hb
    rw [hbrk] at hb
    rw [hsame b (ne_of_gt (lt_of_lt_of_le (h.lt hmem) hb))]
    exact h.bounded b hb
  · rw [hfreed]
    exact List.nodup_cons.mpr ⟨h.not_freed hmem, h.once⟩
  · intro b hb
    rw [hfreed] at hb
    rw [hbrk]
    by_cases hba : b = a
    · rw [hba, hheap, update_self]
      exact ⟨rfl, h.lt hmem⟩
    · rw [hsame b hba]
      exact h.gone b ((List.mem_cons.mp hb).resolve_left hba)

lemma Owned.pop (h : Owned s cells lists) {vs : List α} (hv : lists i = v :: vs) :
    wp (popFront i) (fun _ t => Holds t (update lists i vs)) crash s := by
  have hp := h.path i
  have hc := h.carries i
  cases hl : cells i with
  | nil =>
    rw [hl, hv] at hc
    cases hc
  | cons a l =>
    rw [hl] at hp hc
    obtain ⟨hr, c, hcell, hpath⟩ := hp
    obtain ⟨w, ws, hw, hcarries⟩ := hc.cons
    rw [hv] at hw
    obtain ⟨rfl, rfl⟩ := List.cons.inj hw
    simp only [popFront, onStore, setRoot, wp_bind, wp_zoom, wp_get, storePart, wp_modify, wp_onHeap, hr]
    rw [wp_load_some hcell, wp_free hcell]
    refine ⟨_, h.shrink hl (fun j hj => update_of_ne hj _ _) rfl ?_ hcarries rfl rfl⟩
    show Path s.store.heap (update s.root i c.next i) l none
    rwa [update_self]

lemma Owned.popAll (h : Owned s cells lists) (i : ι) :
    wp (Linked.popAll i) (fun _ t => Holds t (update lists i [])) crash s := by
  rw [Linked.popAll, wp_bind, wp_get]
  have hlen : (lists i).length = (cells i).length := by
    have hc := congrArg List.length (h.carries i)
    rwa [List.length_map, List.length_map, eq_comm] at hc
  apply wp_loop (fun n _ t => ∃ l vs, Owned t l (update lists i vs) ∧ n = vs.length)
  · rintro n _ t ⟨l, vs, ht, rfl⟩
    rw [wp_bind, wp_get, wp_ite]
    have hroot := ht.root_eq_none (i := i)
    rw [update_self] at hroot
    cases vs with
    | nil => exact ⟨fun _ => ⟨l, ht⟩, fun hn => absurd (hroot.mpr rfl) hn⟩
    | cons w ws =>
      refine ⟨fun hn => absurd (hroot.mp hn) (List.cons_ne_nil w ws), fun _ => ?_⟩
      rw [wp_bind]
      apply wp_mono (ht.pop (i := i) (update_self ..)) _ fun _ _ hf => hf
      rintro _ u ⟨m, hm⟩
      rw [update_idem] at hm
      exact ⟨ws.length, Nat.lt_succ_self _, m, ws, hm, rfl⟩
  · exact ⟨cells, lists i, by rwa [update_eq_self], rfl⟩
  · have hle := h.length_le i
    omega

lemma Owned.moved (h : Owned s cells lists) (hij : i ≠ j) {t : Arena ι α} (hi : t.root j = none)
    (hroot : ∀ k, k ≠ i → k ≠ j → t.root k = s.root k)
    (hvalues : ∀ b, (t.store.heap b).map Cell.value = (s.store.heap b).map Cell.value)
    (hheap : ∀ b, b ∉ cells i → t.store.heap b = s.store.heap b)
    (hpath : Path t.store.heap (t.root i) (cells i ++ cells j) none)
    (hbrk : t.store.brk = s.store.brk) (hfreed : t.store.freed = s.store.freed) :
    Owned t (update (update cells i (cells i ++ cells j)) j [])
      (update (update lists i (lists i ++ lists j)) j []) := by
  have hnone : ∀ b, t.store.heap b = none ↔ s.store.heap b = none := fun b => none_iff_of_values (hvalues b)
  have hcells : ∀ k, k ≠ i → k ≠ j → update (update cells i (cells i ++ cells j)) j [] k = cells k :=
    fun k hi hj => (update_of_ne hj _ _).trans (update_of_ne hi _ _)
  have hself : update (update cells i (cells i ++ cells j)) j [] i = cells i ++ cells j :=
    (update_of_ne hij _ _).trans (update_self ..)
  have hlself : update (update lists i (lists i ++ lists j)) j [] i = lists i ++ lists j :=
    (update_of_ne hij _ _).trans (update_self ..)
  -- whose a cell was before
  have hwas : ∀ k b, b ∈ update (update cells i (cells i ++ cells j)) j [] k →
      b ∈ cells k ∨ (k = i ∧ b ∈ cells j) := by
    intro k b hb
    by_cases hkj : k = j
    · rw [hkj, update_self] at hb
      cases hb
    · by_cases hki : k = i
      · rw [hki, hself] at hb
        rw [hki]
        exact (List.mem_append.mp hb).imp id fun hb => ⟨rfl, hb⟩
      · rw [hcells k hki hkj] at hb
        exact .inl hb
  refine ⟨fun k => ?_, fun k => ?_, fun k m b hk hm => ?_, fun b c hb => ?_, fun b hb => ?_, ?_, fun b hb => ?_⟩
  · by_cases hkj : k = j
    · rw [hkj, update_self]
      exact hi
    · by_cases hki : k = i
      · rw [hki, hself]
        exact hpath
      · rw [hcells k hki hkj, hroot k hki hkj]
        exact (h.path k).congr fun b hb => hheap b (h.out hki hb)
  · by_cases hkj : k = j
    · rw [hkj, update_self, update_self]
      exact carries_nil
    · by_cases hki : k = i
      · rw [hki, hself, hlself]
        exact ((h.carries i).append (h.carries j)).congr fun b _ => hvalues b
      · rw [hcells k hki hkj, update_of_ne hkj, update_of_ne hki]
        exact (h.carries k).congr fun b _ => hvalues b
  · have hnot : ∀ k, b ∈ update (update cells i (cells i ++ cells j)) j [] k → k ≠ j := by
      rintro k hb rfl
      rw [update_self] at hb
      cases hb
    rcases hwas k b hk with hk' | ⟨hk', hkj⟩ <;> rcases hwas m b hm with hm' | ⟨hm', hmj⟩
    · exact h.apart k m b hk' hm'
    · exact absurd (h.apart k j b hk' hmj) (hnot k hk)
    · exact absurd (h.apart m j b hm' hkj) (hnot m hm)
    · exact hk'.trans hm'.symm
  · have hs : s.store.heap b ≠ none := by
      rw [Ne, ← hnone b, hb]
      exact Option.some_ne_none c
    obtain ⟨d, hd⟩ := Option.ne_none_iff_exists'.mp hs
    obtain ⟨k, hk⟩ := h.live b d hd
    by_cases hkj : k = j
    · exact ⟨i, hself.symm ▸ List.mem_append_right _ (hkj ▸ hk)⟩
    · by_cases hki : k = i
      · exact ⟨i, hself.symm ▸ List.mem_append_left _ (hki ▸ hk)⟩
      · exact ⟨k, (hcells k hki hkj).symm ▸ hk⟩
  · rw [hnone]
    exact h.bounded b (hbrk ▸ hb)
  · rw [hfreed]
    exact h.once
  · rw [hfreed] at hb
    rw [hnone, hbrk]
    exact h.gone b hb

lemma Owned.splice (h : Owned s cells lists) (hij : i ≠ j) (hi : lists i ≠ []) :
    wp (Linked.splice i j) (fun _ t => Holds t (update (update lists i (lists i ++ lists j)) j [])) crash s := by
  have hp := h.path i
  have hlen := h.length_le i
  rcases List.eq_nil_or_concat (cells i) with hnil | ⟨l, a, hla⟩
  · rw [hnil] at hp
    exact absurd (h.root_eq_none.mp hp) hi
  rw [List.concat_eq_append] at hla
  have hmem : a ∈ cells i := by simp [hla]
  rw [hla] at hp
  simp only [Linked.splice, onStore, setRoot, wp_bind, wp_zoom, wp_get, storePart, wp_modify, wp_onHeap]
  apply wp_mono (wp_lastCell hp (by rw [hla] at hlen; omega)) _ fun _ _ hf => hf
  rintro q t ⟨rfl, rfl⟩
  obtain ⟨c, hc⟩ := h.cell hmem
  rw [wp_storeNext hc]
  refine ⟨_, h.moved hij (update_self ..) (fun k _ hk => update_of_ne hk _ _) (values_setNext _ a _)
    (fun b hb => setNext_of_ne (ne_of_mem_of_not_mem hmem hb).symm) ?_ rfl rfl⟩
  show Path _ (update s.root j none i) _ _
  rw [update_of_ne hij, hla]
  refine path_append.mpr ⟨s.root j, hp.relink hp.last_not_mem _, (h.path j).setNext (fun hm => ?_) _⟩
  exact hij (h.apart i j a hmem hm)

lemma Owned.handOver (h : Owned s cells lists) (hij : i ≠ j) (hi : lists i = []) :
    wp (Linked.handOver i j) (fun _ t => Holds t (update (update lists i (lists i ++ lists j)) j [])) crash s := by
  have hp := h.path i
  have hnil : cells i = [] := by
    have hc := congrArg List.length (h.carries i)
    rw [hi, List.length_map, List.map_nil, List.length_nil] at hc
    exact List.length_eq_zero_iff.mp hc
  simp only [Linked.handOver, setRoot, wp_bind, wp_get, wp_modify]
  refine ⟨_, h.moved hij (update_self ..) (fun k hki hkj => ?_) (fun _ => rfl) (fun _ _ => rfl) ?_ rfl rfl⟩
  · exact (update_of_ne hkj _ _).trans (update_of_ne hki _ _)
  · show Path _ (update (update s.root i (s.root j)) j none i) _ _
    rw [update_of_ne hij, update_self, hnil]
    exact h.path j

lemma Owned.relinked (h : Owned s cells lists) {t : Arena ι α} {l : List ℕ} {vs : List α}
    (hroot : ∀ j, j ≠ i → t.root j = s.root j) (hrel : Relinked (cells i) s.store.heap t.store.heap)
    (hperm : l.Perm (cells i)) (hpath : Path t.store.heap (t.root i) l none)
    (hcarries : Carries t.store.heap l vs) (hbrk : t.store.brk = s.store.brk)
    (hfreed : t.store.freed = s.store.freed) : Owned t (update cells i l) (update lists i vs) := by
  have hnone : ∀ b, t.store.heap b = none ↔ s.store.heap b = none := fun b => none_iff_of_values (hrel.values b)
  apply h.change hroot (fun j hj b hb => hrel.others b (h.out hj hb)) hpath hcarries
  · exact fun b hb j hj hm => h.out hj hm (hperm.mem_iff.mp hb)
  · intro b c hb
    have hs : s.store.heap b ≠ none := by
      rw [Ne, ← hnone b, hb]
      exact Option.some_ne_none c
    obtain ⟨d, hd⟩ := Option.ne_none_iff_exists'.mp hs
    obtain ⟨j, hj⟩ := h.live b d hd
    by_cases hji : j = i
    · exact .inl (hperm.mem_iff.mpr (hji ▸ hj))
    · exact .inr ⟨j, hji, hj⟩
  · intro b hb
    rw [hnone]
    exact h.bounded b (hbrk ▸ hb)
  · rw [hfreed]
    exact h.once
  · intro b hb
    rw [hfreed] at hb
    rw [hnone, hbrk]
    exact h.gone b hb

end

/-- Before anything is allocated. -/
def emptyArena (ι α : Type) : Arena ι α := ⟨⟨fun _ => none, 0, []⟩, fun _ => none⟩

lemma emptyArena_holds (ι α : Type) : Holds (emptyArena ι α) fun _ => [] := by
  refine ⟨fun _ => [], fun _ => rfl, fun _ => rfl, ?_, ?_, fun _ _ => rfl, List.nodup_nil, ?_⟩
  · exact fun _ _ _ ha => absurd ha List.not_mem_nil
  · exact fun _ _ hc => absurd hc (Option.some_ne_none _).symm
  · exact fun _ ha => absurd ha List.not_mem_nil

end GreenBag.Linked
