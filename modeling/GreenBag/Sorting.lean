import GreenBag.Chunks
import GreenBag.Linked
import GreenBag.Sorts

/-! `sorting_chunks` as it works: the chunks are nodes in a heap, and only their `next` pointers are
written. -/

namespace GreenBag

open Programs Linked Sorts

/-- The local variables of `sorting_chunks`. -/
structure SortVars where
  chunkList : Option ℕ
  sortedList : Option ℕ
  tail : Option ℕ
  chunkP : Option ℕ
  target : Option ℕ
  prev : Option ℕ

/-- A round of the inner loop, which looks for the target. -/
def scanChunk (v : SortVars) : HeapProgram Chunk (SortVars ⊕ SortVars) := do
  let chunk ← load v.chunkP
  if chunk.next = none then return .inr v
  let target ← load v.target
  let next ← load chunk.next
  let v := if target.value.startByte > next.value.startByte then
    { v with target := chunk.next, prev := v.chunkP } else v
  return .inl { v with chunkP := chunk.next }

/-- Take the target out of the list. -/
def unlinkTarget (v : SortVars) : HeapProgram Chunk (Option ℕ) := do
  if v.prev = none then
    let first ← load v.chunkList
    return first.next
  else
    let target ← load v.target
    storeNext v.prev target.next
    return v.chunkList

/-- Put the target behind the sorted list. -/
def appendTarget (v : SortVars) : HeapProgram Chunk (Option ℕ) := do
  storeNext v.target none
  let sortedList ← (if v.sortedList = none then pure v.target
    else do
      storeNext v.tail v.target
      pure v.sortedList)
  storeNext v.target none
  return sortedList

/-- A round of the outer loop. -/
def moveTarget (rounds : ℕ) (v : SortVars) : HeapProgram Chunk (SortVars ⊕ Option ℕ) := do
  if v.chunkList = none then return .inr v.sortedList
  let v ← loop .endless scanChunk rounds v
  let chunkList ← unlinkTarget v
  let sortedList ← appendTarget v
  return .inl ⟨chunkList, sortedList, v.target, chunkList, chunkList, none⟩

/-- Each loop takes at most so many rounds. -/
def sortingChunksInPlace (rounds : ℕ) (chunkList : Option ℕ) : HeapProgram Chunk (Option ℕ) :=
  loop .endless (moveTarget rounds) rounds ⟨chunkList, none, none, chunkList, chunkList, none⟩

/-- The start of the chunk at an address. -/
def startAt (h : Heap Chunk) (a : ℕ) : ℤ := (h a).elim 0 fun c => c.value.startByte

section

variable {h h₀ : Heap Chunk} {p : Option ℕ} {l xs ys done rest : List ℕ} {t : ℕ} {v : SortVars}
  {rounds : ℕ}

lemma startAt_eq {c : Cell Chunk} (hc : h t = some c) : startAt h t = c.value.startByte := by
  rw [startAt, hc]
  rfl

/-- The inner loop has so many nodes to come. -/
structure Scanning (h : Heap Chunk) (rest : List ℕ) (v₀ : SortVars) (n : ℕ) (v : SortVars) : Prop where
  same : { v with chunkP := v₀.chunkP, target := v₀.target, prev := v₀.prev } = v₀
  seen : ∃ pre c post xs t ys, rest = pre ++ c :: post ∧ v.chunkP = some c ∧ v.target = some t ∧
    Least (startAt h) (pre ++ [c]) xs t ys ∧ v.prev = xs.getLast? ∧ n = post.length

/-- The target is the earliest of the least nodes. -/
structure TargetFound (h : Heap Chunk) (rest : List ℕ) (v₀ v : SortVars) : Prop where
  same : { v with chunkP := v₀.chunkP, target := v₀.target, prev := v₀.prev } = v₀
  found : ∃ xs t ys, Least (startAt h) rest xs t ys ∧ v.target = some t ∧ v.prev = xs.getLast?

lemma wp_scanChunk {v₀ : SortVars} {n : ℕ} (hp : Path h p rest none) (hv : Scanning h rest v₀ n v) :
    wp (scanChunk v) (Programs.Round (fun n v s => s = h ∧ Scanning h rest v₀ n v)
      (fun v s => s = h ∧ TargetFound h rest v₀ v) n) (fun _ _ => False) h := by
  obtain ⟨hsame, pre, c, post, xs, t, ys, rfl, hc, ht, hleast, hprev, rfl⟩ := hv
  obtain ⟨r, -, rfl, cell, hcell, hpost⟩ := path_append.mp hp
  have htarget : t ∈ pre ++ c :: post := by
    have hmem : t ∈ pre ++ [c] := by
      rw [hleast.split]
      simp
    simp only [List.mem_append, List.mem_cons, List.not_mem_nil, or_false] at hmem ⊢
    tauto
  obtain ⟨tcell, htcell⟩ := hp.cell htarget
  rw [scanChunk, wp_bind, hc, wp_load_some hcell, wp_ite]
  cases post with
  | nil =>
    rw [path_nil] at hpost
    exact ⟨fun _ => ⟨rfl, hsame, xs, t, ys, hleast, ht, hprev⟩, fun hn => absurd hpost hn⟩
  | cons d post =>
    obtain ⟨hd, dcell, hdcell, -⟩ := hpost
    refine ⟨fun hn => by simp [hd] at hn, fun _ => ?_⟩
    rw [wp_bind, ht, wp_load_some htcell, wp_bind, hd, wp_load_some hdcell, wp_pure]
    have hsnoc := hleast.snoc d
    rw [startAt_eq htcell, startAt_eq hdcell] at hsnoc
    refine ⟨post.length, by simp, rfl, ?_, ?_⟩
    · split_ifs <;> exact hsame
    · by_cases hlt : dcell.value.startByte < tcell.value.startByte
      · rw [if_pos hlt] at hsnoc
        exact ⟨pre ++ [c], d, post, pre ++ [c], d, [], by simp, rfl, by simp [hlt], hsnoc,
          by simp [hlt], rfl⟩
      · rw [if_neg hlt] at hsnoc
        exact ⟨pre ++ [c], d, post, xs, t, ys ++ [d], by simp, rfl, by simp [hlt, ht], hsnoc,
          by simp [hlt, hprev], rfl⟩

lemma wp_unlinkTarget {crash : HeapFault → Heap Chunk → Prop} (hp : Path h v.chunkList (xs ++ t :: ys) none)
    (ht : v.target = some t) (hprev : v.prev = xs.getLast?) :
    wp (unlinkTarget v) (fun q h' => Path h' q (xs ++ ys) none ∧ Relinked xs h h') crash h := by
  have hnodup := hp.nodup
  obtain ⟨r, hxs, hr, cell, hcell, hys⟩ := path_append.mp hp
  subst hr
  rw [unlinkTarget, wp_ite]
  rcases List.eq_nil_or_concat' xs with rfl | ⟨zs, z, rfl⟩
  · rw [path_nil] at hxs
    refine ⟨fun _ => ?_, fun hn => absurd hprev hn⟩
    rw [wp_bind, hxs, wp_load_some hcell]
    exact ⟨hys, Relinked.refl _ h⟩
  · rw [List.getLast?_concat] at hprev
    obtain ⟨zcell, hzcell⟩ := hxs.cell (a := z) (by simp)
    refine ⟨fun hn => by simp [hprev] at hn, fun _ => ?_⟩
    rw [wp_bind, ht, wp_load_some hcell, wp_bind, hprev, wp_storeNext hzcell]
    have hz : z ∉ zs ∧ z ∉ ys := by
      simp only [List.nodup_append, List.nodup_cons, List.mem_append, List.mem_cons] at hnodup
      exact ⟨fun hm => hnodup.1.2.2 z hm z (by simp) rfl, fun hm => hnodup.2.2 z (by simp) z (.inr hm) rfl⟩
    refine ⟨path_append.mpr ⟨_, hxs.relink hz.1 cell.next, hys.setNext hz.2 _⟩, ?_⟩
    exact (Relinked.refl _ h).setNext (by simp) _

lemma wp_appendTarget {crash : HeapFault → Heap Chunk → Prop} {c : Cell Chunk}
    (hp : Path h v.sortedList done none) (htail : v.tail = done.getLast?) (ht : v.target = some t)
    (hc : h t = some c) (htdone : t ∉ done) :
    wp (appendTarget v) (fun q h' => Path h' q (done ++ [t]) none ∧ Relinked (done ++ [t]) h h') crash
      h := by
  rw [appendTarget, wp_bind, ht, wp_storeNext hc, wp_bind, wp_ite]
  have hnext : setNext h t none t = some { c with next := none } := setNext_self hc
  have hset : Relinked (done ++ [t]) h (setNext h t none) :=
    (Relinked.refl _ h).setNext (by simp) none
  rcases List.eq_nil_or_concat' done with rfl | ⟨ds, d, rfl⟩
  · rw [path_nil] at hp
    refine ⟨fun _ => ?_, fun hn => absurd hp hn⟩
    rw [wp_pure, wp_bind, wp_storeNext hnext]
    exact ⟨⟨rfl, _, setNext_self hnext, rfl⟩, hset.setNext (by simp) none⟩
  · rw [List.getLast?_concat] at htail
    have hp' : Path (setNext h t none) v.sortedList (ds ++ [d]) none := hp.setNext htdone none
    obtain ⟨dcell, hdcell⟩ := hp'.cell (a := d) (by simp)
    have hd : d ∉ ds := by
      have hnodup := hp.nodup
      simp only [List.nodup_append] at hnodup
      exact fun hm => hnodup.2.2 d hm d (by simp) rfl
    have hdt : t ≠ d := fun he => htdone (by simp [he])
    refine ⟨fun hn => ?_, fun _ => ?_⟩
    · rw [hn] at hp
      cases ds <;> cases hp.1
    rw [wp_bind, htail, wp_storeNext hdcell, wp_pure, wp_bind,
      wp_storeNext ((setNext_of_ne hdt).trans hnext)]
    have hlinked : Path (setNext (setNext h t none) d (some t)) v.sortedList (ds ++ [d] ++ [t]) none :=
      path_append.mpr ⟨some t, hp'.relink hd (some t), rfl, _, (setNext_of_ne hdt).trans hnext, rfl⟩
    exact ⟨hlinked.relink htdone none, (hset.setNext (by simp) _).setNext (by simp) _⟩

lemma startAt_congr {h' : Heap Chunk} (hv : ∀ a, (h' a).map Cell.value = (h a).map Cell.value) :
    startAt h' = startAt h := by
  funext a
  have ha := hv a
  unfold startAt
  cases ha' : h' a <;> cases hb : h a <;> simp_all

/-- What the outer loop has done, with so many nodes to come. -/
structure Moving (h₀ : Heap Chunk) (l : List ℕ) (n : ℕ) (v : SortVars) (h : Heap Chunk) : Prop where
  relinked : Relinked l h₀ h
  vars : v.chunkP = v.chunkList ∧ v.target = v.chunkList ∧ v.prev = none
  lists : ∃ done rest, Path h v.sortedList done none ∧ v.tail = done.getLast? ∧
    Path h v.chunkList rest none ∧ (done ++ rest).Perm l ∧ Sorting (startAt h₀) l done rest ∧
    n = rest.length

/-- The list from a pointer on is the first one, sorted. -/
def Sorted (h₀ : Heap Chunk) (l : List ℕ) (q : Option ℕ) (h : Heap Chunk) : Prop :=
  ∃ l', Path h q l' none ∧ StableSort (startAt h₀) l l' ∧ Relinked l h₀ h

lemma Moving.wp_moveTarget {n : ℕ} (hl : l.Nodup) (hrounds : l.length < rounds)
    (hm : Moving h₀ l n v h) :
    wp (moveTarget rounds v) (Programs.Round (Moving h₀ l) (Sorted h₀ l) n) (fun _ _ => False) h := by
  obtain ⟨hrel, ⟨hchunkP, htarget, hprev⟩, done, rest, hdone, htail, hrest, hperm, hsorting, rfl⟩ := hm
  rw [moveTarget, wp_ite]
  cases rest with
  | nil =>
    rw [path_nil] at hrest
    exact ⟨fun _ => ⟨done, hdone, hsorting.finish, hrel⟩, fun hn => absurd hrest hn⟩
  | cons a rest =>
    have ha := hrest.1
    refine ⟨fun hn => by simp [ha] at hn, fun _ => ?_⟩
    have hstart : startAt h = startAt h₀ := startAt_congr hrel.values
    have hnodup : (done ++ a :: rest).Nodup := hperm.nodup_iff.mpr hl
    have hlen := hperm.length_eq
    have hscan : Scanning h (a :: rest) v rest.length v :=
      ⟨rfl, [], a, rest, [], a, [], rfl, hchunkP.trans ha, htarget.trans ha, least_singleton,
        hprev, rfl⟩
    have hloop : wp (loop .endless scanChunk rounds v)
        (fun u s => s = h ∧ TargetFound h (a :: rest) v u) (fun _ _ => False) h := by
      apply wp_loop (fun n u s => s = h ∧ Scanning h (a :: rest) v n u)
      · rintro n u s ⟨rfl, hu⟩
        exact wp_scanChunk hrest hu
      · exact ⟨rfl, hscan⟩
      · simp only [List.length_append, List.length_cons] at hlen
        omega
    rw [wp_bind]
    apply wp_mono hloop _ fun _ _ hf => hf
    rintro u s ⟨rfl, hsame, xs, t, ys, hleast, hut, huprev⟩
    have hkept : u.chunkList = v.chunkList ∧ u.sortedList = v.sortedList ∧ u.tail = v.tail := by
      rw [← hsame]
      exact ⟨rfl, rfl, rfl⟩
    rw [hstart] at hleast
    have hsplit := hleast.split
    rw [hsplit] at hrest hnodup hperm
    rw [← hkept.1] at hrest
    obtain ⟨tcell, htcell⟩ := hrest.cell (a := t) (by simp)
    have hmem : ∀ b ∈ done ++ t :: (xs ++ ys), b ∈ l := fun b hb =>
      hperm.mem_iff.mp (by
        simp only [List.mem_append, List.mem_cons] at hb ⊢
        tauto)
    have hapart : t ∉ done ∧ t ∉ xs ∧ t ∉ ys ∧ (∀ b ∈ done, b ∉ xs ∧ b ∉ ys) := by
      simp only [List.nodup_append, List.nodup_cons, List.mem_append, List.mem_cons] at hnodup
      obtain ⟨-, ⟨-, ⟨hty, -⟩, hxy⟩, hd⟩ := hnodup
      refine ⟨fun hm => hd t hm t (.inr (.inl rfl)) rfl, fun hm => hxy t hm t (.inl rfl) rfl, hty,
        fun b hb => ⟨fun hm => hd b hb b (.inl hm) rfl, fun hm => hd b hb b (.inr (.inr hm)) rfl⟩⟩
    rw [wp_bind]
    apply wp_mono (wp_unlinkTarget hrest hut huprev) _ fun _ _ hf => hf
    rintro q h₁ ⟨hq, hrel₁⟩
    have hdone₁ : Path h₁ u.sortedList done none :=
      hrel₁.path (hkept.2.1 ▸ hdone) fun b hb => (hapart.2.2.2 b hb).1
    have htcell₁ : h₁ t = some tcell := (hrel₁.others t hapart.2.1).trans htcell
    rw [wp_bind]
    apply wp_mono (wp_appendTarget hdone₁ (hkept.2.2 ▸ htail) hut htcell₁ hapart.1) _ fun _ _ hf => hf
    rintro r h₂ ⟨hr, hrel₂⟩
    rw [wp_pure]
    refine ⟨(xs ++ ys).length, ?_, ?_, ⟨rfl, rfl, rfl⟩, done ++ [t], xs ++ ys, hr, ?_, ?_, ?_,
      hsorting.step hleast, rfl⟩
    · rw [hsplit]
      simp
    · refine (hrel.trans (hrel₁.mono fun b hb => ?_)).trans (hrel₂.mono fun b hb => ?_)
      · exact hmem b (by simp [hb])
      · apply hmem b
        simp only [List.mem_append, List.mem_cons] at hb ⊢
        tauto
    · simp [hut]
    · refine hrel₂.path hq fun b hb hm => ?_
      simp only [List.mem_append, List.mem_singleton] at hb hm
      rcases hm with hm | rfl
      · exact hb.elim (hapart.2.2.2 b hm).1 (hapart.2.2.2 b hm).2
      · exact hb.elim hapart.2.1 hapart.2.2.1
    · refine List.Perm.trans ?_ hperm
      rw [List.append_assoc]
      exact (@List.perm_middle _ _ xs _).symm.append_left done

lemma wp_sortingChunksInPlace (hl : Path h p l none) (hr : l.length < rounds) :
    wp (sortingChunksInPlace rounds p) (Sorted h l) (fun _ _ => False) h := by
  apply wp_loop (Moving h l) (fun n v s hm => hm.wp_moveTarget hl.nodup hr)
  · exact ⟨Relinked.refl l h, ⟨rfl, rfl, rfl⟩, [], l, rfl, rfl, hl, List.Perm.refl l, .start, rfl⟩
  · exact hr

/-- The sort ends, and the nodes are those of the list, none of them changed but for its link, in the
order of their start bytes and where these are equal in the order they had. -/
theorem sortingChunksInPlace_sorts (hl : Path h p l none) (hr : l.length < rounds) :
    ∃ q h' l', sortingChunksInPlace rounds p h = .ok q h' ∧ Path h' q l' none ∧ l'.Perm l ∧
      (∀ a, (h' a).map Cell.value = (h a).map Cell.value) ∧ (∀ a ∉ l, h' a = h a) ∧
      l'.Pairwise (fun a b => startAt h a ≤ startAt h b) ∧
      ∀ x, l'.filter (fun a => startAt h a = x) = l.filter fun a => startAt h a = x := by
  obtain ⟨q, h', hq, l', hpath, hsort, hrel⟩ := exists_of_wp (wp_sortingChunksInPlace hl hr)
  exact ⟨q, h', l', hq, hpath, hsort.perm, hrel.values, hrel.others, hsort.sorted, hsort.same⟩

end

/-- Nodes 5, 3 and 8, the first and the last of which start at the same byte. -/
def threeNodes : Heap Chunk := fun
  | 5 => some ⟨newChunk 10 2, some 3⟩
  | 3 => some ⟨newChunk 4 1, some 8⟩
  | 8 => some ⟨newChunk 10 7, none⟩
  | _ => none

theorem sortingChunksInPlace_sorts_of_three : ∃ q h' l',
    sortingChunksInPlace 4 (some 5) threeNodes = .ok q h' ∧ Path h' q l' none ∧ l'.Perm [5, 3, 8] ∧
      (∀ a, (h' a).map Cell.value = (threeNodes a).map Cell.value) ∧
      (∀ a ∉ [5, 3, 8], h' a = threeNodes a) ∧
      l'.Pairwise (fun a b => startAt threeNodes a ≤ startAt threeNodes b) ∧
      ∀ x, l'.filter (fun a => startAt threeNodes a = x) =
        [5, 3, 8].filter fun a => startAt threeNodes a = x :=
  sortingChunksInPlace_sorts ⟨rfl, _, rfl, rfl, _, rfl, rfl, _, rfl, rfl⟩ (by decide)

lemma exists_least_smallest {seen xs ys : List Chunk} {target : Chunk} (rest : List Chunk)
    (h : Least Chunk.startByte seen xs target ys) :
    ∃ xs ys, Least Chunk.startByte (seen ++ rest) xs (smallest target rest) ys := by
  induction rest generalizing seen xs target ys with
  | nil => exact ⟨xs, ys, by simpa [smallest] using h⟩
  | cons next rest ih =>
    have hnext := h.snoc next
    rw [smallest, List.append_cons]
    by_cases hlt : next.startByte < target.startByte
    · rw [if_pos hlt] at hnext ⊢
      exact ih hnext
    · rw [if_neg hlt] at hnext ⊢
      exact ih hnext

lemma sorting_selectChunks (n : ℕ) {cs done rest : List Chunk} (hn : rest.length = n)
    (h : Sorting Chunk.startByte cs done rest) :
    StableSort Chunk.startByte cs (done ++ selectChunks n rest) := by
  induction n generalizing done rest with
  | zero =>
    rw [List.length_eq_zero_iff.mp hn] at h ⊢
    simpa [selectChunks] using h.finish
  | succ n ih =>
    cases rest with
    | nil => simp at hn
    | cons c rest =>
      obtain ⟨xs, ys, hleast⟩ := exists_least_smallest rest (least_singleton (t := c))
      rw [List.singleton_append] at hleast
      have hxs : smallest c rest ∉ xs := fun hm => lt_irrefl _ (hleast.before _ hm)
      have herase : (c :: rest).erase (smallest c rest) = xs ++ ys := by
        rw [hleast.split, List.erase_append_right _ hxs, List.erase_cons_head]
      have hlen : (xs ++ ys).length = n := by
        have hl := congrArg List.length hleast.split
        simp only [List.length_append, List.length_cons] at hl hn ⊢
        omega
      rw [selectChunks, herase, List.append_cons]
      exact ih hlen (h.step hleast)

/-- The chunk at an address. -/
def chunkAt (h : Heap Chunk) (a : ℕ) : Option Chunk := (h a).map Cell.value

/-- The sort in place puts the chunks in the order of `sortingChunks`. -/
lemma sorted_chunks {h h' : Heap Chunk} {l l' : List ℕ} {cs : List Chunk}
    (hcs : l.map (chunkAt h) = cs.map some) (hsort : StableSort (startAt h) l l') (hrel : Relinked l h h') :
    l'.map (chunkAt h') = (sortingChunks cs).map some := by
  have hchunk : chunkAt h' = chunkAt h := funext hrel.values
  have hstart : startAt h = fun a => (chunkAt h a).elim 0 Chunk.startByte := by
    funext a
    unfold startAt chunkAt
    cases h a <;> rfl
  have hnodes : StableSort (fun c : Option Chunk => c.elim 0 Chunk.startByte) (cs.map some)
      (l'.map (chunkAt h)) := by
    rw [← hcs]
    apply StableSort.map
    rw [← hstart]
    exact hsort
  have hlist : StableSort (fun c : Option Chunk => c.elim 0 Chunk.startByte) (cs.map some)
      ((sortingChunks cs).map some) :=
    StableSort.map (sorting_selectChunks _ rfl .start)
  rw [hchunk, hnodes.unique hlist]

end GreenBag
