import GreenBag.Owning
import GreenBag.Sorting
import GreenBag.Urls

/-! The lists of chunks and of messages as the source keeps them, linked cells that are allocated and freed,
over any run of the functions that work on them. -/

namespace GreenBag

open Programs Linked Function

/-- What the source does to its lists of chunks: `add_new_chunk`, `delete_head_chunk`, the loop of
`delete_subsegment`, `get_last_chunk (..)->next = ..` and `sorting_chunks`, and that a list is handed over. -/
inductive ChunkOp (ι : Type)
  | add (i : ι) (startByte size : ℤ)
  | deleteHead (i : ι)
  | deleteAll (i : ι)
  | append (i j : ι)
  | sort (i : ι)
  | handOver (i j : ι)

namespace ChunkOp

variable {ι : Type} [DecidableEq ι]

def sortList (i : ι) : ArenaProgram ι Chunk Unit := do
  let s ← get
  let q ← onStore (onHeap (sortingChunksInPlace (s.store.brk + 1) (s.root i)))
  setRoot i q

def exec : ChunkOp ι → ArenaProgram ι Chunk Unit
  | add i startByte size => pushBack i (newChunk startByte size)
  | deleteHead i => popFront i
  | deleteAll i => popAll i
  | append i j => splice i j
  | sort i => sortList i
  | handOver i j => Linked.handOver i j

/-- What it does to the lists as such, where the source may do it. -/
def apply (lists : ι → List Chunk) : ChunkOp ι → Option (ι → List Chunk)
  | add i startByte size => some (update lists i (addNewChunk (lists i) startByte size))
  | deleteHead i => if lists i = [] then none else some (update lists i (lists i).tail)
  | deleteAll i => some (update lists i [])
  | append i j =>
    if i = j ∨ lists i = [] then none else some (update (update lists i (lists i ++ lists j)) j [])
  | sort i => some (update lists i (sortingChunks (lists i)))
  | handOver i j =>
    if i = j ∨ lists i ≠ [] then none else some (update (update lists i (lists i ++ lists j)) j [])

end ChunkOp

section

variable {ι : Type} [DecidableEq ι] {s : Arena ι Chunk} {lists lists' : ι → List Chunk} {cells : ι → List ℕ} {i : ι}

lemma Owned.sort (h : Owned s cells lists) (i : ι) :
    wp (ChunkOp.sortList i) (fun _ t => Holds t (update lists i (sortingChunks (lists i)))) (fun _ _ => False) s := by
  have hlen := h.length_le i
  simp only [ChunkOp.sortList, onStore, setRoot, wp_bind, wp_zoom, wp_get, storePart, wp_modify, wp_onHeap]
  apply wp_mono (wp_sortingChunksInPlace (h.path i) (Nat.lt_succ_of_le hlen))
  · intro q t hq
    obtain ⟨l, hpath, hsort, hrel⟩ := hq
    refine ⟨_, h.relinked (fun j hj => update_of_ne hj _ _) hrel hsort.perm ?_ ?_ rfl rfl⟩
    · show Path t (update s.root i q i) l none
      rwa [update_self]
    · exact sorted_chunks (h.carries i) hsort hrel
  · exact fun _ _ hf => hf

lemma ChunkOp.wp_exec {op : ChunkOp ι} (h : Holds s lists) (ha : op.apply lists = some lists') :
    wp op.exec (fun _ t => Holds t lists') (fun _ _ => False) s := by
  obtain ⟨cells, h⟩ := h
  cases op with
  | add i startByte size =>
    cases ha
    exact h.push i (newChunk startByte size)
  | deleteHead i =>
    simp only [ChunkOp.apply] at ha
    split_ifs at ha with hn
    cases ha
    exact h.pop (List.cons_head_tail hn).symm
  | deleteAll i =>
    cases ha
    exact h.popAll i
  | append i j =>
    simp only [ChunkOp.apply] at ha
    split_ifs at ha with hn
    cases ha
    exact h.splice (fun he => hn (.inl he)) fun he => hn (.inr he)
  | sort i =>
    cases ha
    exact Owned.sort h i
  | handOver i j =>
    simp only [ChunkOp.apply] at ha
    split_ifs at ha with hn
    cases ha
    exact h.handOver (fun he => hn (.inl he)) (not_not.mp fun he => hn (.inr he))

end

/-- The linked lists of chunks are the lists they stand for: as long as no head of an empty list is deleted
and no list is linked to an empty one, to itself or handed over where one is, the functions return in any
order, no cell is lost, used after it was freed or freed twice. -/
theorem chunk_lists_refine {ι : Type} [DecidableEq ι] (ops : List (ChunkOp ι)) {lists : ι → List Chunk}
    (h : ops.foldlM ChunkOp.apply (fun _ => []) = some lists) :
    ∃ t cells, each ChunkOp.exec ops (emptyArena ι Chunk) = .ok () t ∧ Owned t cells lists := by
  have hrun : ∀ (ops : List (ChunkOp ι)) s ls, Holds s ls → ops.foldlM ChunkOp.apply ls = some lists →
      wp (each ChunkOp.exec ops) (fun _ t => Holds t lists) (fun _ _ => False) s := by
    intro ops
    induction ops with
    | nil =>
      intro s ls hs hl
      cases hl
      exact hs
    | cons op ops ih =>
      intro s ls hs hl
      rw [List.foldlM_cons] at hl
      obtain ⟨ls', hop, hl⟩ := Option.bind_eq_some_iff.mp hl
      rw [each_cons, wp_bind]
      exact wp_mono (ChunkOp.wp_exec hs hop) (fun _ t ht => ih t ls' ht hl) fun _ _ hf => hf
  obtain ⟨u, t, ht, cells, hcells⟩ := exists_of_wp (hrun ops _ _ (emptyArena_holds ι Chunk) h)
  exact ⟨t, cells, ht, hcells⟩

/-- Two lists are cut, put together, sorted and deleted. -/
def someChunkOps : List (ChunkOp Bool) :=
  [.add true 8 4, .add false 0 2, .add false 2 2, .deleteHead false, .append true false, .sort true,
    .handOver false true, .deleteHead false]

theorem chunk_lists_refine_of_two : ∃ (lists : Bool → List Chunk) (t : Arena Bool Chunk) (cells : Bool → List ℕ),
    lists false = [newChunk 8 4] ∧
      each ChunkOp.exec someChunkOps (emptyArena Bool Chunk) = .ok () t ∧ Owned t cells lists := by
  have hsome : (someChunkOps.foldlM ChunkOp.apply fun _ => []).isSome := by decide
  obtain ⟨lists, hlists⟩ := Option.isSome_iff_exists.mp hsome
  have hfalse : (someChunkOps.foldlM ChunkOp.apply fun _ => []).map (fun l => l false) = some [newChunk 8 4] := by
    decide
  rw [hlists] at hfalse
  obtain ⟨t, cells, ht⟩ := chunk_lists_refine someChunkOps hlists
  exact ⟨lists, t, cells, Option.some.inj hfalse, ht⟩

/-! ### Messages -/

/-- The queue of `gb->message`, and what was printed, the latest last. -/
structure Messages where
  arena : Arena Unit (List UInt8)
  printed : List (List UInt8)

abbrev Messaging := EStateM HeapFault Messages

def arenaPart : Part Messages (Arena Unit (List UInt8)) where
  view := Messages.arena
  put s a := { s with arena := a }
  view_put _ _ := rfl

/-- A text that is too long is cut off. -/
def gbMessage (text : List UInt8) : Messaging Unit := zoom arenaPart (pushBack () (snprintf text))

def printMessages : Messaging Unit := do
  let s ← get
  loop .endless (fun _ => do
    let s ← get
    if s.arena.root () = none then return .inr ()
    let c ← zoom arenaPart (onStore (onHeap (load (s.arena.root ()))))
    modify fun s => { s with printed := s.printed ++ [c.value] }
    zoom arenaPart (popFront ())
    return .inl ()) (s.arena.store.brk + 1) ()

/-- What `gb_close` does to the messages that are left. -/
def closeMessages : Messaging Unit := zoom arenaPart (popAll ())

inductive MessageOp
  | message (text : List UInt8)
  | print

namespace MessageOp

def exec : MessageOp → Messaging Unit
  | message text => gbMessage text
  | print => printMessages

def text : MessageOp → Option (List UInt8)
  | message text => some (snprintf text)
  | print => none

end MessageOp

/-- The messages so far are printed or in the queue. -/
def Messages.Told (s : Messages) (texts : List (List UInt8)) : Prop :=
  ∃ queue, Holds s.arena (fun _ => queue) ∧ s.printed ++ queue = texts

lemma update_unit {β : Type} (f : Unit → β) (v : β) : update f () v = fun _ => v := by
  funext u
  exact update_self () v f

section

variable {s : Messages} {texts : List (List UInt8)}

lemma wp_printMessages (h : s.Told texts) :
    wp printMessages (fun _ t => Holds t.arena (fun _ => []) ∧ t.printed = texts) (fun _ _ => False) s := by
  obtain ⟨queue, ⟨cells, hqueue⟩, htexts⟩ := h
  have hlen : queue.length ≤ s.arena.store.brk := by
    have hc := congrArg List.length (hqueue.carries ())
    rw [List.length_map, List.length_map] at hc
    exact hc ▸ hqueue.length_le ()
  rw [printMessages, wp_bind, wp_get]
  apply wp_loop (fun n _ t => ∃ queue, Holds t.arena (fun _ => queue) ∧ t.printed ++ queue = texts ∧ n = queue.length)
  · rintro n _ t ⟨queue, ⟨cells, hqueue⟩, htexts, rfl⟩
    rw [wp_bind, wp_get, wp_ite]
    cases queue with
    | nil =>
      refine ⟨fun _ => ⟨⟨cells, hqueue⟩, ?_⟩, fun hn => absurd (hqueue.root_eq_none.mpr rfl) hn⟩
      rwa [List.append_nil] at htexts
    | cons v vs =>
      refine ⟨fun hn => absurd (hqueue.root_eq_none.mp hn) (List.cons_ne_nil v vs), fun _ => ?_⟩
      simp only [onStore, wp_bind, wp_zoom, wp_onHeap, wp_modify]
      apply wp_mono (hqueue.wp_head (i := ()) rfl) _ fun _ _ hf => hf
      rintro c heap ⟨rfl, rfl⟩
      apply wp_mono (hqueue.pop (i := ()) rfl) _ fun _ _ hf => hf
      rintro _ arena ⟨l, hl⟩
      rw [update_unit] at hl
      refine ⟨vs.length, Nat.lt_succ_self _, vs, ⟨l, hl⟩, ?_, rfl⟩
      show t.printed ++ [c.value] ++ vs = texts
      rw [List.append_assoc]
      exact htexts
  · exact ⟨queue, ⟨cells, hqueue⟩, htexts, rfl⟩
  · omega

lemma Messages.Told.wp_exec (h : s.Told texts) (op : MessageOp) :
    wp op.exec (fun _ t => t.Told (texts ++ op.text.toList)) (fun _ _ => False) s := by
  cases op with
  | message text =>
    obtain ⟨queue, ⟨cells, hqueue⟩, htexts⟩ := h
    show wp (zoom arenaPart (pushBack () (snprintf text))) _ _ s
    rw [wp_zoom]
    apply wp_mono (hqueue.push () (snprintf text))
    · intro _ arena harena
      rw [update_unit] at harena
      refine ⟨queue ++ [snprintf text], harena, ?_⟩
      rw [← htexts, List.append_assoc]
      rfl
    · exact fun _ _ hf => hf
  | print =>
    apply wp_mono (wp_printMessages h) _ fun _ _ hf => hf
    rintro _ t ⟨ht, hprinted⟩
    exact ⟨[], ht, congrArg (· ++ []) hprinted⟩

end

/-- However messages come in and are printed, each is printed once, in the order in which they came, or
is still in the queue, and at the end `gb_close` leaves none of them allocated. -/
theorem messages_in_order (ops : List MessageOp) :
    ∃ t queue, each MessageOp.exec ops ⟨emptyArena Unit (List UInt8), []⟩ = .ok () t ∧
      Holds t.arena (fun _ => queue) ∧ t.printed ++ queue = ops.filterMap MessageOp.text ∧
      ∃ u, closeMessages t = .ok () u ∧ u.printed = t.printed ∧ u.arena.store.freed.Nodup ∧
        ∀ a, u.arena.store.heap a = none := by
  have hrun : ∀ (ops : List MessageOp) s texts, s.Told texts →
      wp (each MessageOp.exec ops) (fun _ t => t.Told (texts ++ ops.filterMap MessageOp.text)) (fun _ _ => False) s := by
    intro ops
    induction ops with
    | nil =>
      intro s texts hs
      rw [List.filterMap_nil, List.append_nil]
      exact hs
    | cons op ops ih =>
      intro s texts hs
      rw [each_cons, wp_bind]
      apply wp_mono (hs.wp_exec op) _ fun _ _ hf => hf
      intro _ t ht
      have hlast := ih t _ ht
      rw [List.append_assoc] at hlast
      cases hop : op.text <;> simpa [hop] using hlast
  have hempty : Messages.Told ⟨emptyArena Unit (List UInt8), []⟩ [] :=
    ⟨[], emptyArena_holds Unit (List UInt8), rfl⟩
  obtain ⟨v, t, ht, queue, ⟨cells, hqueue⟩, htexts⟩ := exists_of_wp (hrun ops _ _ hempty)
  rw [List.nil_append] at htexts
  refine ⟨t, queue, ht, ⟨cells, hqueue⟩, htexts, ?_⟩
  have hclose : wp closeMessages (fun _ u => Holds u.arena (fun _ => []) ∧ u.printed = t.printed)
      (fun _ _ => False) t := by
    rw [closeMessages, wp_zoom]
    apply wp_mono (hqueue.popAll ()) _ fun _ _ hf => hf
    intro _ arena harena
    rw [update_unit] at harena
    exact ⟨harena, rfl⟩
  obtain ⟨w, u, hu, ⟨l, hl⟩, hprinted⟩ := exists_of_wp hclose
  exact ⟨u, hu, hprinted, hl.once, fun a => hl.heap_empty (fun _ => rfl) a⟩

end GreenBag
