import GreenBag.Session
import GreenBag.Sharing
import Mathlib.Order.Bounds.Defs
import Mathlib.Logic.Relation

/-! The representation of the segment list, under any sequence of the operations that change it. -/

namespace GreenBag

open Programs Relation Function

/-- What a segment can be made of: chunks of the file that do not overlap. -/
structure NewChunks (cs : List Chunk) : Prop where
  nonempty : cs ≠ []
  valid : ∀ c ∈ cs, c.Valid ∧ 0 ≤ c.startByte
  apart : cs.Pairwise fun c d => c.lastByte < d.startByte ∨ d.lastByte < c.startByte

/-- The list is what its counters and pointers say, where `put` are all chunks that were ever put in a
segment. -/
structure OffsetInfo.Represented (o : OffsetInfo) (put : List Chunk) : Prop where
  numSegments_eq : o.numSegments = o.segments.length
  tail_eq : o.tail = o.segments.getLast?.map Segment.id
  increasing : o.segments.Pairwise fun g h => g.id < h.id
  last_id : ∀ g, o.segments.getLast? = some g → g.id = o.segmentCount
  segmentCount_eq : o.segmentCount = o.numSegments + o.completedSegmentCount
  sorted : ∀ g ∈ o.segments, g.chunkList ≠ [] ∧ (∀ c ∈ g.chunkList, c.Valid) ∧ Ascending g.chunkList
  from_put : ∀ g ∈ o.segments, ∀ c ∈ g.chunkList, c ∈ put
  before_put : put = [] → o.lastSegOffset = 0
  greatest : put ≠ [] → IsGreatest {b | ∃ c ∈ put, c.lastByte = b} o.lastSegOffset

/-- The fields that represent the list are the same. -/
structure OffsetInfo.SameList (o o' : OffsetInfo) : Prop where
  segments : o'.segments = o.segments
  tail : o'.tail = o.tail
  numSegments : o'.numSegments = o.numSegments
  segmentCount : o'.segmentCount = o.segmentCount
  completedSegmentCount : o'.completedSegmentCount = o.completedSegmentCount
  lastSegOffset : o'.lastSegOffset = o.lastSegOffset

/-- The operations on the list, and what they put in a segment. -/
inductive ListStep : OffsetInfo × List Chunk → OffsetInfo × List Chunk → Prop
  | addNewSegment {s t : Session} {recoverySegment : Bool} {cs : List Chunk} {size : ℤ} {id : ℕ}
      (put : List Chunk) : NewChunks cs → addNewSegment recoverySegment cs size s = .ok id t →
      ListStep (s.offsetInfo, put) (t.offsetInfo, put ++ cs)
  | deleteFinishedHeadSegment {o o' : OffsetInfo} (put : List Chunk) :
      o.deleteFinishedHeadSegment = some o' → ListStep (o, put) (o', put)
  | deleteSubsegment {s t : Session} {id : ℕ} {i : Link} (put : List Chunk) :
      deleteSubsegment id i s = .ok () t → ListStep (s.offsetInfo, put) (t.offsetInfo, put)
  /-- What `add_new_subsegment` makes of a segment, and `delete_head_chunk` of a subsegment. -/
  | setSubsegments (o : OffsetInfo) (put : List Chunk) (id : ℕ) (f : Segment → Link → Option Subsegment) :
      ListStep (o, put) (o.modifySegment id fun g => { g with subsegment := f g }, put)
  /-- Other fields change. -/
  | keep {o o' : OffsetInfo} (put : List Chunk) : o.SameList o' → ListStep (o, put) (o', put)

abbrev ListRun := ReflTransGen ListStep

section

variable {o o' : OffsetInfo} {put put' cs : List Chunk}

lemma NewChunks.ascending (h : NewChunks cs) : Ascending (sortingChunks cs) := by
  have hperm := sortingChunks_perm cs
  have hapart : (sortingChunks cs).Pairwise fun c d =>
      c.lastByte < d.startByte ∨ d.lastByte < c.startByte :=
    hperm.symm.pairwise h.apart fun hcd => hcd.symm
  refine ((sortingChunks_byStart cs).and hapart).imp_of_mem ?_
  intro c d hc hd hcd
  have hv := (h.valid d (hperm.mem_iff.mp hd)).1
  simp only [Chunk.Valid] at hv
  omega

lemma NewChunks.last_nonneg (h : NewChunks cs) : ∀ c ∈ cs, 0 ≤ c.lastByte := by
  intro c hc
  obtain ⟨hv, h₀⟩ := h.valid c hc
  simp only [Chunk.Valid] at hv
  omega

lemma Ascending.le_last (ha : Ascending cs) (hv : ∀ c ∈ cs, c.Valid) {last : Chunk}
    (hl : cs.getLast? = some last) : ∀ c ∈ cs, c.lastByte ≤ last.lastByte := by
  obtain ⟨pre, rfl⟩ := List.getLast?_eq_some_iff.mp hl
  intro c hc
  rcases List.mem_append.mp hc with hm | hm
  · have hlt := (List.pairwise_append.mp ha).2.2 c hm last List.mem_cons_self
    have hval := hv last (by simp)
    simp only [Chunk.Valid] at hval
    omega
  · rw [List.mem_singleton.mp hm]

namespace OffsetInfo.Represented

lemma linked (h : o.Represented put) : o.Linked := by
  refine ⟨h.increasing, fun g hg => ?_, h.tail_eq, h.numSegments_eq⟩
  obtain ⟨front, last, hs⟩ := (List.eq_nil_or_concat _).resolve_left (List.ne_nil_of_mem hg)
  rw [List.concat_eq_append] at hs
  have hlast := h.last_id last (by simp [hs])
  have hinc := h.increasing
  rw [hs] at hinc hg
  rcases List.mem_append.mp hg with hm | hm
  · have hlt := (List.pairwise_append.mp hinc).2.2 g hm last List.mem_cons_self
    omega
  · rw [List.mem_singleton.mp hm]
    omega

lemma empty : emptyOffsetInfo.Represented [] where
  numSegments_eq := rfl
  tail_eq := rfl
  increasing := List.Pairwise.nil
  last_id := by simp [emptyOffsetInfo]
  segmentCount_eq := rfl
  sorted := by simp [emptyOffsetInfo]
  from_put := by simp [emptyOffsetInfo]
  before_put := fun _ => rfl
  greatest := fun hn => absurd rfl hn

lemma keep (h : o.Represented put) (hs : o.SameList o') : o'.Represented put := by
  refine ⟨?_, ?_, ?_, ?_, ?_, ?_, ?_, ?_, ?_⟩
  · rw [hs.numSegments, hs.segments, h.numSegments_eq]
  · rw [hs.tail, hs.segments, h.tail_eq]
  · rw [hs.segments]
    exact h.increasing
  · rw [hs.segments, hs.segmentCount]
    exact h.last_id
  · rw [hs.segmentCount, hs.numSegments, hs.completedSegmentCount, h.segmentCount_eq]
  · rw [hs.segments]
    exact h.sorted
  · rw [hs.segments]
    exact h.from_put
  · rw [hs.lastSegOffset]
    exact h.before_put
  · rw [hs.lastSegOffset]
    exact h.greatest

lemma setSubsegments (h : o.Represented put) (id : ℕ) (f : Segment → Link → Option Subsegment) :
    (o.modifySegment id fun g => { g with subsegment := f g }).Represented put := by
  have hl := h.linked.modifySegment id (f := fun g => { g with subsegment := f g }) fun _ => rfl
  have hpast : ∀ g ∈ (o.modifySegment id fun g => { g with subsegment := f g }).segments,
      ∃ g' ∈ o.segments, g.id = g'.id ∧ g.chunkList = g'.chunkList := by
    intro g hg
    obtain ⟨g', hg', rfl⟩ := List.mem_map.mp hg
    refine ⟨g', hg', ?_⟩
    split_ifs <;> exact ⟨rfl, rfl⟩
  refine ⟨hl.numSegments_eq, hl.tail_eq, hl.increasing, fun g hg => ?_, h.segmentCount_eq,
    fun g hg => ?_, fun g hg => ?_, h.before_put, h.greatest⟩
  · have ht : o.tail = some g.id := by
      rw [show o.tail = _ from hl.tail_eq, hg]
      rfl
    rw [h.tail_eq] at ht
    obtain ⟨g', hlast, he⟩ := Option.map_eq_some_iff.mp ht
    rw [← he]
    exact h.last_id g' hlast
  · obtain ⟨g', hg', -, hc⟩ := hpast g hg
    rw [hc]
    exact h.sorted g' hg'
  · obtain ⟨g', hg', -, hc⟩ := hpast g hg
    rw [hc]
    exact h.from_put g' hg'

lemma deleteFinishedHeadSegment (h : o.Represented put) (hd : o.deleteFinishedHeadSegment = some o') :
    o'.Represented put ∧ o'.lastSegOffset = o.lastSegOffset := by
  have hl := h.linked.deleteFinishedHeadSegment hd
  obtain ⟨head, rest, hs, -, rfl⟩ := deleteFinishedHeadSegment_some.mp hd
  have hmem : ∀ g ∈ rest, g ∈ o.segments := fun g hg => hs ▸ List.mem_cons_of_mem _ hg
  refine ⟨⟨hl.numSegments_eq, hl.tail_eq, hl.increasing, fun g hg => ?_, ?_,
    fun g hg => h.sorted g (hmem g hg), fun g hg => h.from_put g (hmem g hg), h.before_put, h.greatest⟩,
    rfl⟩
  · apply h.last_id
    rw [hs]
    exact List.getLast?_cons_of_ne_nil (List.ne_nil_of_mem (List.mem_of_getLast? hg)) |>.trans hg
  · have hc := h.segmentCount_eq
    have hn := h.numSegments_eq
    rw [hs, List.length_cons] at hn
    show o.segmentCount = o.numSegments - 1 + (o.completedSegmentCount + 1)
    omega

lemma push (h : o.Represented put) (hcs : NewChunks cs) (recovery : Bool) (size : ℤ) {last : Chunk}
    (hlast : (sortingChunks cs).getLast? = some last) :
    (o.push (bareSegment (o.segmentCount + 1) recovery (sortingChunks cs) size)
      last.lastByte).Represented (put ++ cs) ∧
      o.lastSegOffset ≤ (o.push (bareSegment (o.segmentCount + 1) recovery (sortingChunks cs) size)
        last.lastByte).lastSegOffset := by
  have hperm := sortingChunks_perm cs
  have hmem : ∀ c, c ∈ sortingChunks cs ↔ c ∈ cs := fun c => hperm.mem_iff
  have hv : ∀ c ∈ sortingChunks cs, c.Valid := fun c hc => (hcs.valid c ((hmem c).mp hc)).1
  have hle := hcs.ascending.le_last hv hlast
  have hin : last ∈ cs := (hmem last).mp (List.mem_of_getLast? hlast)
  have h₀ := hcs.last_nonneg last hin
  generalize hg : bareSegment (o.segmentCount + 1) recovery (sortingChunks cs) size = g
  have hid : g.id = o.segmentCount + 1 := hg ▸ rfl
  have hchunks : g.chunkList = sortingChunks cs := hg ▸ rfl
  have hl := h.linked.push hid last.lastByte
  refine ⟨⟨hl.numSegments_eq, hl.tail_eq, hl.increasing, ?_, ?_, ?_, ?_, ?_, fun _ => ?_⟩, ?_⟩
  · simp [OffsetInfo.push, hid]
  · simp only [OffsetInfo.push, h.segmentCount_eq]
    omega
  · intro k hk
    rcases List.mem_append.mp hk with hk | hk
    · exact h.sorted k hk
    · rw [List.mem_singleton.mp hk, hchunks]
      exact ⟨List.ne_nil_of_mem (List.mem_of_getLast? hlast), hv, hcs.ascending⟩
  · intro k hk c hc
    rcases List.mem_append.mp hk with hk | hk
    · exact List.mem_append_left _ (h.from_put k hk c hc)
    · rw [List.mem_singleton.mp hk, hchunks] at hc
      exact List.mem_append_right _ ((hmem c).mp hc)
  · exact fun hn => absurd (List.append_eq_nil_iff.mp hn).2 hcs.nonempty
  · have hold : ∀ c ∈ put, c.lastByte ≤ o.lastSegOffset := fun c hc =>
      (h.greatest (List.ne_nil_of_mem hc)).2 ⟨c, hc, rfl⟩
    simp only [OffsetInfo.push]
    constructor
    · split_ifs with hlt
      · exact ⟨last, List.mem_append_right _ hin, rfl⟩
      · have hne : put ≠ [] ∨ last.lastByte = o.lastSegOffset := by
          by_cases hn : put = []
          · have hz := h.before_put hn
            exact .inr (by omega)
          · exact .inl hn
        rcases hne with hne | he
        · obtain ⟨c, hc, hb⟩ := (h.greatest hne).1
          exact ⟨c, List.mem_append_left _ hc, hb⟩
        · exact ⟨last, List.mem_append_right _ hin, he⟩
    · rintro b ⟨c, hc, rfl⟩
      rcases List.mem_append.mp hc with hc | hc
      · have := hold c hc
        split_ifs <;> omega
      · have := hle c ((hmem c).mpr hc)
        split_ifs <;> omega
  · simp only [OffsetInfo.push]
    split_ifs <;> omega

end OffsetInfo.Represented

/-- Each operation keeps the representation, and none lowers the offset. -/
lemma OffsetInfo.Represented.step (h : o.Represented put) (hs : ListStep (o, put) (o', put')) :
    o'.Represented put' ∧ o.lastSegOffset ≤ o'.lastSegOffset := by
  generalize ha : (o, put) = a, hb : (o', put') = b at hs
  cases hs with
  | @addNewSegment s t recovery cs size id _ hcs hrun =>
    cases ha
    cases hb
    have hw : wp (addNewSegment recovery cs size) (fun _ t => t.offsetInfo.Represented (put ++ cs) ∧
        s.offsetInfo.lastSegOffset ≤ t.offsetInfo.lastSegOffset) (fun _ _ => True) s :=
      wp_addNewSegment h.linked (fun _ => trivial) fun last hlast => h.push hcs recovery size hlast
    exact ((wp_iff _).mp hw).1 id t hrun
  | deleteFinishedHeadSegment _ hd =>
    cases ha
    cases hb
    obtain ⟨hr, he⟩ := h.deleteFinishedHeadSegment hd
    exact ⟨hr, he.ge⟩
  | @deleteSubsegment s t id i _ hrun =>
    cases ha
    cases hb
    have hw : wp (GreenBag.deleteSubsegment id i) (fun _ t => t.offsetInfo.Represented put ∧
        s.offsetInfo.lastSegOffset ≤ t.offsetInfo.lastSegOffset) (fun _ _ => True) s := by
      simp only [GreenBag.deleteSubsegment, wp_bind, wp_follow, wp_demand, wp_modifyOffsetInfo]
      exact ⟨fun _ _ => ⟨fun _ _ => ⟨fun _ _ => ⟨h.setSubsegments id fun g => update g.subsegment i none,
        le_rfl⟩, fun _ => trivial⟩, fun _ => trivial⟩, fun _ => trivial⟩
    exact ((wp_iff _).mp hw).1 () t hrun
  | setSubsegments _ _ id f =>
    cases ha
    cases hb
    exact ⟨h.setSubsegments id f, le_rfl⟩
  | keep _ hk =>
    cases ha
    cases hb
    exact ⟨h.keep hk, hk.lastSegOffset.ge⟩

lemma OffsetInfo.Represented.run {a b : OffsetInfo × List Chunk} (h : a.1.Represented a.2)
    (hs : ListRun a b) : b.1.Represented b.2 ∧ a.1.lastSegOffset ≤ b.1.lastSegOffset := by
  induction hs with
  | refl => exact ⟨h, le_rfl⟩
  | tail _ hstep ih =>
    obtain ⟨hr, hle⟩ := ih.1.step hstep
    exact ⟨hr, ih.2.trans hle⟩

end

end GreenBag
