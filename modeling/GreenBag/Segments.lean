import GreenBag.Offset

/-! The segment list seen from one connection: its subsegments in list order. -/

namespace GreenBag

open Ranges

def Segment.Finished (g : Segment) : Prop := ∀ i, g.subsegment i = none

/-- The subsegments of a connection, in list order. -/
def parts (i : Link) (gs : List Segment) : List Subsegment := gs.filterMap (·.subsegment i)

def firstWith (i : Link) (gs : List Segment) : Option ℕ :=
  (gs.find? (fun g => (g.subsegment i).isSome)).map Segment.id

@[simp] lemma parts_nil (i : Link) : parts i [] = [] := rfl

@[simp] lemma parts_append (i : Link) (gs hs : List Segment) :
    parts i (gs ++ hs) = parts i gs ++ parts i hs := by
  simp [parts]

lemma parts_cons (i : Link) (g : Segment) (gs : List Segment) :
    parts i (g :: gs) = (g.subsegment i).toList ++ parts i gs := by
  cases h : g.subsegment i <;> simp [parts, h]

lemma parts_eq_nil {i : Link} {gs : List Segment} :
    parts i gs = [] ↔ ∀ g ∈ gs, g.subsegment i = none := by
  simp [parts, List.filterMap_eq_nil_iff]

lemma chunks_eq_parts (i : Link) (gs : List Segment) :
    gs.flatMap (Segment.chunks i) = (parts i gs).flatMap Subsegment.chunkList := by
  induction gs with
  | nil => rfl
  | cons g gs ih =>
    rw [List.flatMap_cons, ih, parts_cons, List.flatMap_append, Segment.chunks]
    cases g.subsegment i <;> simp

lemma firstWith_eq_none {i : Link} {gs : List Segment} : firstWith i gs = none ↔ parts i gs = [] := by
  simp [firstWith, parts_eq_nil, List.find?_eq_none]

lemma firstWith_split {i : Link} {pre post : List Segment} {g : Segment} {p : Subsegment}
    (hpre : parts i pre = []) (hg : g.subsegment i = some p) :
    firstWith i (pre ++ g :: post) = some g.id := by
  have hf : pre.find? (fun g => (g.subsegment i).isSome) = none := by
    simpa [List.find?_eq_none] using parts_eq_nil.mp hpre
  simp [firstWith, List.find?_append, hf, hg]

lemma firstWith_append {i : Link} {gs : List Segment} (h : parts i gs ≠ []) (hs : List Segment) :
    firstWith i (gs ++ hs) = firstWith i gs := by
  cases hf : gs.find? (fun g => (g.subsegment i).isSome) with
  | none =>
    exact absurd (firstWith_eq_none.mp (by rw [firstWith, hf]; rfl)) h
  | some g => simp [firstWith, List.find?_append, hf]

lemma firstWith_append_nil {i : Link} {gs : List Segment} (h : parts i gs = []) (hs : List Segment) :
    firstWith i (gs ++ hs) = firstWith i hs := by
  have hf : gs.find? (fun g => (g.subsegment i).isSome) = none := by
    simpa [List.find?_eq_none] using parts_eq_nil.mp h
  simp [firstWith, List.find?_append, hf]

/-- The first segment with a subsegment of the connection, and what stands around it. -/
lemma exists_split {i : Link} {gs : List Segment} {p : Subsegment} {ps : List Subsegment}
    (h : parts i gs = p :: ps) :
    ∃ pre g post, gs = pre ++ g :: post ∧ parts i pre = [] ∧ g.subsegment i = some p ∧
      parts i post = ps := by
  induction gs with
  | nil => simp at h
  | cons g gs ih =>
    rw [parts_cons] at h
    cases hg : g.subsegment i with
    | none =>
      rw [hg] at h
      obtain ⟨pre, g', post, rfl, hpre, hp, hpost⟩ := ih h
      exact ⟨g :: pre, g', post, rfl, by rw [parts_cons, hg, hpre]; rfl, hp, hpost⟩
    | some q =>
      rw [hg] at h
      obtain ⟨rfl, rfl⟩ := List.cons.inj h
      exact ⟨[], g, gs, rfl, rfl, hg, rfl⟩

/-- The counters and the two ends of the list are right, and the ids increase along it. -/
structure OffsetInfo.Linked (o : OffsetInfo) : Prop where
  increasing : o.segments.Pairwise (fun g h => g.id < h.id)
  counted : ∀ g ∈ o.segments, g.id ≤ o.segmentCount
  tail_eq : o.tail = o.segments.getLast?.map Segment.id
  numSegments_eq : o.numSegments = o.segments.length

section Linked

variable {o : OffsetInfo} {pre post : List Segment} {g : Segment}

lemma OffsetInfo.Linked.pre_lt (h : o.Linked) (hs : o.segments = pre ++ g :: post) :
    ∀ k ∈ pre, k.id < g.id := by
  have hp := h.increasing
  rw [hs] at hp
  exact fun k hk => (List.pairwise_append.mp hp).2.2 k hk g List.mem_cons_self

lemma OffsetInfo.Linked.lt_post (h : o.Linked) (hs : o.segments = pre ++ g :: post) :
    ∀ k ∈ post, g.id < k.id := by
  have hp := h.increasing
  rw [hs] at hp
  exact (List.pairwise_cons.mp (List.pairwise_append.mp hp).2.1).1

lemma OffsetInfo.Linked.deref_eq (h : o.Linked) (hs : o.segments = pre ++ g :: post) :
    o.deref g.id = some g := by
  have hn : pre.find? (fun k => k.id = g.id) = none := by
    rw [List.find?_eq_none]
    intro k hk
    have := h.pre_lt hs k hk
    simp only [decide_eq_true_eq]
    omega
  rw [OffsetInfo.deref, hs, List.find?_append, hn]
  simp

lemma OffsetInfo.Linked.behind_eq (h : o.Linked) (hs : o.segments = pre ++ g :: post) :
    o.behind g.id = post := by
  have hd : ∀ k ∈ pre, decide (k.id ≠ g.id) = true := fun k hk => by
    simpa using (h.pre_lt hs k hk).ne
  rw [OffsetInfo.behind, hs, List.dropWhile_append_of_pos hd]
  simp

lemma OffsetInfo.Linked.modifySegment_eq (h : o.Linked) (hs : o.segments = pre ++ g :: post)
    (f : Segment → Segment) : (o.modifySegment g.id f).segments = pre ++ f g :: post := by
  have h₁ : pre.map (fun k => if k.id = g.id then f k else k) = pre :=
    (List.map_congr_left (fun k hk => if_neg (h.pre_lt hs k hk).ne)).trans (List.map_id' pre)
  have h₂ : post.map (fun k => if k.id = g.id then f k else k) = post :=
    (List.map_congr_left (fun k hk => if_neg (h.lt_post hs k hk).ne')).trans (List.map_id' post)
  rw [OffsetInfo.modifySegment, hs]
  simp only [List.map_append, List.map_cons, if_true, h₁, h₂]

lemma exists_of_deref {id : ℕ} (h : o.deref id = some g) :
    ∃ pre post, o.segments = pre ++ g :: post ∧ g.id = id := by
  obtain ⟨hg, pre, post, hs, _⟩ := List.find?_eq_some_iff_append.mp h
  exact ⟨pre, post, hs, by simpa using hg⟩

lemma OffsetInfo.Linked.modifySegment (h : o.Linked) (id : ℕ) {f : Segment → Segment}
    (hf : ∀ g, (f g).id = g.id) : (o.modifySegment id f).Linked := by
  have hid : ∀ k : Segment, (if k.id = id then f k else k).id = k.id := by
    intro k
    split_ifs
    · exact hf k
    · rfl
  refine ⟨?_, ?_, ?_, ?_⟩
  · simp only [OffsetInfo.modifySegment, List.pairwise_map, hid]
    exact h.increasing
  · simp only [OffsetInfo.modifySegment, List.mem_map, forall_exists_index, and_imp,
      forall_apply_eq_imp_iff₂, hid]
    exact h.counted
  · simp only [OffsetInfo.modifySegment, h.tail_eq, List.getLast?_map, Option.map_map]
    congr 1
    funext k
    exact (hid k).symm
  · simp only [OffsetInfo.modifySegment, List.length_map]
    exact h.numSegments_eq

lemma OffsetInfo.Linked.through_tail (h : o.Linked) {id : ℕ} (ht : o.tail = some id) :
    o.through id = o.segments := by
  rw [h.tail_eq] at ht
  obtain ⟨g, hg, rfl⟩ := Option.map_eq_some_iff.mp ht
  obtain ⟨pre, hs⟩ := List.getLast?_eq_some_iff.mp hg
  have hk : ∀ k ∈ pre, decide (k.id ≠ g.id) = true := fun k hk => by
    simpa using (h.pre_lt hs k hk).ne
  rw [OffsetInfo.through, h.deref_eq hs, hs, List.takeWhile_append_of_pos hk]
  simp

lemma deleteFinishedHeadSegment_some {o' : OffsetInfo} :
    o.deleteFinishedHeadSegment = some o' ↔
      ∃ head rest, o.segments = head :: rest ∧ head.Finished ∧ o' = { o with
        segments := rest
        tail := if rest = [] then none else o.tail
        numSegments := o.numSegments - 1
        completedSegmentCount := o.completedSegmentCount + 1 } := by
  have hf : ∀ k : Segment, k.Finished ↔ k.subsegment .lte = none ∧ k.subsegment .wifi = none :=
    fun k => ⟨fun h => ⟨h _, h _⟩, fun h i => by cases i <;> simp [h]⟩
  unfold OffsetInfo.deleteFinishedHeadSegment
  cases hs : o.segments with
  | nil => simp
  | cons head rest =>
    by_cases hh : head.Finished
    · simp only [if_pos ((hf head).mp hh), Option.some.injEq]
      constructor
      · rintro rfl
        exact ⟨head, rest, rfl, hh, rfl⟩
      · rintro ⟨k, ks, he, -, rfl⟩
        obtain ⟨rfl, rfl⟩ := List.cons.inj he
        rfl
    · simp only [if_neg (fun h => hh ((hf head).mpr h)), reduceCtorEq, false_iff]
      rintro ⟨k, ks, he, hk, -⟩
      obtain ⟨rfl, rfl⟩ := List.cons.inj he
      exact hh hk

lemma parts_deleteFinishedHeadSegment {o' : OffsetInfo} (h : o.deleteFinishedHeadSegment = some o')
    (i : Link) : parts i o'.segments = parts i o.segments ∧
      firstWith i o'.segments = firstWith i o.segments := by
  obtain ⟨head, rest, hs, hf, rfl⟩ := deleteFinishedHeadSegment_some.mp h
  rw [hs, parts_cons, hf i]
  exact ⟨rfl, by simp [firstWith, hf i]⟩

lemma OffsetInfo.Linked.deleteFinishedHeadSegment {o' : OffsetInfo} (hl : o.Linked)
    (h : o.deleteFinishedHeadSegment = some o') : o'.Linked := by
  obtain ⟨head, rest, hs, hf, rfl⟩ := deleteFinishedHeadSegment_some.mp h
  obtain ⟨h₁, h₂, h₃, h₄⟩ := hl
  rw [hs] at h₁ h₂ h₃ h₄
  refine ⟨(List.pairwise_cons.mp h₁).2, fun k hk => h₂ k (List.mem_cons_of_mem _ hk), ?_, ?_⟩
  · cases rest with
    | nil => simp
    | cons k ks => simpa using h₃
  · simp only [h₄, List.length_cons, Nat.add_sub_cancel]

/-- The list may have lost parts of one connection and finished heads, but nothing else. -/
structure OffsetInfo.Besides (i : Link) (o o' : OffsetInfo) : Prop where
  linked : o'.Linked
  kept : ∃ gone, o.segments.map (·.setSubsegment i none) =
    gone ++ o'.segments.map (·.setSubsegment i none) ∧ ∀ g ∈ gone, g.Finished
  connection : ∀ j, j ≠ i → o'.connection j = o.connection j
  initSegSize : o'.initSegSize = o.initSegSize
  lastSegOffset : o'.lastSegOffset = o.lastSegOffset
  remaining : o'.remainingChunks = o.remainingChunks

/-- Clearing the parts of one connection leaves those of the other one. -/
lemma parts_clear {i j : Link} (hj : j ≠ i) (gs : List Segment) :
    parts j (gs.map (·.setSubsegment i none)) = parts j gs ∧
      firstWith j (gs.map (·.setSubsegment i none)) = firstWith j gs := by
  have hsub : ∀ g : Segment, (g.setSubsegment i none).subsegment j = g.subsegment j :=
    fun g => Function.update_of_ne hj ..
  constructor
  · simp [parts, List.filterMap_map, hsub]
  · simp only [firstWith, List.find?_map, Function.comp_def, hsub, Option.map_map]
    rfl

lemma parts_finished {gone : List Segment} (h : ∀ g ∈ gone, g.Finished) (j : Link) :
    parts j gone = [] :=
  parts_eq_nil.mpr fun g hg => h g hg j

namespace OffsetInfo

variable {i : Link} {o' o'' : OffsetInfo}

lemma Besides.others (h : Besides i o o') (j : Link) (hj : j ≠ i) :
    parts j o'.segments = parts j o.segments ∧ firstWith j o'.segments = firstWith j o.segments := by
  obtain ⟨gone, hg, hf⟩ := h.kept
  have hnil := parts_finished hf j
  rw [← (parts_clear hj o.segments).1, ← (parts_clear hj o.segments).2, hg, parts_append, hnil,
    firstWith_append_nil hnil]
  exact ⟨(parts_clear hj o'.segments).1.symm, (parts_clear hj o'.segments).2.symm⟩

lemma Besides.refl (h : o.Linked) : Besides i o o :=
  ⟨h, ⟨[], rfl, by simp⟩, fun _ _ => rfl, rfl, rfl, rfl⟩

lemma Besides.trans (h : Besides i o o') (h' : Besides i o' o'') : Besides i o o'' := by
  obtain ⟨gone, hg, hf⟩ := h.kept
  obtain ⟨gone', hg', hf'⟩ := h'.kept
  refine ⟨h'.linked, ⟨gone ++ gone', by rw [hg, hg', List.append_assoc], fun g hm => ?_⟩,
    fun j hj => (h'.connection j hj).trans (h.connection j hj), h'.initSegSize.trans h.initSegSize,
    h'.lastSegOffset.trans h.lastSegOffset, h'.remaining.trans h.remaining⟩
  rcases List.mem_append.mp hm with hm | hm
  · exact hf g hm
  · exact hf' g hm

lemma Besides.point (h : o.Linked) (pointer : Option ℕ) :
    Besides i o { o with connection := Function.update o.connection i pointer } :=
  ⟨⟨h.1, h.2, h.3, h.4⟩, ⟨[], rfl, by simp⟩, fun _ hj => Function.update_of_ne hj .., rfl, rfl, rfl⟩

/-- Deleting a finished head, or nothing where the head is not finished. -/
lemma Linked.trim (h : o.Linked) (i : Link) :
    Besides i o (o.deleteFinishedHeadSegment.getD o) ∧
      ∀ j, parts j (o.deleteFinishedHeadSegment.getD o).segments = parts j o.segments ∧
        firstWith j (o.deleteFinishedHeadSegment.getD o).segments = firstWith j o.segments := by
  cases hd : o.deleteFinishedHeadSegment with
  | none => exact ⟨.refl h, fun _ => ⟨rfl, rfl⟩⟩
  | some o' =>
    have hp := parts_deleteFinishedHeadSegment hd
    obtain ⟨head, rest, hs, hf, he⟩ := deleteFinishedHeadSegment_some.mp hd
    have hfin : (head.setSubsegment i none).Finished := by
      intro j
      obtain rfl | rfl := i.eq_or_other j
      · exact Function.update_self ..
      · exact (Function.update_of_ne i.other_ne ..).trans (hf _)
    refine ⟨⟨h.deleteFinishedHeadSegment hd, ⟨[head.setSubsegment i none], ?_, by simpa using hfin⟩,
      fun j _ => ?_, ?_, ?_, ?_⟩, hp⟩
    · rw [hs, Option.getD_some, he]
      rfl
    all_goals rw [Option.getD_some, he]

lemma Linked.trims (h : o.Linked) (n : ℕ) (i : Link) :
    Besides i o (o.deleteFinishedHeadSegments n) ∧
      ∀ j, parts j (o.deleteFinishedHeadSegments n).segments = parts j o.segments ∧
        firstWith j (o.deleteFinishedHeadSegments n).segments = firstWith j o.segments := by
  induction n generalizing o with
  | zero => exact ⟨.refl h, fun _ => ⟨rfl, rfl⟩⟩
  | succ n ih =>
    rw [deleteFinishedHeadSegments]
    obtain ⟨hb, hp⟩ := h.trim i
    cases hd : o.deleteFinishedHeadSegment with
    | none => exact ⟨.refl h, fun _ => ⟨rfl, rfl⟩⟩
    | some o' =>
      rw [hd, Option.getD_some] at hb hp
      obtain ⟨hb', hp'⟩ := ih hb.linked
      exact ⟨hb.trans hb', fun j => ⟨(hp' j).1.trans (hp j).1, (hp' j).2.trans (hp j).2⟩⟩

lemma Linked.set (h : o.Linked) (hs : o.segments = pre ++ g :: post) (p : Option Subsegment) :
    Besides i o (o.modifySegment g.id (·.setSubsegment i p)) ∧
      (o.modifySegment g.id (·.setSubsegment i p)).segments =
        pre ++ g.setSubsegment i p :: post := by
  have hm : (o.modifySegment g.id (·.setSubsegment i p)).segments =
      pre ++ g.setSubsegment i p :: post := h.modifySegment_eq hs _
  refine ⟨⟨h.modifySegment g.id fun _ => rfl, ⟨[], ?_, by simp⟩, fun _ _ => rfl, rfl, rfl, rfl⟩, hm⟩
  have hsub : (g.setSubsegment i p).setSubsegment i none = g.setSubsegment i none := by
    simp [Segment.setSubsegment]
  rw [hm, hs, List.nil_append, List.map_append, List.map_append, List.map_cons, List.map_cons, hsub]

lemma Linked.clear (h : o.Linked) (hs : o.segments = pre ++ g :: post) (hpre : parts i pre = []) :
    Besides i o (o.modifySegment g.id (·.setSubsegment i none)) ∧
      parts i (o.modifySegment g.id (·.setSubsegment i none)).segments = parts i post ∧
      firstWith i (o.modifySegment g.id (·.setSubsegment i none)).segments = firstWith i post ∧
      firstWith i ((o.modifySegment g.id (·.setSubsegment i none)).behind g.id) =
        firstWith i post := by
  obtain ⟨hb, hm⟩ := h.set (i := i) hs none
  have hi : (g.setSubsegment i none).subsegment i = none := Function.update_self ..
  have hpi : parts i (pre ++ [g.setSubsegment i none]) = [] := by
    rw [parts_append, hpre, parts_cons, hi]
    rfl
  refine ⟨hb, ?_, ?_, ?_⟩
  · rw [hm, parts_append, parts_cons, hpre, hi]
    rfl
  · rw [hm, List.append_cons, firstWith_append_nil hpi]
  · exact congrArg (firstWith i) (hb.linked.behind_eq (g := g.setSubsegment i none) hm)

lemma modifySegment_twice (o : OffsetInfo) (id : ℕ) (i : Link) (p p' : Option Subsegment) :
    (o.modifySegment id (·.setSubsegment i p)).modifySegment id (·.setSubsegment i p') =
      o.modifySegment id (·.setSubsegment i p') := by
  simp only [OffsetInfo.modifySegment, List.map_map]
  congr 1
  refine List.map_congr_left fun g _ => ?_
  by_cases hg : g.id = id <;> simp [hg, Segment.setSubsegment]

end OffsetInfo

end Linked

end GreenBag
