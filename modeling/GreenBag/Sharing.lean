import GreenBag.Quiet

/-! Adding a segment to the list and dealing its chunks out. -/

namespace GreenBag

open Programs Ranges Words Schedules

/-- The list with a new segment at its end. -/
def OffsetInfo.push (o : OffsetInfo) (g : Segment) (last : ℤ) : OffsetInfo := { o with
  segments := o.segments ++ [g]
  numSegments := o.numSegments + 1
  segmentCount := o.segmentCount + 1
  tail := some g.id
  lastSegOffset := if o.lastSegOffset < last then last else o.lastSegOffset }

lemma OffsetInfo.Linked.push {o : OffsetInfo} (h : o.Linked) {g : Segment}
    (hg : g.id = o.segmentCount + 1) (last : ℤ) : (o.push g last).Linked := by
  refine ⟨?_, ?_, ?_, ?_⟩
  · refine List.pairwise_append.mpr ⟨h.increasing, List.pairwise_singleton _ _, fun k hk m hm => ?_⟩
    have := h.counted k hk
    rw [List.mem_singleton.mp hm]
    omega
  · intro k hk
    rcases List.mem_append.mp hk with hk | hk
    · have := h.counted k hk
      simp only [OffsetInfo.push]
      omega
    · rw [List.mem_singleton.mp hk, hg]
      rfl
  · simp [OffsetInfo.push]
  · simp [OffsetInfo.push, h.numSegments_eq]

/-- A segment none of whose chunks have been dealt out. -/
def bareSegment (id : ℕ) (recoverySegment : Bool) (chunkList : List Chunk) (size : ℤ) : Segment :=
  ⟨id, recoverySegment, chunkList, size, fun _ => none⟩

lemma wp_addNewSegment {s : Session} {recoverySegment : Bool} {chunkList : List Chunk} {size : ℤ}
    {crash : Fault → Session → Prop} {post : ℕ → Session → Prop} (h : s.offsetInfo.Linked)
    (hs : chunkList = [] → crash .nullPointer s)
    (hp : ∀ last, (sortingChunks chunkList).getLast? = some last →
      post (s.offsetInfo.segmentCount + 1) { s with
        offsetInfo := s.offsetInfo.push
          (bareSegment (s.offsetInfo.segmentCount + 1) recoverySegment (sortingChunks chunkList) size)
          last.lastByte }) :
    wp (addNewSegment recoverySegment chunkList size) post crash s := by
  have hbefore : ∀ {f : List Segment → Program ℕ},
      wp (f s.offsetInfo.segments) post crash s →
      wp ((if s.offsetInfo.numSegments = 0 then pure [] else do
        let tail ← follow s.offsetInfo.tail
        pure (s.offsetInfo.through tail.id)) >>= f) post crash s := by
    intro f hf
    simp only [wp_bind, wp_ite, wp_pure]
    refine ⟨fun h₀ => ?_, fun h₀ => ?_⟩
    · rw [h.numSegments_eq] at h₀
      rwa [List.length_eq_zero_iff.mp h₀] at hf
    · rw [h.numSegments_eq, List.length_eq_zero_iff] at h₀
      obtain ⟨front, g, hg⟩ := (List.eq_nil_or_concat _).resolve_left h₀
      rw [List.concat_eq_append] at hg
      have htail : s.offsetInfo.tail = some g.id := by
        rw [h.tail_eq, hg]
        simp
      simp only [wp_follow, htail, Option.some.injEq, forall_eq', h.deref_eq hg, reduceCtorEq,
        false_implies, and_true, h.through_tail htail]
      exact hf
  simp only [addNewSegment]
  rw [wp_bind, wp_get]
  refine hbefore ?_
  simp only [wp_bind, wp_demand, wp_modifyOffsetInfo, wp_pure]
  refine ⟨fun last hl => hp last hl, fun hn => hs ?_⟩
  have hperm := sortingChunks_perm chunkList
  rw [List.getLast?_eq_none_iff.mp hn] at hperm
  exact List.nil_perm.mp hperm

/-- Each part has chunks, all pieces of those of the segment and in order, and together the parts
cover the segment. -/
structure Dealt (cs : List Chunk) (share : Link → Option Subsegment) : Prop where
  pieces : ∀ i p, share i = some p → p.chunkList ≠ [] ∧ (∀ c ∈ p.chunkList, PieceOf cs c) ∧
    Ascending p.chunkList ∧ p.size = sizeSum p.chunkList
  cover : ∀ b, ∑ i, Ranges.cover (((share i).elim [] Subsegment.chunkList).map Chunk.range) b =
    Ranges.cover (cs.map Chunk.range) b

lemma eq_nil_of_sizeSum {cs : List Chunk} (hv : ∀ c ∈ cs, c.Valid) (h : sizeSum cs = 0) : cs = [] := by
  by_contra hn
  have := sizeSum_pos hv hn
  omega

/-- The subsegments of a segment whose chunks are split. -/
def dealtShare (fast : Link) (size : Link → ℤ) (fastList slowList : List Chunk) (i : Link) :
    Option Subsegment :=
  if size i = 0 then none else some ⟨if i = fast then fastList else slowList, size i⟩

lemma SplitAt.dealt {cs fastList slowList : List Chunk} {size : Link → ℤ} (fast : Link)
    (h : SplitAt (size fast) cs fastList slowList)
    (hs : size fast + size fast.other = sizeSum cs) :
    Dealt cs (dealtShare fast size fastList slowList) := by
  have hlist : ∀ i, sizeSum (if i = fast then fastList else slowList) = size i := by
    intro i
    by_cases hi : i = fast
    · rw [if_pos hi, hi, h.fast_size]
    · have : i = fast.other := by cases i <;> cases fast <;> simp_all [Link.other]
      rw [if_neg hi, h.slow_size, this]
      omega
  have hmem : ∀ i, ∀ c ∈ (if i = fast then fastList else slowList), PieceOf cs c := by
    intro i c hc
    refine h.pieces c (List.mem_append.mpr ?_)
    split_ifs at hc
    · exact .inl hc
    · exact .inr hc
  refine ⟨fun i p hp => ?_, fun b => ?_⟩
  · simp only [dealtShare] at hp
    split_ifs at hp with _ hf
    · obtain rfl := Option.some.inj hp
      refine ⟨?_, fun c hc => hmem i c (by rwa [if_pos hf]), ?_, by
        rw [← hlist i, if_pos hf]⟩
      · rintro rfl
        have := hlist i
        rw [if_pos hf, sizeSum_nil] at this
        omega
      · exact (List.pairwise_append.mp h.ascending).1
    · obtain rfl := Option.some.inj hp
      refine ⟨?_, fun c hc => hmem i c (by rwa [if_neg hf]), ?_, by
        rw [← hlist i, if_neg hf]⟩
      · rintro rfl
        have := hlist i
        rw [if_neg hf, sizeSum_nil] at this
        omega
      · exact (List.pairwise_append.mp h.ascending).2.1
  · have helim : ∀ i, (dealtShare fast size fastList slowList i).elim [] Subsegment.chunkList =
        if i = fast then fastList else slowList := by
      intro i
      rw [dealtShare]
      by_cases hi : size i = 0
      · rw [if_pos hi]
        exact (eq_nil_of_sizeSum (fun c hc => (hmem i c hc).1) ((hlist i).trans hi)).symm
      · rw [if_neg hi]
        rfl
    have hc := h.cover b
    simp only [List.map_append, cover_append] at hc
    simp only [helim, sum_link]
    cases fast <;> simp only [reduceCtorEq, if_true, if_false] <;> omega

lemma Gb.Weighed.sizeBeforeTail_nonneg {s : Gb} (h : s.Weighed) (id : ℕ) (i : Link) :
    0 ≤ s.offsetInfo.sizeBeforeTail id i := by
  refine List.sum_nonneg fun n hn => ?_
  obtain ⟨g, hg, rfl⟩ := List.mem_map.mp hn
  have hb : g ∈ s.offsetInfo.behind id := (List.takeWhile_sublist _).mem hg
  have hm : g ∈ s.offsetInfo.segments := (List.dropWhile_sublist _).mem (List.mem_of_mem_tail hb)
  cases hp : g.subsegment i with
  | none => simp
  | some p => exact (h i).2 p (List.mem_filterMap.mpr ⟨g, hm, hp⟩)

section

variable {s : Session}

/-- The pointers and indices the function looks at are fine, or a crash is allowed for them. -/
structure Safe (crash : Fault → Session → Prop) (s : Session) : Prop where
  dangling : ∀ j id, s.offsetInfo.connection j = some id → s.offsetInfo.deref id = none →
    crash .danglingPointer s
  outOfBounds : ∀ j, j ∉ s.links → crash .connOutOfBounds s
  empty : s.offsetInfo.segments = [] → crash .nullPointer s

lemma Sincere.safe (h : Sincere s.trace) : Safe Sane s :=
  ⟨fun _ _ _ _ => (sane_danglingPointer s).mpr h, fun _ _ => (sane_connOutOfBounds s).mpr h,
    fun _ => (sane_nullPointer s).mpr h⟩

/-- The connection with the index of `get_fast_conn_index`. -/
def Gb.fastIndex (s : Gb) : Link :=
  if (s.conn .lte).bytesPerSecond ≥ (s.conn .wifi).bytesPerSecond then .lte else .wifi

lemma Gb.Weighed.virtualPart_nonneg {s : Gb} (h : s.Weighed) (i j : Link) : 0 ≤ s.virtualPart i j := by
  rw [Gb.virtualPart]
  split
  · exact le_rfl
  · rename_i id hc
    have hown := (h j).1 (by rw [hc]; simp)
    have := h.sizeBeforeTail_nonneg id j
    split_ifs <;> omega

variable {crash : Fault → Session → Prop}

lemma wp_getFastConnIndex_eq {post : Link → Session → Prop} (hs : Safe crash s)
    (hp : post s.fastIndex s) : wp getFastConnIndex post crash s := by
  simp only [getFastConnIndex, wp_bind, wp_connAt, wp_pure]
  exact ⟨fun _ => ⟨fun _ => hp, hs.outOfBounds _⟩, hs.outOfBounds _⟩

lemma wp_virtualShare (hs : Safe crash s) (i j : Link) :
    wp (virtualShare i j) (fun size t => t = s ∧ size = s.virtualPart i j) crash s := by
  simp only [virtualShare, wp_bind, wp_get, Gb.virtualPart]
  cases hc : s.offsetInfo.connection j with
  | none => exact ⟨rfl, rfl⟩
  | some id =>
    simp only [wp_bind, wp_follow, Option.some.injEq, forall_eq', reduceCtorEq, false_implies, and_true,
      wp_ite, wp_connAt, wp_pure]
    refine ⟨fun g hg => ?_, hs.dangling j id hc⟩
    obtain ⟨_, _, _, hid⟩ := exists_of_deref hg
    rw [hid]
    exact ⟨fun hne => ⟨fun _ => ⟨trivial, by rw [if_pos hne]⟩, hs.outOfBounds j⟩,
      fun hn => ⟨trivial, by rw [if_neg hn]⟩⟩

lemma tdiv_share {n r q : ℤ} (hn : 0 ≤ n) (hr : 0 ≤ r) (hq : 0 ≤ q) (hrq : r + q ≠ 0) :
    0 ≤ (n * r).tdiv (r + q) ∧ (n * r).tdiv (r + q) ≤ n := by
  have hnr : 0 ≤ n * r := mul_nonneg hn hr
  refine ⟨Int.tdiv_nonneg hnr (by omega), ?_⟩
  rw [Int.tdiv_eq_ediv_of_nonneg hnr]
  refine Int.ediv_le_of_le_mul (by omega) ?_
  exact mul_le_mul_of_nonneg_left (by omega) hn

/-- Where the product and the sum fit, so does what the division leaves. -/
lemma portionFits_iff {n r q : ℤ} (hn : 0 ≤ n) (hr : 0 ≤ r) (hq : 0 ≤ q) (hri : InRange 32 r)
    (hqi : InRange 32 q) : PortionFits n r q ↔ InRange 64 (n * r) ∧ InRange 32 (r + q) := by
  refine ⟨fun h => ⟨h.product, h.sum⟩, fun ⟨hproduct, hsum⟩ => ⟨hri, hqi, hproduct, hsum, ?_⟩⟩
  have hnr : 0 ≤ n * r := mul_nonneg hn hr
  rw [Int.tdiv_eq_ediv_of_nonneg hnr]
  exact hproduct.mono_of_nonneg (Int.ediv_nonneg hnr (by omega)) (Int.ediv_le_self _ hnr)

variable {front : List Segment} {g : Segment}

lemma wp_getVirtualSegSize (hs : Safe crash s) (i : Link) :
    wp (getVirtualSegSize i g.size) (fun size t => t = s ∧ size = s.virtualSize g i) crash s := by
  simp only [getVirtualSegSize, wp_bind, wp_get, Gb.virtualSize]
  split
  · rw [wp_bind, wp_demand]
    refine ⟨fun head hhead => ?_, fun hn => hs.empty (List.head?_eq_none_iff.mp hn)⟩
    rw [hhead]
    exact ⟨rfl, rfl⟩
  · simp only [wp_bind]
    refine wp_mono (wp_virtualShare hs i .lte) ?_ (fun _ _ h => h)
    rintro a t ⟨rfl, rfl⟩
    refine wp_mono (wp_virtualShare hs i .wifi) ?_ (fun _ _ h => h)
    rintro b t ⟨rfl, rfl⟩
    exact ⟨rfl, rfl⟩

lemma IsTail.size_nonneg {s : Gb} (h : IsTail front g s) : 0 ≤ g.size := h.size ▸ sizeSum_nonneg h.valid

/-- With one segment the virtual size is that of the tail, which is the head. -/
lemma IsTail.virtualSize_eq {s : Gb} (h : IsTail front g s) (i : Link) : s.virtualSize g i =
    if s.offsetInfo.numSegments = 1 then g.size
    else s.virtualPart i .lte + s.virtualPart i .wifi + g.size := by
  rw [Gb.virtualSize]
  split_ifs with h₁
  · have hl := h.linked.numSegments_eq
    rw [h.segments] at hl
    have hnil : front = [] := by simpa [h₁] using hl
    simp [h.segments, hnil]
  · rfl

lemma IsTail.virtualSize_nonneg {s : Gb} (h : IsTail front g s) (hw : s.Weighed) (i : Link) :
    0 ≤ s.virtualSize g i := by
  have hg := h.size_nonneg
  have hl := hw.virtualPart_nonneg i .lte
  have hwifi := hw.virtualPart_nonneg i .wifi
  rw [h.virtualSize_eq]
  split_ifs <;> omega

lemma IsTail.shareBase_nonneg {s : Gb} (h : IsTail front g s)
    (hw : g.recoverySegment = false → s.Weighed) (i : Link) : 0 ≤ s.shareBase g i := by
  rw [Gb.shareBase]
  split_ifs with hrec
  · exact h.size_nonneg
  · exact h.virtualSize_nonneg (hw (by simpa using hrec)) i

lemma IsTail.shareOf_bounds {s : Gb} (h : IsTail front g s) (i : Link) {r q : ℤ} (hr : 0 ≤ r)
    (hq : 0 ≤ q) (hrq : r + q ≠ 0) {fixed : Bool}
    (hw : fixed = false → g.recoverySegment = false → s.Weighed) :
    0 ≤ s.shareOf g i r q fixed ∧ s.shareOf g i r q fixed ≤ g.size := by
  have hg := h.size_nonneg
  rw [Gb.shareOf]
  split
  · exact tdiv_share hg hr hq hrq
  · rename_i hf
    have hbase := h.shareBase_nonneg (hw (by simpa using hf)) i
    have hshare := (tdiv_share hbase hr hq hrq).1
    dsimp only
    split_ifs <;> omega

lemma wp_shareBase (hs : g.recoverySegment = false → Safe crash s) (i : Link) :
    wp (if g.recoverySegment then pure g.size else getVirtualSegSize i g.size)
      (fun size t => t = s ∧ size = s.shareBase g i) crash s := by
  rw [Gb.shareBase]
  split
  · exact ⟨rfl, rfl⟩
  · rename_i hrec
    exact wp_getVirtualSegSize (hs (by simpa using hrec)) i

lemma wp_portion {size r q : ℤ} (hr : s.exact ∨ InRange 32 r) (hq : s.exact ∨ InRange 32 q)
    (hz : r + q = 0 → crash .divByZero s) (ho : ¬ (s.exact ∨ PortionFits size r q) → crash .overflow s) :
    wp (portion size r q) (fun share t => t = s ∧ r + q ≠ 0 ∧ (s.exact ∨ PortionFits size r q) ∧
      share = (size * r).tdiv (r + q)) crash s := by
  simp only [portion, wp_bind, wp_signed, wp_ensure]
  refine ⟨fun hproduct => ⟨fun hsum => ⟨fun hrq => ⟨fun hportion => ⟨trivial, hrq, ?_, trivial⟩, fun hn => ?_⟩,
    fun hn => hz (not_not.mp hn)⟩, fun hn => ?_⟩, fun hn => ?_⟩
  · by_cases hex : s.exact
    · exact .inl hex
    · exact .inr ⟨hr.resolve_left hex, hq.resolve_left hex, hproduct.resolve_left hex,
        hsum.resolve_left hex, hportion.resolve_left hex⟩
  · exact ho fun hfit => hn (hfit.imp id PortionFits.portion)
  · exact ho fun hfit => hn (hfit.imp id PortionFits.sum)
  · exact ho fun hfit => hn (hfit.imp id PortionFits.product)

lemma wp_subsegSize (hs : g.recoverySegment = false → Safe crash s) (i : Link) {r q : ℤ}
    (hr : s.exact ∨ InRange 32 r) (hq : s.exact ∨ InRange 32 q) (fixed : Bool)
    (hz : r + q = 0 → crash .divByZero s)
    (ho : ¬ (s.exact ∨ s.ShareFits g i r q fixed) → crash .overflow s) :
    wp (subsegSize g i r q fixed) (fun share t => t = s ∧ r + q ≠ 0 ∧
      (s.exact ∨ s.ShareFits g i r q fixed) ∧ share = s.shareOf g i r q fixed) crash s := by
  simp only [subsegSize, wp_bind, wp_get, Gb.shareOf, Session.toInt_of_inRange hr,
    Session.toInt_of_inRange hq]
  rw [Gb.ShareFits] at ho ⊢
  split
  · rename_i hfixed
    rw [if_pos hfixed] at ho
    exact wp_portion hr hq hz ho
  · rename_i hfixed
    rw [if_neg hfixed] at ho
    rw [wp_bind]
    refine wp_mono (wp_shareBase hs i) ?_ (fun _ _ h => h)
    rintro size t ⟨rfl, rfl⟩
    rw [wp_bind]
    refine wp_mono (wp_portion hr hq hz ho) ?_ (fun _ _ h => h)
    rintro share u ⟨rfl, hrq, hfit, rfl⟩
    exact ⟨rfl, hrq, hfit, rfl⟩

/-- The list once the chunks of its last segment are dealt out. -/
def Session.dealt (s : Session) (front : List Segment) (g : Segment)
    (share : Link → Option Subsegment) : Session :=
  { s with offsetInfo := { s.offsetInfo with
    segments := front ++ [{ g with subsegment := share }] } }

lemma IsTail.modifySegment_eq (h : IsTail front g s.toGb) (f : Segment → Segment) :
    s.offsetInfo.modifySegment g.id f =
      { s.offsetInfo with segments := front ++ [f g] } := by
  have hm : s.offsetInfo.segments.map (fun k => if k.id = g.id then f k else k) = front ++ [f g] :=
    h.linked.modifySegment_eq h.segments f
  rw [OffsetInfo.modifySegment, hm]

lemma IsTail.tail_eq (h : IsTail front g s.toGb) : s.offsetInfo.tail = some g.id := by
  rw [h.linked.tail_eq, h.segments]
  simp

/-- The size of the share of a connection if the one asked for is that of `i`. -/
def shareSize (i : Link) (share total : ℤ) (j : Link) : ℤ := if j = i then share else total - share

lemma wp_addNewSubsegment_split (h : IsTail front g s.toGb) (hbare : g.subsegment = fun _ => none)
    (hs : Safe crash s) (hexit : g.chunkList = [] → crash .exit s) (i : Link) {r q : ℤ} (hr : 0 ≤ r)
    (hq : 0 ≤ q) (hints : s.exact ∨ InRange 32 r ∧ InRange 32 q) {fixed : Bool}
    (hz : r + q = 0 → crash .divByZero s)
    (ho : ¬ (s.exact ∨ s.ShareFits g i r q fixed) → crash .overflow s)
    (hw : fixed = false → g.recoverySegment = false → s.Weighed) :
    wp (addNewSubsegment i r q fixed) (fun _ t => ∃ size fastList slowList,
      (s.exact ∨ s.ShareFits g i r q fixed) ∧ size = shareSize i (s.shareOf g i r q fixed) g.size ∧
      dealtOut (size s.fastIndex) g.chunkList = (fastList, slowList) ∧
      SplitAt (size s.fastIndex) g.chunkList fastList slowList ∧
      t = s.dealt front g (dealtShare s.fastIndex size fastList slowList)) crash s := by
  simp only [addNewSubsegment, wp_bind]
  refine wp_getFastConnIndex_eq hs ?_
  simp only [wp_get, wp_follow, h.tail_eq, Option.some.injEq, forall_eq',
    h.linked.deref_eq h.segments, reduceCtorEq, false_implies, and_true, wp_ensure]
  refine ⟨fun _ => ?_, fun hn => hexit (not_not.mp hn)⟩
  refine wp_mono (wp_subsegSize (fun _ => hs) i (hints.imp id And.left) (hints.imp id And.right) fixed hz ho) ?_
    (fun _ _ h => h)
  rintro share u ⟨rfl, hrq, hfit, rfl⟩
  obtain ⟨h₀, h₁⟩ := h.shareOf_bounds i hr hq hrq hw
  generalize u.shareOf g i r q fixed = share at h₀ h₁
  have hnn : 0 ≤ shareSize i share g.size u.fastIndex ∧
      shareSize i share g.size u.fastIndex ≤ g.size := by
    simp only [shareSize]
    split_ifs <;> omega
  have hother : shareSize i share g.size u.fastIndex.other =
      sizeSum g.chunkList - shareSize i share g.size u.fastIndex := by
    rw [← h.size]
    cases i <;> cases u.fastIndex <;> simp [shareSize, Link.other]
  have hle : shareSize i share g.size u.fastIndex ≤ sizeSum g.chunkList := h.size ▸ hnn.2
  have hsplit := dealtOut_splitAt _ hnn.1 hle h.valid h.ascending
  have hsafe := dealChunks_safe _ rfl hnn.1 hle h.valid
  rw [← hother] at hsafe
  simp only [wp_modifyOffsetInfo]
  refine ⟨fun _ => ⟨fun _ => ?_, fun hn => absurd hsafe.2 hn⟩, fun hn => absurd hsafe.1 hn⟩
  exact ⟨_, _, _, hfit, rfl, rfl, hsplit, by rw [h.modifySegment_eq, hbare]; rfl⟩

lemma shareSize_sum (i fast : Link) (share total : ℤ) :
    shareSize i share total fast + shareSize i share total fast.other = total := by
  cases i <;> cases fast <;> simp [shareSize, Link.other]

lemma wp_addNewSubsegment (h : AtTail front g s.toGb) (hbare : g.subsegment = fun _ => none)
    (hs : Sincere s.trace) (he : s.exact) (i : Link) {r q : ℤ} (hr : 0 ≤ r) (hq : 0 ≤ q) (fixed : Bool) :
    wp (addNewSubsegment i r q fixed) (fun _ t => ∃ share, Dealt g.chunkList share ∧
      t = s.dealt front g share) Sane s := by
  refine wp_mono (wp_addNewSubsegment_split h.toIsTail hbare hs.safe (fun _ => (sane_exit s).mpr hs) i
    hr hq (.inl he) (fun _ => (sane_divByZero s).mpr hs) (fun hn => absurd (.inl he) hn)
    fun _ => h.weighed) ?_ (fun _ _ h => h)
  rintro _ t ⟨size, fastList, slowList, -, rfl, -, hsplit, rfl⟩
  exact ⟨_, hsplit.dealt _ ((shareSize_sum ..).trans h.size), rfl⟩

lemma wp_gbDetermineNextSubsegment (h : AtTail front g s.toGb)
    (hbare : g.subsegment = fun _ => none) (hr : ∀ j, 0 ≤ s.conf.initialChunkRate j)
    (hg : ∀ j, 0 ≤ (s.conn j).bytesPerSecond) (he : s.exact) (i : Link) (mode : LinkMode)
    (hs : Sincere (s.called (.nextSubsegment mode) i).trace) :
    wp (gbDetermineNextSubsegment i mode) (fun _ t => ∃ share, Dealt g.chunkList share ∧
      t = (s.called (.nextSubsegment mode) i).dealt front g share) Sane s := by
  have hc : AtTail front g (s.called (.nextSubsegment mode) i).toGb := h
  simp only [gbDetermineNextSubsegment, wp_bind, wp_logEvent, wp_get]
  cases mode with
  | single j => exact wp_addNewSubsegment hc hbare hs he j zero_le_one le_rfl _
  | dual =>
    simp only [wp_ite, wp_bind, wp_connAt, sane_connOutOfBounds]
    exact ⟨fun _ => wp_addNewSubsegment hc hbare hs he i (hr i) (hr i.other) _,
      fun _ => ⟨fun _ => ⟨fun _ => wp_addNewSubsegment hc hbare hs he i (hg i) (hg i.other) _, fun _ => hs⟩,
        fun _ => hs⟩⟩

end

end GreenBag
