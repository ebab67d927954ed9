import GreenBag.Starting

/-! How large the next segment is, and when none is added. -/

namespace GreenBag

open Programs Ranges Schedules

/-- What is to be expected of a call that returns `n`: the new segment is the former remaining chunks
and a new chunk at the frontier, nothing is planned beyond the file, what is left is nothing or enough
for a segment, and without a new segment nothing was left before. -/
structure SizedRight (s : Gb) (n : ℤ) (t : Gb) : Prop where
  appended : n ≠ 0 → ∃ g m, t.offsetInfo.segments = s.offsetInfo.segments ++ [g] ∧
    g.recoverySegment = false ∧ (∀ j, g.subsegment j = none) ∧ 1 ≤ m ∧
    t.offsetInfo.lastSegOffset = s.offsetInfo.lastSegOffset + m ∧
    g.chunkList.Perm (s.offsetInfo.remainingChunks ++ [newChunk s.frontier m]) ∧
    g.size = n ∧ sizeSum g.chunkList = n
  inside : t.offsetInfo.lastSegOffset ≤ s.size - 1
  rest : t.offsetInfo.lastSegOffset = s.size - 1 ∨
    s.offsetInfo.initSegSize ≤ s.size - 1 - t.offsetInfo.lastSegOffset
  stopped : n = 0 → t.offsetInfo.segments = s.offsetInfo.segments ∧
    s.offsetInfo.lastSegOffset = s.size - 1 ∧ s.offsetInfo.remainingChunks = []

/-- With fixed segment sizes, it is not half of a segment of one byte that is planned while bytes are
left. With variable ones, `update_inorder_offset` finds no smaller offset than before. -/
def Gb.Sizable (s : Gb) : Prop :=
  if s.conf.fixedSegmentMode then
    ¬ (s.isUsingOnlyOneLink ∧ s.offsetInfo.initSegSize = 1 ∧ s.offsetInfo.lastSegOffset < s.size - 1)
  else ∀ value, Found s value → s.inorderOffset ≤ value

/-- The size asked for before it is fitted to the file. -/
def Gb.Wants (s : Gb) (wanted : ℤ) : Prop :=
  if s.conf.fixedSegmentMode then
    wanted = if s.isUsingOnlyOneLink then s.offsetInfo.initSegSize.tdiv 2 else s.offsetInfo.initSegSize
  else s.offsetInfo.initSegSize ≤ wanted ∧ ∀ value, Found s value → s.inorderOffset ≤ value

section

variable {i : Link} {s : Session}

/-- A segment with the chunk that was sized, or none where the size is zero. -/
structure Sized (s : Gb) (n : ℤ) (t : Gb) : Prop where
  none : n = 0 → t.offsetInfo.segments = s.offsetInfo.segments ∧
    t.offsetInfo.lastSegOffset = s.offsetInfo.lastSegOffset
  some : n ≠ 0 → ∃ g, t.offsetInfo.segments = s.offsetInfo.segments ++ [g] ∧
    g.recoverySegment = false ∧ (∀ j, g.subsegment j = Option.none) ∧
    g.chunkList = [newChunk s.frontier n] ∧ g.size = n ∧
    t.offsetInfo.lastSegOffset = if s.offsetInfo.lastSegOffset < s.offsetInfo.lastSegOffset + n then
      s.offsetInfo.lastSegOffset + n else s.offsetInfo.lastSegOffset

lemma wp_gbDetermineNextSegmentSize_sized (h : Rep (.reading i) s.toGb) :
    wp (gbDetermineNextSegmentSize i) (fun n t => ∃ wanted, s.Wants wanted ∧
      n = s.clipSegSize wanted ∧ Sized s.toGb n t.toGb)
      (fun e _ => e = .assertInorder ∧ s.conf.fixedSegmentMode = false ∧
        ∃ value, Found s.toGb value ∧ value < s.inorderOffset) s := by
  have hrem := h.remaining
  have hfinish : ∀ (t : Session) wanted, s.Wants wanted → t.size = s.size →
      t.offsetInfo = { s.offsetInfo with connIdle := t.offsetInfo.connIdle } →
      wp (do
        let u ← get
        let newSegSize := u.clipSegSize wanted
        let remaining := u.offsetInfo.remainingChunks
        let size := newSegSize + (remaining.map Chunk.size).sum
        modifyOffsetInfo fun o => { o with remainingChunks := [] }
        if newSegSize ≠ 0 then do
          let start ← getStartByteNextSegment
          let _ ← addNewSegment false (addNewChunk remaining start newSegSize) size
          return size
        else do
          whenever (remaining ≠ []) (addNewSegment false remaining size *> pure ())
          return size) (fun n t => ∃ wanted, s.Wants wanted ∧ n = s.clipSegSize wanted ∧
            Sized s.toGb n t.toGb) (fun e _ => e = .assertInorder ∧ s.conf.fixedSegmentMode = false ∧
              ∃ value, Found s.toGb value ∧ value < s.inorderOffset) t := by
    intro t wanted hw hsize ho
    have hclip : t.clipSegSize wanted = s.clipSegSize wanted := by
      rw [Gb.clipSegSize, Gb.clipSegSize, hsize, ho]
    have hnone : t.offsetInfo.remainingChunks = [] := by rw [ho]; exact hrem
    have hlinked : t.offsetInfo.Linked := by
      rw [ho]
      exact ⟨h.linked.1, h.linked.2, h.linked.3, h.linked.4⟩
    have hfront : t.frontier = s.frontier := by rw [Gb.frontier, Gb.frontier, ho]
    obtain ⟨u, hu⟩ : ∃ u : Session, u = { t with
      offsetInfo := { t.offsetInfo with remainingChunks := [] } } := ⟨_, rfl⟩
    obtain rfl : u = t := by rw [hu, ← hnone]
    simp only [wp_bind, wp_get, wp_modifyOffsetInfo, hclip, hnone, List.map_nil, List.sum_nil,
      add_zero, ne_eq, ← hu]
    rw [wp_ite]
    refine ⟨fun hne => ?_, fun hz => ?_⟩
    · rw [wp_bind]
      have htail : u.offsetInfo.tail ≠ none := by
        obtain ⟨p, ps, hp⟩ := List.exists_cons_of_ne_nil h.fits
        obtain ⟨pre, g, post, hs, -⟩ := exists_split hp
        rw [hlinked.tail_eq, ho, show s.offsetInfo.segments = _ from hs]
        simp
      refine wp_getStartByteNextSegment (fun hn => absurd hn htail) ?_
      rw [wp_bind]
      refine wp_addNewSegment hlinked (fun hn => by simp [addNewChunk] at hn) fun last hlast => ?_
      have hsorted : sortingChunks (addNewChunk [] u.frontier (s.clipSegSize wanted)) =
          [newChunk s.frontier (s.clipSegSize wanted)] := by rw [hfront]; rfl
      rw [hsorted] at hlast
      obtain rfl : newChunk s.frontier (s.clipSegSize wanted) = last := by simpa using hlast
      refine ⟨wanted, hw, rfl, fun hz => absurd hz hne, fun _ => ⟨_, by rw [ho]; rfl, rfl, fun _ => rfl,
        hsorted, rfl, ?_⟩⟩
      have hlast : (newChunk s.frontier (s.clipSegSize wanted)).lastByte =
          s.offsetInfo.lastSegOffset + s.clipSegSize wanted := by
        simp only [newChunk, Gb.frontier]
        omega
      simp only [OffsetInfo.push, hlast]
      rw [ho]
    · have hz' : s.clipSegSize wanted = 0 := by simpa using hz
      simp only [wp_bind, wp_whenever, wp_pure]
      refine ⟨fun hn => absurd hnone hn, fun _ => ⟨wanted, hw, rfl, fun _ => ?_, fun hne => absurd hz' hne⟩⟩
      rw [ho]
      exact ⟨rfl, rfl⟩
  simp only [gbDetermineNextSegmentSize]
  rw [wp_bind, wp_logEvent, wp_bind, wp_get, wp_bind, wp_ite]
  refine ⟨fun hf => ?_, fun hf => ?_⟩
  · refine hfinish _ _ ?_ rfl rfl
    rw [Gb.Wants, if_pos hf]
  · have hf' : s.conf.fixedSegmentMode = false := by simpa using hf
    have hr : Rep (.reading i) (s.called .nextSegmentSize i).toGb := h
    refine wp_gbDetermineNextSegmentPolicy_found hr [] (fun _ value hv hlt => ⟨rfl, hf', value, hv, hlt⟩)
      fun t wanted hle hw hs _ ho => hfinish t wanted ?_ hs ho
    rw [Gb.Wants, if_neg hf]
    exact ⟨hle, hw⟩

/-- Fitted to the file, a size is zero only where nothing is left or none is wanted. -/
lemma Gb.clipSegSize_eq_zero {s : Gb} (h : Rep (.reading i) s) {wanted : ℤ} (hw : 0 ≤ wanted) :
    s.clipSegSize wanted = 0 ↔ s.offsetInfo.lastSegOffset = s.size - 1 ∨
      wanted = 0 ∧ s.offsetInfo.initSegSize ≤ s.size - 1 - s.offsetInfo.lastSegOffset := by
  have hi := h.initSegSize
  have hf := h.frontier.2
  simp only [Gb.frontier] at hf
  rw [Gb.clipSegSize]
  split_ifs <;> omega

/-- What a segment fitted to the file leaves is nothing or enough for another one. -/
lemma Gb.clipSegSize_rest (s : Gb) (wanted : ℤ) :
    s.offsetInfo.lastSegOffset + s.clipSegSize wanted = s.size - 1 ∨
      s.offsetInfo.initSegSize ≤
        s.size - 1 - (s.offsetInfo.lastSegOffset + s.clipSegSize wanted) := by
  rw [Gb.clipSegSize]
  split_ifs <;> omega

lemma Gb.Wants.nonneg {s : Gb} (h : Rep (.reading i) s) {wanted : ℤ} (hw : s.Wants wanted) :
    0 ≤ wanted ∧ (wanted = 0 ↔ s.conf.fixedSegmentMode ∧ s.isUsingOnlyOneLink ∧
      s.offsetInfo.initSegSize = 1) := by
  have hi := h.initSegSize
  rw [Gb.Wants] at hw
  split_ifs at hw with hf hone
  · rw [Int.tdiv_eq_ediv_of_nonneg (by omega)] at hw
    simp only [hf, hone, true_and]
    omega
  · have hpos : wanted ≠ 0 := by omega
    exact ⟨by omega, fun h₀ => absurd h₀ hpos, fun h₀ => absurd h₀.2.1 hone⟩
  · have hpos : wanted ≠ 0 := by omega
    exact ⟨by omega, fun h₀ => absurd h₀ hpos, fun h₀ => absurd h₀.1 hf⟩

lemma Gb.Wants.sizable_iff {s : Gb} (h : Rep (.reading i) s) {wanted : ℤ} (hw : s.Wants wanted) :
    s.Sizable ↔ (wanted = 0 → s.offsetInfo.lastSegOffset = s.size - 1) := by
  have hf := h.frontier.2
  simp only [Gb.frontier] at hf
  rw [Gb.Sizable, (hw.nonneg h).2]
  rw [Gb.Wants] at hw
  split_ifs at hw ⊢ with hfix hone
  · constructor
    · rintro hn ⟨-, -, hinit⟩
      by_contra hne
      exact hn ⟨hone, hinit, by omega⟩
    · rintro hn ⟨-, hinit, hlt⟩
      have hend := hn ⟨hfix, hone, hinit⟩
      omega
  · exact ⟨fun _ h₀ => absurd h₀.2.1 hone, fun _ h₀ => hone h₀.1⟩
  · exact ⟨fun _ h₀ => absurd h₀.1 hfix, fun _ => hw.2⟩

lemma Sized.right_iff {s t : Gb} (hr : Rep (.reading i) s) {wanted : ℤ} (hw : s.Wants wanted)
    (h : Sized s (s.clipSegSize wanted) t) : SizedRight s (s.clipSegSize wanted) t ↔ s.Sizable := by
  obtain ⟨hnn, hzero⟩ := hw.nonneg hr
  have hz := Gb.clipSegSize_eq_zero hr hnn
  obtain ⟨hn, hin⟩ := Gb.clipSegSize_fits hr hnn
  have hrest := s.clipSegSize_rest wanted
  have hi := hr.initSegSize
  have hf := hr.frontier.2
  simp only [Gb.frontier] at hf hin
  rw [hw.sizable_iff hr]
  generalize s.clipSegSize wanted = n at h hz hn hin hrest ⊢
  constructor
  · intro hright h₀
    by_contra hne
    have hinit := (hzero.mp h₀).2.2
    exact hne (hright.stopped (hz.mpr (.inr ⟨h₀, by omega⟩))).2.1
  · intro hwz
    by_cases hn₀ : n = 0
    · obtain ⟨hsegs, hlast⟩ := h.none hn₀
      have hend : s.offsetInfo.lastSegOffset = s.size - 1 := by
        obtain hend | ⟨h₀, -⟩ := hz.mp hn₀
        · exact hend
        · exact hwz h₀
      exact ⟨fun hne => absurd hn₀ hne, by omega, .inl (hlast.trans hend),
        fun _ => ⟨hsegs, hend, hr.remaining⟩⟩
    · obtain ⟨g, hsegs, hrec, hbare, hchunks, hsize, hlast⟩ := h.some hn₀
      rw [if_pos (by omega)] at hlast
      refine ⟨fun _ => ⟨g, n, hsegs, hrec, hbare, by omega, hlast, ?_, hsize, ?_⟩, by omega, ?_,
        fun h₀ => absurd h₀ hn₀⟩
      · rw [hchunks, hr.remaining]
        exact .refl _
      · rw [hchunks]
        simp [newChunk]
      · rw [hlast]
        exact hrest

/-- At each call in a run before which no share overflows, the size is right exactly if the next segment is
sizable. -/
theorem sizedRight_iff {s : Session} (h : s.Seen) : ∀ s' i, s.FitsTo (.called s' .nextSegmentSize i) →
    ∀ t : Session, t.toGb = s' → ((∃ n u, gbDetermineNextSegmentSize i t = .ok n u ∧
      SizedRight s' n u.toGb) ↔ s'.Sizable) := by
  intro s' i hm t ht
  subst ht
  have hplan : Planning i t.toGb := h.sound hm
  have hw := (wp_iff _).mp (wp_gbDetermineNextSegmentSize_sized hplan.rep)
  cases hrun : gbDetermineNextSegmentSize i t with
  | ok n u =>
    obtain ⟨wanted, hwants, rfl, hsized⟩ := hw.1 n u hrun
    rw [← hsized.right_iff hplan.rep hwants]
    constructor
    · rintro ⟨_, _, he, hright⟩
      cases he
      exact hright
    · exact fun hright => ⟨_, u, rfl, hright⟩
  | error e u =>
    obtain ⟨-, hfixed, value, hv, hlt⟩ := hw.2 e u hrun
    constructor
    · rintro ⟨_, _, he, -⟩
      cases he
    · intro hs
      rw [Gb.Sizable, if_neg (by simp [hfixed])] at hs
      have hle := hs value hv
      omega

end

/-- A segment for each byte. -/
def bytewiseConf : Conf := { plainConf with numOfSegments := 4 }

/-- The second connection reads its byte, with which the next segment goes to the first one. -/
def bytewiseSteps : List Label := upSteps .wifi ++ [readStep .wifi 1]

theorem sizedRight_iff_of_byte : ∃ s : Session, s.offsetInfo.lastSegOffset = 1 ∧
    ∀ s' i, .called s' .nextSegmentSize i ∈ s.trace → ∀ t : Session, t.toGb = s' →
      ((∃ n u, gbDetermineNextSegmentSize i t = .ok n u ∧ SizedRight s' n u.toGb) ↔ s'.Sizable) := by
  obtain ⟨s, hs, hn⟩ := exists_of_reaches bytewiseConf 4 bytewiseSteps
    (P := fun s => s.offsetInfo.lastSegOffset = 1 ∧ s.Fits) (by decide +kernel) (by decide) (by decide +kernel)
  exact ⟨s, hn.1, fun s' i hm => sizedRight_iff (.inl hs) s' i (hn.2.fitsTo hm)⟩

/-- A segment is sized where the last byte but one is assigned, and none is added. -/
def Event.sizesNothing : Event → Bool
  | .called s' .nextSegmentSize .lte => s'.offsetInfo.initSegSize = 1 ∧ s'.size = 4 ∧
      s'.offsetInfo.lastSegOffset = 1 ∧ result (gbDetermineNextSegmentSize .lte)
        { s' with statics := freshStatics, trace := [] } = some 0
  | _ => false

/-- Half of the segment of one byte is planned for the only link in use, and two bytes are left. -/
theorem next_segment_empty : ∃ s : Session, s.Reached ∧ s.Fits ∧ s.parts .lte = [] ∧ s.parts .wifi = [] ∧
    ∃ s', .called s' .nextSegmentSize .lte ∈ s.trace ∧ s'.offsetInfo.initSegSize = 1 ∧ s'.size = 4 ∧
      s'.offsetInfo.lastSegOffset = 1 ∧ ∃ t u : Session, t.toGb = s' ∧
        gbDetermineNextSegmentSize .lte t = .ok 0 u := by
  obtain ⟨s, hs, hf, hl, hw, hc⟩ := exists_of_reaches bytewiseConf 4 (bytewiseSteps ++ [readStep .lte 1])
    (P := fun s => s.Fits ∧ s.parts .lte = [] ∧ s.parts .wifi = [] ∧ s.trace.any Event.sizesNothing)
    (by decide +kernel) (by decide) (by decide +kernel)
  obtain ⟨e, he, hz⟩ := List.any_eq_true.mp hc
  unfold Event.sizesNothing at hz
  split at hz
  · rename_i s'
    simp only [decide_eq_true_eq] at hz
    obtain ⟨hinit, hsize, hlast, hn⟩ := hz
    obtain ⟨u, hu⟩ := exists_of_result hn
    exact ⟨s, hs, hf, hl, hw, s', he, hinit, hsize, hlast, _, u, rfl, hu⟩
  · cases hz

end GreenBag
