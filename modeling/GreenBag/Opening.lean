import GreenBag.Starting

/-! The set-up of the first segment, once and twice, for all options, and what becomes of it with one
connection. -/

namespace GreenBag

open Programs Ranges Words

/-- One segment from byte 0 on, dealt out to the connections, each of which stands at the start of its
part. -/
structure Segmented (s : Gb) : Prop where
  bounds : 1 ≤ s.offsetInfo.initSegSize ∧ s.offsetInfo.initSegSize ≤ s.size
  single : ∃ g, s.offsetInfo.segments = [g] ∧ g.chunkList = [newChunk 0 s.offsetInfo.initSegSize] ∧
    Dealt g.chunkList g.subsegment ∧ ∀ i, Placed g s i

/-- The set-up runs through twice, and the second time it leaves the segments as they are. -/
def Repeatable (s : Session) : Prop :=
  ∃ t u, gbInitSegmentSetup s = .ok () t ∧ Segmented t.toGb ∧ gbInitSegmentSetup t = .ok () u ∧
    u.offsetInfo.segments = t.offsetInfo.segments ∧
    u.offsetInfo.initSegSize = t.offsetInfo.initSegSize ∧ u.conf.numOfSegments = t.conf.numOfSegments

/-- How many segments of the given size the file needs. -/
def Conf.segmentsNeeded (conf : Conf) (size : ℤ) : ℤ :=
  size.tdiv conf.segmentBytes + if size.tmod conf.segmentBytes ≠ 0 then 1 else 0

/-- The number of segments is given and no larger than the file, or only their size is given and the
file is no larger than that, or a multiple of it. The number is written back as an `int`, and where that
is 0 it is computed again. -/
def Conf.Divides (conf : Conf) (size : ℤ) : Prop :=
  conf.numOfSegments ≠ 0 ∧ conf.numOfSegments ≤ size ∨
  conf.numOfSegments = 0 ∧ conf.fixedSegmentSizeKB ≠ 0 ∧
    ((size ≤ conf.segmentBytes ∨ conf.segmentBytes ∣ size) ∧ conf.segmentsNeeded size < 2 ^ 31 ∨
      2 ^ 32 ∣ conf.segmentsNeeded size)

/-- As many segments as are needed for a size, and what becomes of the size from their number. -/
lemma count_bounds {size f count : ℤ} (hs : 1 ≤ size) (hf : 1 ≤ f)
    (hc : count = size.tdiv f + if size.tmod f ≠ 0 then 1 else 0) :
    1 ≤ count ∧ count ≤ size ∧ (size.tdiv count = min size f ↔ size ≤ f ∨ f ∣ size) := by
  rw [Int.tdiv_eq_ediv_of_nonneg (by omega), Int.tmod_eq_emod_of_nonneg (by omega)] at hc
  have hdiv := Int.mul_ediv_add_emod size f
  have h₀ := Int.emod_nonneg size (show f ≠ 0 by omega)
  have h₁ := Int.emod_lt_of_pos size (show 0 < f by omega)
  have hq := Int.ediv_nonneg (a := size) (b := f) (by omega) (by omega)
  have hmul : size / f ≤ f * (size / f) := le_mul_of_one_le_left hq hf
  rw [Int.tdiv_eq_ediv_of_nonneg (by omega)]
  have hpos : 1 ≤ count := by
    by_cases hz : size / f = 0
    · rw [hz, mul_zero] at hdiv
      rw [if_pos (by omega)] at hc
      omega
    · split_ifs at hc <;> omega
  refine ⟨hpos, by split_ifs at hc <;> omega, fun h => ?_, fun h => ?_⟩
  · by_contra hn
    obtain ⟨hlt, hdvd⟩ := not_or.mp hn
    have hrem : size % f ≠ 0 := fun hr => hdvd (Int.dvd_of_emod_eq_zero hr)
    rw [if_pos hrem] at hc
    have hle : size / count * count ≤ size := Int.ediv_mul_le size (by omega)
    rw [h, min_eq_right (by omega), hc, mul_add] at hle
    omega
  · rcases h with h | ⟨k, rfl⟩
    · have hone : count = 1 := by
        rcases h.lt_or_eq with hlt | rfl
        · rw [Int.ediv_eq_zero_of_lt (by omega) hlt, Int.emod_eq_of_lt (by omega) hlt,
            if_pos (by omega)] at hc
          exact hc
        · rw [Int.ediv_self (by omega), Int.emod_self, if_neg (by simp)] at hc
          exact hc
      rw [hone, Int.ediv_one, min_eq_left h]
    · rw [Int.mul_ediv_cancel_left k (by omega)] at hc hq
      rw [Int.mul_emod_right, if_neg (by simp), add_zero] at hc
      have hk : f * 1 ≤ f * k := mul_le_mul_of_nonneg_left (by omega) (by omega)
      rw [hc, Int.mul_ediv_cancel f (by omega), min_eq_right (by omega)]

/-- A number that is smaller than the one needed makes larger segments. -/
lemma lt_tdiv_count {size f count : ℤ} (hs : 1 ≤ size) (hf : 1 ≤ f) (hc : 1 ≤ count)
    (hlt : 2 * count ≤ size.tdiv f) : min size f < size.tdiv count := by
  rw [Int.tdiv_eq_ediv_of_nonneg (by omega)] at hlt ⊢
  have hle : size / f * f ≤ size := Int.ediv_mul_le size (by omega)
  have hmul : 2 * count * f ≤ size / f * f := mul_le_mul_of_nonneg_right hlt (by omega)
  have htwo : 2 * f ≤ size / count := Int.le_ediv_of_mul_le (by omega) (by linarith)
  exact (min_le_right _ _).trans_lt (by omega)

/-- The number that is written back is computed again, or makes the same size of the file. -/
lemma count_iff {conf : Conf} {size : ℤ} (hs : 1 ≤ size) (hf : 1 ≤ conf.segmentBytes)
    (hnum : conf.numOfSegments = 0) :
    (conf.segmentCount size = 0 ∨ 1 ≤ conf.segmentCount size ∧
        size.tdiv (conf.segmentCount size) = min size conf.segmentBytes) ↔
      (size ≤ conf.segmentBytes ∨ conf.segmentBytes ∣ size) ∧ conf.segmentsNeeded size < 2 ^ 31 ∨
        2 ^ 32 ∣ conf.segmentsNeeded size := by
  obtain ⟨hpos, hle, hiff⟩ := count_bounds hs hf (show conf.segmentsNeeded size = _ from rfl)
  have hq : 0 ≤ size.tdiv conf.segmentBytes := Int.tdiv_nonneg (by omega) (by omega)
  have hneeded : conf.segmentsNeeded size = size.tdiv conf.segmentBytes +
      if size.tmod conf.segmentBytes ≠ 0 then 1 else 0 := rfl
  have hcount : conf.segmentCount size = narrow 32 (size.tdiv conf.segmentBytes) +
      if size.tmod conf.segmentBytes ≠ 0 then 1 else 0 := by rw [Conf.segmentCount, if_pos hnum]
  obtain ⟨hlow, hhigh⟩ := narrow_inRange (show 0 < 32 by norm_num) (size.tdiv conf.segmentBytes)
  obtain ⟨k, hk⟩ := dvd_sub_narrow 32 (size.tdiv conf.segmentBytes)
  have hrest : (if size.tmod conf.segmentBytes ≠ 0 then (1 : ℤ) else 0) = 0 ∨
      (if size.tmod conf.segmentBytes ≠ 0 then (1 : ℤ) else 0) = 1 := by split_ifs <;> simp
  have hexact : (size ≤ conf.segmentBytes ∨ conf.segmentBytes ∣ size) →
      size.tdiv conf.segmentBytes < 2 ^ 31 → conf.segmentsNeeded size < 2 ^ 31 := by
    intro h hlt
    rcases h with h | h
    · have hone := hiff.mpr (.inl h)
      rw [min_eq_left h] at hone
      by_contra hn
      rw [Int.tdiv_eq_ediv_of_nonneg (by omega)] at hone
      have hlt' := Int.ediv_lt_self_of_pos_of_ne_one (x := size) (y := conf.segmentsNeeded size) (by omega) (by omega)
      omega
    · have hz : size.tmod conf.segmentBytes = 0 := by
        rw [Int.tmod_eq_emod_of_nonneg (by omega)]
        exact Int.emod_eq_zero_of_dvd h
      rw [hneeded, hz]
      simpa using hlt
  have hnarrow : size.tdiv conf.segmentBytes < 2 ^ 31 →
      conf.segmentCount size = conf.segmentsNeeded size := by
    intro hlt
    rw [hcount, hneeded, narrow_of_inRange (by norm_num) ⟨by omega, hlt⟩]
  constructor
  · rintro (hz | ⟨hc, hsame⟩)
    · exact .inr ⟨k, by omega⟩
    · by_cases hlt : size.tdiv conf.segmentBytes < 2 ^ 31
      · rw [hnarrow hlt] at hsame
        have hfit := hiff.mp hsame
        exact .inl ⟨hfit, hexact hfit hlt⟩
      · have hk₁ : 1 ≤ k := by omega
        have := lt_tdiv_count hs hf hc (by omega)
        omega
  · rintro (⟨hfit, hlt⟩ | ⟨j, hj⟩)
    · have hq' : size.tdiv conf.segmentBytes < 2 ^ 31 := by omega
      rw [hnarrow hq']
      exact .inr ⟨hpos, hiff.mpr hfit⟩
    · exact .inl (by omega)

section

variable {conf : Conf} {size : ℤ}

@[simp] lemma Conf.counted_segmentBytes : (conf.counted size).segmentBytes = conf.segmentBytes := rfl

lemma Conf.counted_numOfSegments (h : (conf.counted size).numOfSegments = 0) : conf.numOfSegments = 0 := by
  by_contra hne
  exact hne ((if_neg hne).symm.trans h)

lemma Conf.counted_segmentCount (conf : Conf) (size : ℤ) :
    (conf.counted size).segmentCount size = conf.segmentCount size := by
  by_cases hz : (conf.counted size).numOfSegments = 0
  · rw [Conf.segmentCount, if_pos hz, Conf.segmentCount, if_pos (counted_numOfSegments hz)]
    rfl
  · exact if_neg hz

/-- The second time the set-up makes the same size of the file exactly if the options divide it. -/
lemma Conf.counted_firstSize (hs : 1 ≤ size) (hkb : 0 ≤ conf.fixedSegmentSizeKB)
    (hgiven : conf.numOfSegments = 0 → conf.fixedSegmentSizeKB ≠ 0) (hn : 1 ≤ conf.firstSize size) :
    (conf.counted size).firstSize size = conf.firstSize size ↔ conf.Divides size := by
  by_cases hz : conf.numOfSegments = 0
  · have hf : 1 ≤ conf.segmentBytes := by
      have := hgiven hz
      rw [Conf.segmentBytes]
      omega
    have hfirst : conf.firstSize size = min size conf.segmentBytes := if_pos hz
    have hdivides : conf.Divides size ↔ _ := ⟨fun h => (h.resolve_left fun h => h.1 hz).2.2,
      fun h => .inr ⟨hz, hgiven hz, h⟩⟩
    rw [hdivides, ← count_iff hs hf hz, hfirst]
    by_cases hc : conf.segmentCount size = 0
    · have hagain : (conf.counted size).firstSize size = min size conf.segmentBytes := if_pos hc
      simp [hagain, hc]
    · have hagain : (conf.counted size).firstSize size = size.tdiv (conf.segmentCount size) := if_neg hc
      rw [hagain]
      refine ⟨fun he => .inr ⟨?_, he⟩, fun h => (h.resolve_left hc).2⟩
      by_contra hlt
      have hle := Int.tdiv_nonpos_of_nonneg_of_nonpos (a := size) (b := conf.segmentCount size) (by omega)
        (by omega)
      omega
  · have hfirst : conf.firstSize size = size.tdiv conf.numOfSegments := if_neg hz
    have hcount : conf.counted size = conf := by rw [Conf.counted, Conf.segmentCount, if_neg hz]
    rw [hcount]
    refine ⟨fun _ => .inl ⟨hz, ?_⟩, fun _ => rfl⟩
    by_contra hlt
    rw [hfirst, Int.tdiv_eq_zero_of_lt (by omega) (by omega)] at hn
    omega

lemma Conf.Divides.firstSize_pos (h : conf.Divides size) (hs : 1 ≤ size) (hnum : 0 ≤ conf.numOfSegments)
    (hkb : 0 ≤ conf.fixedSegmentSizeKB) : 1 ≤ conf.firstSize size := by
  rw [Conf.firstSize]
  rcases h with ⟨hne, hle⟩ | ⟨hz, hf, -⟩
  · rw [if_neg hne, Int.tdiv_eq_ediv_of_nonneg (by omega)]
    exact Int.le_ediv_of_mul_le (by omega) (by omega)
  · rw [if_pos hz, Conf.segmentBytes]
    omega

lemma Conf.Divides.segmentCount_bounds (h : conf.Divides size) (hs : 1 ≤ size)
    (hnum : 0 ≤ conf.numOfSegments) (hkb : 0 ≤ conf.fixedSegmentSizeKB) :
    0 ≤ conf.segmentCount size ∧ conf.segmentCount size ≤ size := by
  rcases h with ⟨hne, hle⟩ | ⟨hz, hf, h⟩
  · rw [Conf.segmentCount, if_neg hne]
    exact ⟨hnum, hle⟩
  · have hbytes : 1 ≤ conf.segmentBytes := by
      rw [Conf.segmentBytes]
      omega
    rcases (count_iff hs hbytes hz).mpr h with hc | ⟨hc, he⟩
    · omega
    · refine ⟨by omega, ?_⟩
      by_contra hlt
      rw [Int.tdiv_eq_zero_of_lt (by omega) (by omega)] at he
      omega

lemma Conf.SetupFits.counted (h : conf.SetupFits size)
    (hn : (conf.counted size).firstSize size = conf.firstSize size) :
    (conf.counted size).SetupFits size where
  bytes := h.bytes
  count := fun hz => by
    rw [Conf.counted_segmentCount]
    exact h.count (counted_numOfSegments hz)
  product := by
    rw [hn]
    exact h.product
  sum := h.sum
  qos := h.qos

end

section

variable {s t : Session} {n : ℤ} {g : Segment}

lemma Opened.segmented (h : Opened n g s) : Segmented s.toGb := by
  obtain ⟨h₁, h₂⟩ := h.size
  refine ⟨?_, g, h.segments, ?_, h.chunks ▸ h.dealt, h.placed⟩
  · rw [h.initSegSize]
    exact ⟨h₁, h₂⟩
  · rw [h.initSegSize]
    exact h.chunks

lemma SetUp.blank (h : SetUp s t) (hs : Blank s) : Blank t := by
  have ho := h.opened
  refine ⟨ho.two, ho.rates, ?_, h.size ▸ hs.size, ho.unused, ho.trace, ho.outfile, ho.bytesDone, ho.offsets⟩
  rw [h.exact, h.conf]
  exact hs.ints

/-- With one connection the set-up looks at a second one, unless it is undefined before. -/
lemma wp_gbInitSegmentSetup_single (h : Link.wifi ∉ s.links) :
    wp gbInitSegmentSetup (fun _ _ => False) (fun e _ => e = .connOutOfBounds ∨
      e = .divByZero ∧ s.conf.numOfSegments = 0 ∧ s.conf.fixedSegmentSizeKB = 0 ∨
      e = .overflow ∧ ¬ (s.exact ∨ s.conf.SegmentsFit s.size)) s := by
  simp only [gbInitSegmentSetup, wp_bind, wp_modify]
  refine wp_mono (wp_initSegment (fun hn hf => .inr (.inl ⟨rfl, hn, hf⟩)) fun hn => .inr (.inr ⟨rfl, hn⟩))
    ?_ (fun _ _ h => h)
  rintro n t ⟨-, -, -, rfl⟩
  simp only [wp_modifyOffsetInfo]
  refine wp_addFirst { s with conf := s.conf.counted s.size } n ?_
  simp only [wp_get, addNewSubsegment, getFastConnIndex, wp_bind, wp_connAt]
  exact ⟨fun _ => ⟨fun hw => absurd hw h, fun _ => .inl trivial⟩, fun _ => .inl trivial⟩

/-- Steps that keep `init_seg_size`. -/
def keepingSize : Frame Fault Session where
  rel s t := t.offsetInfo.initSegSize = s.offsetInfo.initSegSize
  fault _ _ := True
  refl _ := rfl
  trans h h' := h'.trans h

end

section

variable {α η : Type} {put : Session → η → Session} {y : Program α}

lemma keepsSize (h : Blind put looking y) : Keeps keepingSize y :=
  h.keeps.mono (fun _ _ ht => congrArg OffsetInfo.initSegSize ht.offsetInfo) fun _ _ _ => trivial

lemma keepsSize_addNewSegment (recovery : Bool) (cs : List Chunk) (size : ℤ) :
    Keeps keepingSize (addNewSegment recovery cs size) := by
  refine .bind .get fun s => .bind (.ite (fun _ => .pure _) fun _ => ?_) fun _ => ?_
  · exact .bind (keepsSize (blind_follow _)) fun _ => .pure _
  · refine .bind (.demand (fun _ => trivial) _) fun _ => .bind (.modify fun _ => rfl) fun _ => .pure _

lemma keepsSize_addNewSubsegment (i : Link) (r q : ℤ) (fixed : Bool) :
    Keeps keepingSize (addNewSubsegment i r q fixed) := by
  refine .bind (keepsSize blind_getFastConnIndex) fun fast => .bind .get fun s => ?_
  refine .bind (keepsSize (blind_follow _)) fun g => .bind (.ensure fun _ => trivial) fun _ => ?_
  refine .bind (keepsSize (blind_subsegSize _ _ _ _ _)) fun share => .bind (.ensure fun _ => trivial) fun _ => ?_
  exact .bind (.ensure fun _ => trivial) fun _ => .modify fun _ => rfl

lemma keepsSize_initConn (i : Link) : Keeps keepingSize (initConn i) := by
  refine .bind .get fun s => .bind (.demand (fun _ => trivial) _) fun head => ?_
  refine .bind (.demand (fun _ => trivial) _) fun last => ?_
  refine .bind (.whenever fun _ => .modify fun _ => rfl) fun _ => ?_
  cases head.subsegment i with
  | none => exact .modify fun _ => rfl
  | some p =>
    refine .bind (.modify fun _ => rfl) fun _ => .bind (.demand (fun _ => trivial) _) fun c => ?_
    exact .modify fun _ => rfl

/-- Whatever the options are, the set-up leaves the size that it computed. -/
lemma initSegSize_of_ok {s t : Session} (h : gbInitSegmentSetup s = .ok () t) :
    t.offsetInfo.initSegSize = s.conf.firstSize s.size := by
  have hw : wp gbInitSegmentSetup (fun _ t => t.offsetInfo.initSegSize = s.conf.firstSize s.size)
      (fun _ _ => True) s := by
    rw [gbInitSegmentSetup, wp_bind, wp_modify, wp_bind]
    refine wp_mono (wp_initSegment (fun _ _ => trivial) fun _ => trivial) ?_ (fun _ _ h => h)
    rintro n t ⟨rfl, -, -, rfl⟩
    rw [wp_bind, wp_modifyOffsetInfo]
    have hrest : Keeps keepingSize (do
        let _ ← addNewSegment false (addNewChunk [] 0 (s.conf.firstSize s.size)) (s.conf.firstSize s.size)
        let s ← get
        addNewSubsegment .lte (s.conf.initialChunkRate .lte) (s.conf.initialChunkRate .wifi)
          s.conf.fixedSubsegmentMode
        each initConn s.links
        let rate ← signed 32 (s.conf.qosKbps * 1000)
        modify fun s => { s with qosBytesPerSecond := rate.tdiv 8, qosBytes := 0 }) := by
      refine .bind (keepsSize_addNewSegment _ _ _) fun _ => .bind .get fun s => ?_
      refine .bind (keepsSize_addNewSubsegment _ _ _ _) fun _ => .bind (.each keepsSize_initConn) fun _ => ?_
      exact .bind (keepsSize (blind_signed _ _)) fun _ => .modify fun _ => rfl
    exact wp_mono (hrest _) (fun _ t ht => ht) fun _ _ _ => trivial
  exact ((wp_iff _).mp hw).1 () t h

end

section

variable {s t : Session}

/-- What a set-up with two connections makes of the options, if it does not stop. -/
lemma setUp_of_ok (h : Blank s) (hnum : 0 ≤ s.conf.numOfSegments) (hkb : 0 ≤ s.conf.fixedSegmentSizeKB)
    (hrun : gbInitSegmentSetup s = .ok () t) : SetUp s t := by
  have hw : wp gbInitSegmentSetup (fun _ u => SetUp s u) (fun _ _ => True) s :=
    wp_gbInitSegmentSetup h hnum hkb fun _ _ _ _ => trivial
  exact ((wp_iff _).mp hw).1 () t hrun

lemma exists_setUp (h : Blank s) (hnum : 0 ≤ s.conf.numOfSegments) (hkb : 0 ≤ s.conf.fixedSegmentSizeKB)
    (hno : ∀ e, ¬ Stops s e) : ∃ t, gbInitSegmentSetup s = .ok () t ∧ SetUp s t := by
  have hw : wp gbInitSegmentSetup _ (fun _ _ => False) s :=
    wp_gbInitSegmentSetup h hnum hkb fun e _ he _ => hno e he
  obtain ⟨_, t, ht, hs⟩ := exists_of_wp hw
  exact ⟨t, ht, hs⟩

lemma not_stops (hsum : 0 < s.conf.initialChunkRate .lte + s.conf.initialChunkRate .wifi)
    (hnum : s.conf.numOfSegments ≤ s.size) (hkb : s.conf.numOfSegments = 0 → s.conf.fixedSegmentSizeKB ≠ 0)
    (hfit : s.exact ∨ s.conf.SetupFits s.size) (e : Fault) : ¬ Stops s e := by
  rintro (⟨-, hn, hf⟩ | ⟨-, hz⟩ | ⟨-, hlt⟩ | ⟨-, hn⟩)
  · exact hkb hn hf
  · omega
  · omega
  · exact hn hfit

/-- From a blank session with ratios to share by, the set-up is repeatable if the options divide the
file and nothing overflows. -/
lemma Blank.repeats_iff (h : Blank s) (hnum : 0 ≤ s.conf.numOfSegments)
    (hkb : 0 ≤ s.conf.fixedSegmentSizeKB)
    (hsum : 0 < s.conf.initialChunkRate .lte + s.conf.initialChunkRate .wifi) :
    Repeatable s ↔ s.conf.Divides s.size ∧ (s.exact ∨ s.conf.SetupFits s.size) := by
  constructor
  · rintro ⟨t, u, ht, -, hu, -, hsame, -⟩
    have hset := setUp_of_ok h hnum hkb ht
    refine ⟨?_, hset.fits⟩
    rw [initSegSize_of_ok hu, hset.opened.initSegSize, hset.size, hset.conf] at hsame
    exact (Conf.counted_firstSize h.size hkb hset.given hset.opened.size.1).mp hsame
  · rintro ⟨hdiv, hfit⟩
    have hgiven : s.conf.numOfSegments = 0 → s.conf.fixedSegmentSizeKB ≠ 0 := fun hz =>
      (hdiv.resolve_left fun h => h.1 hz).2.1
    have hcount := hdiv.segmentCount_bounds h.size hnum hkb
    have hn := (Conf.counted_firstSize h.size hkb hgiven (hdiv.firstSize_pos h.size hnum hkb)).mpr hdiv
    have hle : s.conf.numOfSegments ≤ s.size := by
      have hsize := h.size
      rcases hdiv with ⟨-, hle⟩ | ⟨hz, -⟩ <;> omega
    obtain ⟨t, ht, hset⟩ := exists_setUp h hnum hkb (not_stops hsum hle hgiven hfit)
    have hfit' : t.exact ∨ t.conf.SetupFits t.size := by
      rw [hset.exact, hset.size, hset.conf]
      exact hfit.imp id fun hf => hf.counted hn
    have hconf := hset.conf
    obtain ⟨u, hu, hset'⟩ := exists_setUp (hset.blank h) (hconf ▸ hcount.1) (hconf ▸ hkb)
      (not_stops (hconf ▸ hsum) (by rw [hconf, hset.size]; exact hcount.2)
        (fun hz => by rw [hconf] at hz ⊢; exact hgiven (Conf.counted_numOfSegments hz)) hfit')
    have hsame : t.conf.firstSize t.size = s.conf.firstSize s.size := by rw [hset.size, hconf, hn]
    refine ⟨t, u, ht, hset.opened.segmented, hu, ?_, ?_, ?_⟩
    · rw [hset'.opened.segments, hset.opened.segments, hsame, hconf]
      rfl
    · rw [hset'.opened.initSegSize, hset.opened.initSegSize, hsame]
    · rw [hset'.conf, hset.size, hconf]
      exact Conf.counted_segmentCount _ _

end

section

variable (statics : Statics) (conf : Conf) (size : ℤ) (supported : Bool) (status : ℤ)

lemma gbNew_single (h : conf.numConnections = 1) :
    Link.wifi ∉ (gbNew statics conf size supported status).links := by
  simp [Gb.links, gbNew, h]

/-- The set-up is defined, and leaves the same when it is run again, exactly for two connections and
options that divide the file without an overflow. -/
theorem repeatable_iff (hs : 1 ≤ size) (hnum : 0 ≤ conf.numOfSegments)
    (hkb : 0 ≤ conf.fixedSegmentSizeKB) (hrates : ∀ i, 0 ≤ conf.initialChunkRate i)
    (hints : ∀ i, InRange 32 (conf.initialChunkRate i))
    (hsum : 0 < conf.initialChunkRate .lte + conf.initialChunkRate .wifi)
    (hconn : 1 ≤ conf.numConnections ∧ conf.numConnections ≤ 2) :
    Repeatable (gbNew statics conf size supported status) ↔
      conf.numConnections = 2 ∧ conf.Divides size ∧ conf.SetupFits size := by
  by_cases htwo : conf.numConnections = 2
  · have hblank := gbNew_blank false statics conf size supported status hs htwo hrates
      fun i => .inr (hints i)
    have hiff := hblank.repeats_iff hnum hkb hsum
    rw [show Repeatable (gbNew statics conf size supported status) ↔ _ from hiff]
    simp [htwo, gbNew]
  · refine ⟨fun h => ?_, fun h => absurd h.1 htwo⟩
    obtain ⟨t, u, ht, -⟩ := h
    have hone := gbNew_single statics conf size supported status (by omega)
    exact (((wp_iff _).mp (wp_gbInitSegmentSetup_single hone)).1 () t ht).elim

/-- The session is open, and the first connection is to fetch all that is not left for later. -/
def Session.OpensCovered (s : Session) : Prop :=
  ∃ t, gbOpen s = .ok () t ∧ t.plan .wifi = [] ∧
    ∀ b, 0 ≤ b → b < t.size → 0 < cover (t.plan .lte ++ [t.unassigned]) b

/-- With one connection, or a server that knows no ranges, the session is never open: the set-up looks
at a second connection, or is undefined before. -/
theorem single_never_opens (exact : Bool) (h : conf.numConnections = 1 ∨ supported = false) :
    ¬ Session.OpensCovered { gbNew statics conf size supported status with exact := exact } ∧
      ∃ e t, gbOpen { gbNew statics conf size supported status with exact := exact } = .error e t ∧
        (e = .connOutOfBounds ∨
          e = .divByZero ∧ conf.numOfSegments = 0 ∧ conf.fixedSegmentSizeKB = 0 ∨
          e = .overflow ∧ ¬ (exact ∨ conf.SegmentsFit size)) := by
  have hw : wp gbOpen (fun _ _ => False) (fun e _ => e = .connOutOfBounds ∨
      e = .divByZero ∧ conf.numOfSegments = 0 ∧ conf.fixedSegmentSizeKB = 0 ∨
      e = .overflow ∧ ¬ (exact ∨ conf.SegmentsFit size))
      { gbNew statics conf size supported status with exact := exact } := by
    simp only [gbOpen, wp_bind, wp_connAt, wp_whenever, wp_modify]
    refine ⟨fun _ => ⟨fun _ => ?_, fun hs => ?_⟩, fun _ => .inl trivial⟩
    · refine wp_mono (wp_gbInitSegmentSetup_single (by simp [Gb.links])) (fun _ _ h => h.elim)
        fun e t he => he.imp id fun he => he.imp id fun he => ⟨he.1, fun hf => he.2 ?_⟩
      exact hf.imp id fun hf => ⟨hf.bytes, hf.count⟩
    · have hs : supported = true := by simpa [gbNew, freshConn] using hs
      have hone := h.resolve_right (by simp [hs])
      exact wp_gbInitSegmentSetup_single (s := { gbNew statics conf size supported status with exact := exact })
        (gbNew_single statics conf size supported status hone)
  cases hrun : gbOpen { gbNew statics conf size supported status with exact := exact } with
  | ok u t => exact (((wp_iff _).mp hw).1 u t hrun).elim
  | error e t =>
    refine ⟨?_, e, t, rfl, ((wp_iff _).mp hw).2 e t hrun⟩
    rintro ⟨t', ht, -⟩
    rw [hrun] at ht
    cases ht

end

theorem repeatable_iff_of_two : Repeatable (gbNew freshStatics plainConf 16 true 206) ↔
    plainConf.numConnections = 2 ∧ plainConf.Divides 16 ∧ plainConf.SetupFits 16 :=
  repeatable_iff freshStatics plainConf 16 true 206 (by decide) (by decide) (by decide) (by decide)
    (by decide) (by decide) (by decide)

/-- Segments of 1024 bytes. -/
def kilobyteConf : Conf := { plainConf with
  numOfSegments := 0
  fixedSegmentSizeKB := 1 }

/-- A file of 1500 bytes has two segments of 1024 bytes, and the second time two of 750. -/
theorem setup_shrinks : ∃ t u, gbInitSegmentSetup (gbNew freshStatics kilobyteConf 1500 true 206) = .ok () t ∧
    gbInitSegmentSetup t = .ok () u ∧ t.offsetInfo.initSegSize = 1024 ∧ t.conf.numOfSegments = 2 ∧
      u.offsetInfo.initSegSize = 750 := by
  obtain ⟨t, ht, hsize, hcount, hagain⟩ : ∃ t,
      gbInitSegmentSetup (gbNew freshStatics kilobyteConf 1500 true 206) = .ok () t ∧
        t.offsetInfo.initSegSize = 1024 ∧ t.conf.numOfSegments = 2 ∧
          LeadsTo gbInitSegmentSetup (fun u => u.offsetInfo.initSegSize = 750) t :=
    exists_of_ok (by decide +kernel)
  obtain ⟨u, hu, hsize'⟩ := exists_of_ok hagain
  exact ⟨t, u, ht, hu, hsize, hcount, hsize'⟩

theorem single_never_opens_of_one :
    ¬ (gbNew freshStatics { plainConf with numConnections := 1 } 16 true 206).OpensCovered ∧
      ∃ e t, gbOpen (gbNew freshStatics { plainConf with numConnections := 1 } 16 true 206) = .error e t ∧
        (e = .connOutOfBounds ∨
          e = .divByZero ∧ plainConf.numOfSegments = 0 ∧ plainConf.fixedSegmentSizeKB = 0 ∨
          e = .overflow ∧ ¬ (false ∨ { plainConf with numConnections := 1 }.SegmentsFit 16)) :=
  single_never_opens freshStatics { plainConf with numConnections := 1 } 16 true 206 false (.inl rfl)

/-- The second connection of a server without ranges is looked at. -/
theorem single_looks_at_second :
    ∃ t, gbOpen (gbNew freshStatics plainConf 16 false 200) = .error .connOutOfBounds t :=
  ⟨_, rfl⟩

end GreenBag
