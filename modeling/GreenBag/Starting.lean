import GreenBag.Restarting
import GreenBag.Fitting

/-! `gb_open` and `gb_start` leave a session in which all invariants hold, so they hold in every run. -/

namespace GreenBag

open Programs Ranges Schedules Function Machines Words

/-- A connection on which nothing was done but perhaps starting a thread. -/
structure Conn.Unused (c : Conn) : Prop where
  enabled : c.enabled = false
  asked : c.setupThread ≠ .requested
  state : c.setupThread ≠ .none → c.state
  flag : c.pipelineRequestsSent = false
  outstanding : c.outstanding = []
  goodput : c.bytesPerSecond = 0 ∧ c.bytesDone = 0

/-- The connection stands at the start of its part of the segment, if it has one. -/
def Placed (g : Segment) (s : Gb) (i : Link) : Prop :=
  (g.subsegment i = none → s.Placeholder i) ∧
    ∀ p, g.subsegment i = some p → s.offsetInfo.connection i = some g.id ∧
      ∀ c cs, p.chunkList = c :: cs →
        (s.conn i).currentbyte = c.startByte ∧ (s.conn i).lastbyte = c.lastByte

/-- A session with one segment of `n` bytes, in which nothing was received yet. -/
structure Laid (n : ℤ) (g : Segment) (s : Session) : Prop where
  two : s.conf.numConnections = 2
  rates : ∀ i, 0 ≤ s.conf.initialChunkRate i
  size : 1 ≤ n ∧ n ≤ s.size
  initSegSize : s.offsetInfo.initSegSize = n
  linked : s.offsetInfo.Linked
  segments : s.offsetInfo.segments = [g]
  chunks : g.chunkList = [newChunk 0 n]
  dealt : Dealt [newChunk 0 n] g.subsegment
  remaining : s.offsetInfo.remainingChunks = []
  lastSegOffset : s.offsetInfo.lastSegOffset = n - 1
  unused : ∀ i, (s.conn i).Unused
  trace : s.trace = []
  outfile : s.outfile = []
  bytesDone : s.bytesDone = 0
  offsets : s.inorderOffset = 0 ∧ s.lastDownloadedByte = 0

/-- Each connection stands at the start of its part. -/
structure Opened (n : ℤ) (g : Segment) (s : Session) : Prop extends Laid n g s where
  placed : ∀ i, Placed g s.toGb i

section

variable {n : ℤ} {g : Segment} {s t : Session} {i : Link}

lemma pieceOf_newChunk {a n : ℤ} {c : Chunk} (h : PieceOf [newChunk a n] c) :
    c.Valid ∧ a ≤ c.startByte ∧ c.lastByte < a + n := by
  obtain ⟨hv, d, hd, h₁, h₂⟩ := h
  obtain rfl := List.mem_singleton.mp hd
  simp only [newChunk] at h₁ h₂
  exact ⟨hv, h₁, by omega⟩

namespace Opened

lemma parts_eq (h : Opened n g s) (i : Link) : s.parts i = (g.subsegment i).toList := by
  rw [Gb.parts, h.segments, parts_cons, parts_nil, List.append_nil]

lemma frontier_eq (h : Opened n g s) : s.frontier = n := by
  rw [Gb.frontier, h.lastSegOffset]
  omega

lemma queue_eq (h : Opened n g s) (i : Link) :
    s.queue i = (Segment.chunks i g).map Chunk.range := by
  rw [Gb.queue, h.parts_eq, Segment.chunks]
  cases hp : g.subsegment i with
  | none => rfl
  | some p =>
    obtain ⟨c, cs, hcs⟩ := List.exists_cons_of_ne_nil (h.dealt.pieces i p hp).1
    obtain ⟨h₁, h₂⟩ := ((h.placed i).2 p hp).2 c cs hcs
    simp [queueOf, hcs, h₁, h₂, Chunk.range]

/-- Each byte of the file is either in the only segment or unassigned. -/
lemma balanced (h : Opened n g s) : (s.schedule .rest).Balanced := by
  intro b
  have hn := h.size
  have hd := h.dealt.cover b
  have hq : ∀ i, cover ((s.schedule .rest).queue i) b =
      cover (((g.subsegment i).elim [] Subsegment.chunkList).map Chunk.range) b := fun i => by
    simp only [Gb.schedule, h.queue_eq, Phase.heldFrom, List.map_nil, List.append_nil]
    rfl
  have hu : (s.schedule .rest).unassigned = ⟨n, s.size - 1⟩ := by
    rw [← h.frontier_eq]
    rfl
  have hdone : (s.schedule .rest).done = [] := h.outfile
  have hsize : (s.schedule .rest).size = s.size := rfl
  simp only [Schedule.load, hq, hd, hu, hdone, hsize, cover_nil, List.map_cons, List.map_nil,
    cover_singleton, Chunk.range, newChunk, Range.mem_iff]
  split_ifs <;> omega

lemma lane (h : Opened n g s) (i : Link) :
    Lane s.frontier 0 s.outfile (s.conn i) (s.parts i) := by
  rw [h.parts_eq, h.frontier_eq]
  cases hp : g.subsegment i with
  | none => exact ⟨by simp, by simp, by simp, by simp⟩
  | some p =>
    obtain ⟨hne, hpieces, hasc, hsize⟩ := h.dealt.pieces i p hp
    refine ⟨fun q hq => ?_, fun q qs d ds hq hds => ?_, by simp, by simp⟩
    · obtain rfl := List.mem_singleton.mp hq
      refine ⟨hne, fun c hc => ?_, hasc, hsize ▸ sizeSum_nonneg fun c hc => (hpieces c hc).1⟩
      obtain ⟨hv, h₁, h₂⟩ := pieceOf_newChunk (hpieces c hc)
      exact ⟨hv, h₁, by omega⟩
    · obtain ⟨rfl, rfl⟩ := List.cons.inj hq
      obtain ⟨h₁, h₂⟩ := ((h.placed i).2 p hp).2 d ds hds
      have hv := (hpieces d (by simp [hds])).1
      exact ⟨h₂, h₁.ge, by rw [h₁, h₂]; have := hv.1; have := hv.2; omega,
        fun b hb hlt => by omega⟩

lemma rep (h : Opened n g s) : Rep .rest s.toGb := by
  have hn := h.size
  refine ⟨h.two, h.rates, h.initSegSize.ge.trans' hn.1, h.linked, h.remaining,
    ⟨by rw [h.lastSegOffset]; omega, h.frontier_eq.le.trans hn.2⟩, h.lane, fun i _ => ?_, trivial,
    fun b => ?_, by simp [h.outfile], by simp [h.outfile, h.bytesDone]⟩
  · rw [h.segments]
    cases hp : g.subsegment i with
    | none => rw [((h.placed i).1 hp).1, eq_comm, firstWith_eq_none, parts_eq_nil]; simpa using hp
    | some p => rw [((h.placed i).2 p hp).1, ← List.nil_append [g], firstWith_split rfl hp]
  · rw [h.balanced b]
    split_ifs <;> omega

lemma whole (h : Opened n g s) : Whole .rest s.toGb := by
  refine ⟨h.balanced, fun i _ hp => .inr ((h.placed i).1 ?_), fun hall => ?_⟩
  · rw [h.parts_eq] at hp
    simpa using hp
  · have hn := h.size
    have hb := h.dealt.cover 0
    have hnone : ∀ i, g.subsegment i = none := fun i => by
      by_contra hne
      obtain ⟨p, hp⟩ := Option.ne_none_iff_exists'.mp hne
      have hc := ((h.placed i).2 p hp).1
      rw [(hall i).1] at hc
      cases hc
    simp only [hnone, Option.elim_none, List.map_nil, cover_nil, Finset.sum_const_zero,
      List.map_cons, cover_singleton, Chunk.range, newChunk, Range.mem_iff] at hb
    rw [if_pos (by omega)] at hb
    omega

lemma wire (h : Opened n g s) (i : Link) : Wire .rest s i := by
  have hu := h.unused i
  have hact : ¬ Active .rest s.toGb i := by simp [Active, hu.enabled, Phase.Busy]
  refine ⟨fun _ _ hf => ?_, fun _ hi => absurd hi hact, fun _ => hu.state,
    fun _ hq => absurd hq hu.asked, fun _ hi => ?_, fun _ _ => hu.outstanding,
    fun _ hi => absurd hi hact⟩
  · rw [hu.flag] at hf
    cases hf
  · exact (hi.elim hact hu.asked).elim

lemma inv (h : Opened n g s) : Inv .rest s := by
  have hn := h.size
  refine ⟨h.rep, fun i => ?_, fun _ => h.whole, ?_, ?_, h.wire⟩
  · simp [(h.unused i).goodput]
  · refine ⟨fun _ => by simp [Session.All, h.trace], fun _ => by simp [h.trace], fun _ => ?_,
      fun _ _ => by simp [h.offsets], fun _ => by simp [h.trace]⟩
    rw [h.offsets.1]
    exact ⟨fun b h₀ hb => by omega, by omega, fun hs => by omega⟩
  · exact ⟨by simp [h.trace], fun _ => by simp [h.trace], fun _ => by simp [h.trace],
      by simp [Session.All, h.trace]⟩

end Opened

/-- What `gb_new` leaves, and `gb_init_segment_setup` as well. -/
structure Blank (s : Session) : Prop where
  two : s.conf.numConnections = 2
  rates : ∀ i, 0 ≤ s.conf.initialChunkRate i
  ints : ∀ i, s.exact ∨ InRange 32 (s.conf.initialChunkRate i)
  size : 1 ≤ s.size
  unused : ∀ i, (s.conn i).Unused
  trace : s.trace = []
  outfile : s.outfile = []
  bytesDone : s.bytesDone = 0
  offsets : s.inorderOffset = 0 ∧ s.lastDownloadedByte = 0

lemma gbNew_blank (exact : Bool) (statics : Statics) (conf : Conf) (size : ℤ) (supported : Bool)
    (status : ℤ) (hs : 1 ≤ size) (htwo : conf.numConnections = 2)
    (hrates : ∀ i, 0 ≤ conf.initialChunkRate i)
    (hints : ∀ i, exact ∨ InRange 32 (conf.initialChunkRate i)) :
    Blank { gbNew statics conf size supported status with exact := exact } :=
  ⟨htwo, hrates, hints, hs, fun i => ⟨rfl, by simp [gbNew, freshConn], by simp [gbNew, freshConn],
    rfl, rfl, rfl, rfl⟩, rfl, rfl, rfl, rfl, rfl⟩

lemma Blank.sincere (h : Blank s) : Sincere s.trace := by
  rw [h.trace]
  exact sincere_nil

def Conf.segmentBytes (conf : Conf) : ℤ := conf.fixedSegmentSizeKB * 1024

/-- The size of the first segment, as the options have it. -/
def Conf.firstSize (conf : Conf) (size : ℤ) : ℤ :=
  if conf.numOfSegments = 0 then min size conf.segmentBytes else size.tdiv conf.numOfSegments

/-- What is written to `num_of_segments`, which is an `int`. -/
def Conf.segmentCount (conf : Conf) (size : ℤ) : ℤ :=
  if conf.numOfSegments = 0 then
    narrow 32 (size.tdiv conf.segmentBytes) + if size.tmod conf.segmentBytes ≠ 0 then 1 else 0
  else conf.numOfSegments

/-- What the set-up leaves of the options. -/
def Conf.counted (conf : Conf) (size : ℤ) : Conf := { conf with numOfSegments := conf.segmentCount size }

/-- The size and the number of segments are computed without an overflow. -/
structure Conf.SegmentsFit (conf : Conf) (size : ℤ) : Prop where
  bytes : InRange 64 conf.segmentBytes
  count : conf.numOfSegments = 0 → InRange 32 (conf.segmentCount size)

/-- And so is all of the set-up. -/
structure Conf.SetupFits (conf : Conf) (size : ℤ) : Prop extends Conf.SegmentsFit conf size where
  product : InRange 64 (conf.firstSize size * conf.initialChunkRate .lte)
  sum : InRange 32 (conf.initialChunkRate .lte + conf.initialChunkRate .wifi)
  qos : InRange 32 (conf.qosKbps * 1000)

lemma wp_initSegment {crash : Fault → Session → Prop}
    (hc : s.conf.numOfSegments = 0 → s.conf.fixedSegmentSizeKB = 0 → crash .divByZero s)
    (ho : ¬ (s.exact ∨ s.conf.SegmentsFit s.size) → crash .overflow s) :
    wp initSegment (fun n t => n = s.conf.firstSize s.size ∧
      (s.conf.numOfSegments = 0 → s.conf.fixedSegmentSizeKB ≠ 0) ∧
      (s.exact ∨ s.conf.SegmentsFit s.size) ∧
      t = { s with conf := s.conf.counted s.size }) crash s := by
  simp only [initSegment, wp_bind, wp_get, wp_signed, wp_ite, wp_ensure, wp_modify, wp_pure]
  refine ⟨fun hbytes => ⟨fun hn => ⟨fun hf => ⟨fun hcount => ?_, fun hcount => ho ?_⟩, fun hf => ?_⟩,
    fun hn => ?_⟩, fun hbytes => ho ?_⟩
  · rw [if_neg hf] at hcount ⊢
    rw [if_neg hf]
    refine ⟨(if_pos hn).symm, fun _ hz => hf (by rw [hz, zero_mul]), ?_, ?_⟩
    · by_cases hex : s.exact
      · exact .inl hex
      · refine .inr ⟨hbytes.resolve_left hex, fun _ => ?_⟩
        rw [Conf.segmentCount, if_pos hn]
        exact hcount.resolve_left hex
    · rw [Conf.counted, Conf.segmentCount, if_pos hn]
      rfl
  · rintro (hex | hfit)
    · exact hcount (.inl hex)
    · refine hcount (.inr ?_)
      have hc := hfit.count hn
      rw [Conf.segmentCount, if_pos hn] at hc
      rw [if_neg hf]
      exact hc
  · exact hc hn (by omega)
  · refine ⟨(if_neg hn).symm, fun hz => absurd hz hn, ?_, ?_⟩
    · exact hbytes.imp id fun hb => ⟨hb, fun hz => absurd hz hn⟩
    · rw [Conf.counted, Conf.segmentCount, if_neg hn]
  · exact fun hfit => hbytes (hfit.imp id fun hf => hf.bytes)

lemma Conf.firstSize_bounds {conf : Conf} {size : ℤ} (hs : 1 ≤ size) (hn : 0 ≤ conf.numOfSegments)
    (hf : 0 ≤ conf.fixedSegmentSizeKB) (hkb : conf.numOfSegments = 0 → conf.fixedSegmentSizeKB ≠ 0) :
    0 ≤ conf.firstSize size ∧ conf.firstSize size ≤ size ∧
      (conf.firstSize size = 0 → size < conf.numOfSegments) := by
  rw [Conf.firstSize]
  split_ifs with h₀
  · have := hkb h₀
    rw [Conf.segmentBytes]
    omega
  · rw [Int.tdiv_eq_ediv_of_nonneg (by omega)]
    refine ⟨Int.ediv_nonneg (by omega) hn, Int.ediv_le_self _ (by omega), fun hz => ?_⟩
    by_contra hle
    have hone : 1 ≤ size / conf.numOfSegments := Int.le_ediv_of_mul_le (by omega) (by omega)
    omega

/-- Why the set-up may stop. -/
def Stops (s : Session) (e : Fault) : Prop :=
  e = .divByZero ∧ s.conf.numOfSegments = 0 ∧ s.conf.fixedSegmentSizeKB = 0 ∨
  e = .divByZero ∧ s.conf.initialChunkRate .lte + s.conf.initialChunkRate .wifi = 0 ∨
  e = .exit ∧ s.size < s.conf.numOfSegments ∨
  e = .overflow ∧ ¬ (s.exact ∨ s.conf.SetupFits s.size)

lemma wp_initConn {crash : Fault → Session → Prop} (hs : s.offsetInfo.segments = [g])
    (hc : g.chunkList ≠ []) (i : Link) (hne : ∀ p, g.subsegment i = some p → p.chunkList ≠ [])
    {post : Unit → Session → Prop}
    (hp : ∀ (c : Conn) (flag : Bool), (g.subsegment i = none → c = { s.conn i with
        lastSegmentFlag := flag, currentbyte := s.size, lastbyte := s.size + 1 } →
      post () { s with conn := update s.conn i c }) ∧
      ∀ p d ds, g.subsegment i = some p → p.chunkList = d :: ds → c = { s.conn i with
        lastSegmentFlag := flag, currentbyte := d.startByte, lastbyte := d.lastByte } →
      post () { s with
        conn := update s.conn i c
        offsetInfo := { s.offsetInfo with
          connection := update s.offsetInfo.connection i (some g.id) } }) :
    wp (initConn i) post crash s := by
  have hlast : g.chunkList.getLast? = none → False := fun hn => hc (List.getLast?_eq_none_iff.mp hn)
  simp only [initConn, wp_bind, wp_get, wp_demand, hs, List.head?_cons, Option.some.injEq, forall_eq',
    reduceCtorEq, false_implies, and_true, wp_whenever, wp_modifyConn]
  cases hg : g.subsegment i with
  | none =>
    simp only [wp_modifyConn, update_self, update_idem]
    refine ⟨fun last _ => ⟨fun _ => ?_, fun _ => ?_⟩, fun hn => (hlast hn).elim⟩
    · exact (hp _ true).1 hg rfl
    · exact (hp _ (s.conn i).lastSegmentFlag).1 hg rfl
  | some p =>
    obtain ⟨d, ds, hds⟩ := List.exists_cons_of_ne_nil (hne p hg)
    simp only [wp_bind, wp_modifyOffsetInfo, wp_demand, hds, List.head?_cons, Option.some.injEq,
      forall_eq', reduceCtorEq, false_implies, and_true, wp_modifyConn, update_self, update_idem]
    refine ⟨fun last _ => ⟨fun _ => ?_, fun _ => ?_⟩, fun hn => (hlast hn).elim⟩
    · exact (hp _ true).2 p d ds hg hds rfl
    · exact (hp _ (s.conn i).lastSegmentFlag).2 p d ds hg hds rfl

lemma Laid.sincere (h : Laid n g s) : Sincere s.trace := by
  rw [h.trace]
  exact sincere_nil

lemma Laid.wp_initConn {crash : Fault → Session → Prop} (h : Laid n g s) {i : Link}
    (hnone : s.offsetInfo.connection i = none) {post : Unit → Session → Prop}
    (hp : ∀ t, Laid n g t → t.offsetInfo.connection i.other = s.offsetInfo.connection i.other →
      t.conf = s.conf ∧ t.size = s.size ∧ t.exact = s.exact → Placed g t.toGb i →
      (Placed g s.toGb i.other → Placed g t.toGb i.other) → post () t) :
    wp (initConn i) post crash s := by
  have hunused : ∀ c : Conn, c.enabled = (s.conn i).enabled → c.setupThread = (s.conn i).setupThread →
      c.state = (s.conn i).state → c.pipelineRequestsSent = (s.conn i).pipelineRequestsSent →
      c.outstanding = (s.conn i).outstanding → c.bytesPerSecond = (s.conn i).bytesPerSecond →
      c.bytesDone = (s.conn i).bytesDone → ∀ j, (update s.conn i c j).Unused := by
    intro c h₁ h₂ h₃ h₄ h₅ h₆ h₇ j
    by_cases hj : j = i
    · obtain ⟨u₁, u₂, u₃, u₄, u₅, u₆⟩ := h.unused i
      rw [hj, update_self]
      exact ⟨h₁ ▸ u₁, h₂ ▸ u₂, by rwa [h₂, h₃], h₄ ▸ u₄, h₅ ▸ u₅, by rwa [h₆, h₇]⟩
    · rw [update_of_ne hj]
      exact h.unused j
  refine GreenBag.wp_initConn h.segments (by simp [h.chunks]) i (fun p hp => (h.dealt.pieces i p hp).1)
    fun c flag => ⟨fun hg hc => ?_, fun p d ds hg hds hc => ?_⟩
  · refine hp { s with conn := update s.conn i c }
      { h with unused := by subst hc; exact hunused _ rfl rfl rfl rfl rfl rfl rfl } rfl ⟨rfl, rfl, rfl⟩
      ⟨fun _ => ⟨hnone, by simp [hc], by simp [hc]⟩, fun p hp => ?_⟩ fun ho => ?_
    · rw [hg] at hp
      cases hp
    · simpa only [Placed, Gb.Placeholder, update_of_ne i.other_ne] using ho
  · refine hp _ { h with
        unused := by subst hc; exact hunused _ rfl rfl rfl rfl rfl rfl rfl
        linked := ⟨h.linked.1, h.linked.2, h.linked.3, h.linked.4⟩ }
      (update_of_ne i.other_ne ..) ⟨rfl, rfl, rfl⟩ ⟨fun hn => ?_, fun q hq => ⟨by simp, fun e es he => ?_⟩⟩
      fun ho => ?_
    · rw [hg] at hn
      cases hn
    · obtain rfl := Option.some.inj (hg.symm.trans hq)
      obtain ⟨rfl, rfl⟩ := List.cons.inj (hds.symm.trans he)
      simp [hc]
    · simpa only [Placed, Gb.Placeholder, update_of_ne i.other_ne] using ho

/-- The only segment after the set-up, dealt out by the initial ratios. -/
def firstSegment (conf : Conf) (n : ℤ) : Segment :=
  let share := (n * conf.initialChunkRate .lte).tdiv
    (conf.initialChunkRate .lte + conf.initialChunkRate .wifi)
  { bareSegment 1 false [newChunk 0 n] n with
    subsegment := dealtShare .lte (shareSize .lte share n) (dealtOut share [newChunk 0 n]).1
      (dealtOut share [newChunk 0 n]).2 }

/-- The session once its first segment is in the list. -/
def Session.listed (s : Session) (n : ℤ) : Session := { s with
  offsetInfo := ({ emptyOffsetInfo with initSegSize := n }).push
    (bareSegment 1 false [newChunk 0 n] n) (n - 1) }

lemma wp_addFirst {crash : Fault → Session → Prop} {post : ℕ → Session → Prop} (s : Session) (n : ℤ)
    (hp : post 1 (s.listed n)) : wp (addNewSegment false (addNewChunk [] 0 n) n) post crash
      { s with offsetInfo := { emptyOffsetInfo with initSegSize := n } } := by
  refine wp_addNewSegment ⟨List.Pairwise.nil, by simp [emptyOffsetInfo], rfl, rfl⟩
    (fun hn => by cases hn) fun last hlast => ?_
  have hsorted : sortingChunks (addNewChunk [] 0 n) = [newChunk 0 n] := rfl
  rw [hsorted] at hlast ⊢
  obtain rfl : newChunk 0 n = last := by simpa using hlast
  have hlast : (newChunk 0 n).lastByte = n - 1 := by simp only [newChunk, zero_add]
  rw [hlast]
  exact hp

lemma listed_linked (s : Session) (n : ℤ) : (s.listed n).offsetInfo.Linked :=
  OffsetInfo.Linked.push ⟨List.Pairwise.nil, by simp [emptyOffsetInfo], rfl, rfl⟩ rfl _

lemma listed_atTail (s : Session) (hn : 1 ≤ n) :
    AtTail [] (bareSegment 1 false [newChunk 0 n] n) (s.listed n).toGb := by
  refine ⟨⟨listed_linked s n, rfl, ?_, List.pairwise_singleton _ _, ?_⟩, fun _ i => ⟨fun hc => ?_, ?_⟩⟩
  · simpa [bareSegment] using newChunk_valid hn
  · simp [bareSegment, newChunk]
  · exact absurd rfl hc
  · simp [Gb.parts, Session.listed, OffsetInfo.push, emptyOffsetInfo, bareSegment, parts_cons]

lemma Blank.listed_safe {crash : Fault → Session → Prop} (h : Blank s) (n : ℤ) :
    Safe crash (s.listed n) where
  dangling := fun _ _ hc _ => by simp [Session.listed, OffsetInfo.push, emptyOffsetInfo] at hc
  outOfBounds := fun j hj => absurd (Gb.mem_links h.two j) hj
  empty := fun hn => by simp [Session.listed, OffsetInfo.push, emptyOffsetInfo] at hn

/-- Without goodputs to go by, the first connection counts as the fast one. -/
lemma Blank.fastIndex_listed (h : Blank s) (n : ℤ) : (s.listed n).fastIndex = .lte := by
  have hle : (s.conn .lte).bytesPerSecond ≥ (s.conn .wifi).bytesPerSecond := by
    rw [(h.unused .lte).goodput.1, (h.unused .wifi).goodput.1]
  exact if_pos hle

lemma shareBase_listed (s : Session) (n : ℤ) :
    (s.listed n).shareBase (bareSegment 1 false [newChunk 0 n] n) .lte = n := rfl

lemma shareFits_listed (s : Session) (n r q : ℤ) (fixed : Bool) :
    (s.listed n).ShareFits (bareSegment 1 false [newChunk 0 n] n) .lte r q fixed ↔ PortionFits n r q := by
  cases fixed <;> rfl

lemma shareOf_listed (s : Session) (hn : 0 ≤ n) {r q : ℤ} (hr : 0 ≤ r) (hq : 0 ≤ q) (fixed : Bool) :
    (s.listed n).shareOf (bareSegment 1 false [newChunk 0 n] n) .lte r q fixed =
      (n * r).tdiv (r + q) := by
  have hle : (n * r).tdiv (r + q) ≤ n := by
    by_cases hz : r + q = 0
    · rw [hz, Int.tdiv_zero]
      omega
    · exact (tdiv_share hn hr hq hz).2
  cases fixed with
  | true => rfl
  | false =>
    simp only [Gb.shareOf, shareBase_listed, Bool.false_eq_true, if_false]
    exact if_neg (by simpa [bareSegment] using hle)

lemma Blank.ints_both (h : Blank s) : s.exact ∨ InRange 32 (s.conf.initialChunkRate .lte) ∧
    InRange 32 (s.conf.initialChunkRate .wifi) := by
  by_cases hex : s.exact
  · exact .inl hex
  · exact .inr ⟨(h.ints .lte).resolve_left hex, (h.ints .wifi).resolve_left hex⟩

/-- A segment of no bytes cannot be dealt out. -/
lemma Blank.wp_addNewSubsegment_empty {crash : Fault → Session → Prop} (h : Blank s)
    (hz : s.conf.initialChunkRate .lte + s.conf.initialChunkRate .wifi = 0 →
      crash .divByZero (s.listed 0))
    (ho : ¬ (s.exact ∨ PortionFits 0 (s.conf.initialChunkRate .lte) (s.conf.initialChunkRate .wifi)) →
      crash .overflow (s.listed 0)) (he : crash .exit (s.listed 0)) (fixed : Bool) :
    wp (addNewSubsegment .lte (s.conf.initialChunkRate .lte) (s.conf.initialChunkRate .wifi) fixed)
      (fun _ _ => False) crash (s.listed 0) := by
  have hlinked := listed_linked s 0
  have htail : (s.listed 0).offsetInfo.tail = some 1 := hlinked.tail_eq
  have hderef := hlinked.deref_eq
    (show (s.listed 0).offsetInfo.segments = [] ++ [bareSegment 1 false [newChunk 0 0] 0] from rfl)
  have hsafe : Safe crash (s.listed 0) := h.listed_safe 0
  simp only [addNewSubsegment, wp_bind]
  refine wp_getFastConnIndex_eq hsafe ?_
  simp only [wp_get, wp_follow, htail, Option.some.injEq, forall_eq',
    show (s.listed 0).offsetInfo.deref 1 = _ from hderef, wp_ensure, reduceCtorEq, false_implies, and_true]
  refine ⟨fun _ => ?_, fun hn => absurd hn (by simp [bareSegment])⟩
  have hints := h.ints_both
  refine wp_mono (wp_subsegSize (fun _ => hsafe) .lte (hints.imp id And.left) (hints.imp id And.right) fixed
    hz ?_) ?_ (fun _ _ h => h)
  · rw [shareFits_listed]
    exact ho
  · rintro share t ⟨rfl, -, -, rfl⟩
    rw [shareOf_listed s le_rfl (h.rates _) (h.rates _)]
    simp [dealChunks, bareSegment, he]

/-- The first segment dealt out, in a session where all goodputs are still zero. -/
lemma Blank.wp_addNewSubsegment {crash : Fault → Session → Prop} (h : Blank s) (hn : 1 ≤ n)
    (hle : n ≤ s.size)
    (hc : s.conf.initialChunkRate .lte + s.conf.initialChunkRate .wifi = 0 →
      crash .divByZero (s.listed n))
    (ho : ¬ (s.exact ∨ PortionFits n (s.conf.initialChunkRate .lte) (s.conf.initialChunkRate .wifi)) →
      crash .overflow (s.listed n)) (fixed : Bool) :
    wp (addNewSubsegment .lte (s.conf.initialChunkRate .lte) (s.conf.initialChunkRate .wifi) fixed)
      (fun _ t => Laid n (firstSegment s.conf n) t ∧ (t.conf = s.conf ∧ t.size = s.size ∧
        t.exact = s.exact) ∧ (∀ i, t.offsetInfo.connection i = none) ∧ (s.exact ∨
        PortionFits n (s.conf.initialChunkRate .lte) (s.conf.initialChunkRate .wifi)))
      crash (s.listed n) := by
  have htail := listed_atTail s hn
  have hsafe : Safe crash (s.listed n) := h.listed_safe n
  refine wp_mono (wp_addNewSubsegment_split htail.toIsTail rfl hsafe (fun hn => by cases hn) .lte
    (h.rates _) (h.rates _) h.ints_both hc (by rwa [shareFits_listed]) fun _ hr => htail.weighed hr) ?_
    (fun _ _ h => h)
  rintro _ t ⟨size, fastList, slowList, hfit, rfl, hout, hsplit, rfl⟩
  have hdealt := hsplit.dealt (s.listed n).fastIndex
    ((shareSize_sum ..).trans htail.toIsTail.size)
  rw [shareFits_listed] at hfit
  rw [h.fastIndex_listed, shareOf_listed s (by omega) (h.rates _) (h.rates _)] at hout hdealt ⊢
  obtain rfl : _ = fastList := congrArg Prod.fst hout
  obtain rfl : _ = slowList := congrArg Prod.snd hout
  refine ⟨⟨h.two, h.rates, ⟨hn, hle⟩, rfl, ⟨List.pairwise_singleton _ _, fun g hg => ?_, rfl, rfl⟩, rfl,
    rfl, hdealt, rfl, ?_, h.unused, h.trace, h.outfile, h.bytesDone, h.offsets⟩, ⟨rfl, rfl, rfl⟩,
    fun _ => rfl, hfit⟩
  · obtain rfl := List.mem_singleton.mp hg
    exact le_rfl
  · simp only [Session.dealt, Session.listed, OffsetInfo.push, emptyOffsetInfo]
    split_ifs <;> omega

/-- The first segment is there, with each connection at the start of its part. -/
structure SetUp (s t : Session) : Prop where
  opened : Opened (s.conf.firstSize s.size) (firstSegment s.conf (s.conf.firstSize s.size)) t
  conf : t.conf = s.conf.counted s.size
  size : t.size = s.size
  exact : t.exact = s.exact
  given : s.conf.numOfSegments = 0 → s.conf.fixedSegmentSizeKB ≠ 0
  fits : s.exact ∨ s.conf.SetupFits s.size

lemma Blank.portionFits (h : Blank s) (hn : 0 ≤ n)
    (hfit : s.exact ∨ InRange 64 (n * s.conf.initialChunkRate .lte) ∧
      InRange 32 (s.conf.initialChunkRate .lte + s.conf.initialChunkRate .wifi)) :
    s.exact ∨ PortionFits n (s.conf.initialChunkRate .lte) (s.conf.initialChunkRate .wifi) := by
  by_cases hex : s.exact
  · exact .inl hex
  · exact .inr ((portionFits_iff hn (h.rates _) (h.rates _) ((h.ints _).resolve_left hex)
      ((h.ints _).resolve_left hex)).mpr (hfit.resolve_left hex))

lemma wp_gbInitSegmentSetup {crash : Fault → Session → Prop} (h : Blank s)
    (hnum : 0 ≤ s.conf.numOfSegments) (hkb : 0 ≤ s.conf.fixedSegmentSizeKB)
    (hc : ∀ e u, Stops s e → u.trace = [] → crash e u) :
    wp gbInitSegmentSetup (fun _ t => SetUp s t) crash s := by
  have hover : ∀ u : Session, u.trace = [] → ¬ (s.exact ∨ s.conf.SetupFits s.size) → crash .overflow u :=
    fun u hu hn => hc _ u (.inr (.inr (.inr ⟨rfl, hn⟩))) hu
  simp only [gbInitSegmentSetup, wp_bind, wp_modify]
  refine wp_mono (wp_initSegment (fun hn hf => hc _ _ (.inl ⟨rfl, hn, hf⟩) h.trace)
    fun hn => hover _ h.trace fun hf => hn (hf.imp id Conf.SetupFits.toSegmentsFit)) ?_ (fun _ _ h => h)
  rintro n t ⟨rfl, hgiven, hsegments, rfl⟩
  obtain ⟨h₀, hle, hzero⟩ := Conf.firstSize_bounds h.size hnum hkb hgiven
  simp only [wp_modifyOffsetInfo]
  refine wp_addFirst { s with conf := s.conf.counted s.size } _ ?_
  simp only [wp_get]
  obtain ⟨n, hn⟩ : ∃ n, n = s.conf.firstSize s.size := ⟨_, rfl⟩
  obtain ⟨u, hu⟩ : ∃ u : Session, u = { s with conf := s.conf.counted s.size } := ⟨_, rfl⟩
  have hblank : Blank u := hu ▸ ⟨h.two, h.rates, h.ints, h.size, h.unused, h.trace, h.outfile,
    h.bytesDone, h.offsets⟩
  have hrates : u.conf.initialChunkRate = s.conf.initialChunkRate := by rw [hu]; rfl
  have hexact : u.exact = s.exact := by rw [hu]
  show wp _ _ _ (Session.listed _ (s.conf.firstSize s.size))
  rw [← hn, ← hu]
  have hrate : u.conf.initialChunkRate .lte + u.conf.initialChunkRate .wifi = 0 →
      crash .divByZero (u.listed n) := fun hz =>
    hc _ _ (.inr (.inl ⟨rfl, by rw [← hz, hrates]⟩)) hblank.trace
  have hportion : ¬ (u.exact ∨ PortionFits n (u.conf.initialChunkRate .lte)
      (u.conf.initialChunkRate .wifi)) → crash .overflow (u.listed n) := by
    refine fun hn' => hover _ hblank.trace fun hf => hn' (hblank.portionFits (by omega) ?_)
    rw [hexact, hrates]
    exact hf.imp id fun hf => ⟨hn ▸ hf.product, hf.sum⟩
  by_cases hz : n = 0
  · subst hz
    have hexit := hc .exit (u.listed 0) (.inr (.inr (.inl ⟨rfl, hzero hn.symm⟩))) hblank.trace
    exact wp_mono (hblank.wp_addNewSubsegment_empty hrate hportion hexit _) (fun _ _ h => h.elim)
      (fun _ _ h => h)
  have husize : u.size = s.size := hu ▸ rfl
  refine wp_mono (hblank.wp_addNewSubsegment (by omega) (by omega) hrate hportion _) ?_ (fun _ _ h => h)
  rintro _ w ⟨hlaid, hw, hnone, hfit⟩
  have hlinks : (u.listed n).links = [.lte, .wifi] := by simp [Gb.links, Session.listed, hblank.two]
  rw [hlinks, each_cons, each_cons, each_nil]
  simp only [wp_bind]
  refine hlaid.wp_initConn (hnone .lte) fun w₁ h₁ hc₁ hw₁ hp₁ _ => ?_
  refine h₁.wp_initConn (hc₁.trans (hnone .wifi)) fun w₂ h₂ _ hw₂ hp₂ ho => ?_
  obtain ⟨hconf, hsize, hex⟩ : w₂.conf = u.conf ∧ w₂.size = u.size ∧ w₂.exact = u.exact :=
    ⟨hw₂.1.trans (hw₁.1.trans hw.1), hw₂.2.1.trans (hw₁.2.1.trans hw.2.1),
      hw₂.2.2.trans (hw₁.2.2.trans hw.2.2)⟩
  have hqos : w₂.exact ∨ InRange 32 ((u.listed n).conf.qosKbps * 1000) ↔
      s.exact ∨ InRange 32 (s.conf.qosKbps * 1000) := by
    rw [hex, hu]
    rfl
  simp only [wp_pure, wp_signed]
  rw [hqos]
  refine ⟨fun hq => ⟨?_, ?_, hsize.trans husize, hex.trans hexact, hgiven, ?_⟩, fun hn' => ?_⟩
  · have hsame : firstSegment u.conf n = firstSegment s.conf n := by
      rw [hu]
      rfl
    rw [← hn]
    refine hsame ▸ { h₂ with placed := fun i => ?_ }
    cases i
    · exact ho hp₁
    · exact hp₂
  · exact hconf.trans (by rw [hu])
  · rw [hexact, hrates] at hfit
    by_cases hs : s.exact
    · exact .inl hs
    · have hf := hfit.resolve_left hs
      exact .inr ⟨hsegments.resolve_left hs, hn ▸ hf.product, hf.sum, hq.resolve_left hs⟩
  · exact hover _ h₂.trace fun hf => hn' (hf.imp id Conf.SetupFits.qos)

lemma wp_gbOpen (h : Blank s) (hnum : 0 ≤ s.conf.numOfSegments) (hkb : 0 ≤ s.conf.fixedSegmentSizeKB)
    (hex : s.exact) (hs : (s.conn .lte).supported) :
    wp gbOpen (fun _ t => ∃ n g, Opened n g t) Sane s := by
  simp only [gbOpen, wp_bind, wp_connAt, sane_connOutOfBounds, h.sincere, implies_true, and_true, wp_whenever]
  refine fun _ => ⟨fun hn => absurd hs hn, fun _ => ?_⟩
  refine wp_mono (wp_gbInitSegmentSetup h hnum hkb fun e u he ht => ?_) (fun _ t ht => ⟨_, _, ht.opened⟩)
    (fun _ _ h => h)
  have hsin : Sincere u.trace := by
    rw [ht]
    exact sincere_nil
  rcases he with ⟨rfl, -⟩ | ⟨rfl, -⟩ | ⟨rfl, -⟩ | ⟨rfl, hn⟩
  · exact (sane_divByZero u).mpr hsin
  · exact (sane_divByZero u).mpr hsin
  · exact (sane_exit u).mpr hsin
  · exact absurd (.inl hex) hn

/-- Starting a thread, or failing to, leaves the session as it was opened. -/
lemma Opened.rewire (h : Opened n g s) (c : Conn) (ready : Ready)
    (hcur : c.currentbyte = (s.conn i).currentbyte ∧ c.lastbyte = (s.conn i).lastbyte)
    (hc : c.Unused) : Opened n g { s with conn := update s.conn i c, ready := ready } := by
  refine { h with unused := fun j => ?_, placed := fun j => ?_ } <;> by_cases hj : j = i
  · simpa only [hj, update_self] using hc
  · simpa only [update_of_ne hj] using h.unused j
  · have hp := h.placed i
    subst hj
    simpa only [Placed, Gb.Placeholder, update_self, hcur.1, hcur.2] using hp
  · simpa only [Placed, Gb.Placeholder, update_of_ne hj] using h.placed j

lemma wp_gbStart (h : Opened n g s) (created : Link → Bool) :
    wp (gbStart created) (fun _ t => Opened n g t) Sane s := by
  simp only [gbStart, wp_bind, wp_get, wp_modify]
  refine wp_mono (wp_each h fun i _ t ht => ?_) (fun _ t ht => ?_) (fun _ _ h => h)
  · have hu : ∀ c : Conn, c = { t.conn i with supported := c.supported } → c.Unused := by
      rintro c hc
      obtain ⟨u₁, u₂, u₃, u₄, u₅, u₆⟩ := ht.unused i
      rw [hc]
      exact ⟨u₁, u₂, u₃, u₄, u₅, u₆⟩
    have hcreate : ∀ c : Conn, c = { t.conn i with supported := c.supported } →
        (c.currentbyte ≤ c.lastbyte → wp (createSetupThread i (created i)) (fun _ t => Opened n g t)
          Sane { t with conn := update t.conn i c }) ∧ (¬ c.currentbyte ≤ c.lastbyte →
            Opened n g { t with conn := update t.conn i c }) := by
      intro c hc
      have hcur : c.currentbyte = (t.conn i).currentbyte ∧ c.lastbyte = (t.conn i).lastbyte := by
        rw [hc]
        exact ⟨rfl, rfl⟩
      refine ⟨fun _ => ?_, fun _ => ht.rewire c t.ready hcur (hu c hc)⟩
      simp only [createSetupThread, wp_bind, wp_modifyConn, wp_ite, wp_modify, update_self, update_idem]
      exact ⟨fun _ => ht.rewire _ t.ready hcur { hu c hc with
          asked := by simp
          state := by simp },
        fun _ => ht.rewire _ .error hcur { hu c hc with state := by simp }⟩
    simp only [wp_bind, wp_connAt, sane_connOutOfBounds, ht.sincere, implies_true, and_true,
      wp_whenever, wp_modifyConn]
    refine fun _ => ⟨fun _ => ?_, fun _ => ?_⟩
    · exact hcreate { t.conn i with supported := true } rfl
    · simpa using hcreate (t.conn i) rfl
  · exact { ht with placed := ht.placed }

end

lemma Opened.of_ideal {n : ℤ} {g : Segment} {s : Session} (h : Opened n g s.ideal) : Opened n g s :=
  ⟨⟨h.two, h.rates, h.size, h.initSegSize, h.linked, h.segments, h.chunks, h.dealt, h.remaining,
    h.lastSegOffset, h.unused, h.trace, h.outfile, h.bytesDone, h.offsets⟩, h.placed⟩

lemma opened_of_start {s : Session} (h : session.start s) : ∃ n g, Opened n g s := by
  obtain ⟨statics, conf, size, status, created, hconf, hsize, hrun⟩ := exists_start h
  have hblank := gbNew_blank true statics conf size true status hsize hconf.numConnections hconf.rates
    hconf.ints
  have hw : wp (gbOpen *> gbStart created) (fun _ t => ∃ n g, Opened n g t) Sane
      { gbNew statics conf size true status with exact := true } := by
    rw [wp_seqRight]
    refine wp_mono (wp_gbOpen hblank hconf.numOfSegments hconf.fixedSegmentSizeKB rfl rfl) ?_
      (fun _ _ h => h)
    rintro _ t ⟨n, g, ht⟩
    exact wp_mono (wp_gbStart ht created) (fun _ u hu => ⟨n, g, hu⟩) (fun _ _ h => h)
  obtain ⟨n, g, ho⟩ := ((wp_iff _).mp hw).1 () s.ideal hrun
  exact ⟨n, g, ho.of_ideal⟩

theorem start_inv {s : Session} (h : session.start s) : Inv .rest s := by
  obtain ⟨n, g, ho⟩ := opened_of_start h
  exact ho.inv

/-- The session is reached by some order of steps. -/
def Session.Reached (s : Session) : Prop := Reachable session (fun _ => True) s

/-- Some order of steps crashes and leaves the session in that state. -/
def Session.Crashed (s : Session) (e : Fault) : Prop := Crashes session (fun _ => True) e s

/-- Some order of steps leads to the session, whether it can go on or crashed there. -/
def Session.Seen (s : Session) : Prop := s.Reached ∨ ∃ e, s.Crashed e

/-- No step takes a connection away, whatever the shares are. -/
lemma Session.Reached.two {s : Session} (h : s.Reached) : s.conf.numConnections = 2 := by
  refine h.invariant (I := fun s : Session => s.conf.numConnections = 2) (fun s hs => ?_) fun s l hi _ _ => ?_
  · obtain ⟨n, g, ho⟩ := opened_of_start hs
    exact ho.two
  · refine wp_mono ((follows_exec l).keeps s) (fun _ t ht => ?_) fun _ _ _ => trivial
    rw [ht.conf]
    exact hi

/-! ### Exact integers -/

section

variable {s t : Session} {e : Fault}

lemma ideal_of_exact (h : s.exact) : s.ideal = s := by
  obtain ⟨_, _, _, ex⟩ := s
  obtain rfl : ex = true := h
  rfl

/-- A run with exact integers keeps all invariants. -/
lemma wp_exec_of_exact (h : s.exact → Inv .rest s) (l : Label) (hl : l.Enabled s) :
    wp l.exec (fun _ t => t.exact → Inv .rest t) (fun e t => t.exact → Sane e t) s := by
  by_cases hex : s.exact
  · exact wp_mono (wp_exec (h hex) hex l hl) (fun _ _ ht _ => ht) (fun _ _ ht _ => ht)
  · refine wp_mono ((follows_exec l).keeps s) (fun _ t ht ht' => ?_) fun _ t ht ht' => ?_
    · exact absurd (ht.exact ▸ ht') hex
    · exact absurd (ht.2.exact ▸ ht') hex

lemma Session.Reached.inv_of_exact (h : s.Reached) (hex : s.exact) : Inv .rest s :=
  h.invariant (I := fun s : Session => s.exact → Inv .rest s) (fun _ hs _ => start_inv hs) (fun _ l hi hl _ =>
    wp_mono (wp_exec_of_exact hi l hl) (fun _ _ h => h) (fun _ _ _ => trivial)) hex

lemma Session.Crashed.sane_of_exact (h : s.Crashed e) (hex : s.exact) : Sane e s :=
  h.invariant (I := fun s : Session => s.exact → Inv .rest s) (C := fun e t => t.exact → Sane e t)
    (fun _ hs _ => start_inv hs) (fun _ _ hi hl _ => wp_exec_of_exact hi _ hl) hex

/-- The same session with exact integers. -/
lemma Inv.of_ideal (h : Inv .rest s.ideal) : Inv .rest s where
  rep := h.rep
  goodput := h.goodput
  whole := h.whole
  log := ⟨h.log.1, h.log.2, h.log.3, h.log.4, h.log.5⟩
  told := ⟨h.told.1, h.told.2, h.told.3, h.told.4⟩
  wire := fun i => ⟨(h.wire i).1, (h.wire i).2, (h.wire i).3, (h.wire i).4, (h.wire i).5, (h.wire i).6,
    (h.wire i).7⟩

/-- A run with exact integers went the same way up to a share that overflows. -/
def Session.Diverges (s : Session) : Prop := ∃ t : Session, t.Seen ∧ t.exact ∧ Parted s t

/-- A step of a run beside the same step with exact integers. -/
lemma exec_ideal (h : s.ideal.Reached ∨ s.Diverges) (l : Label) (hl : l.Enabled s) :
    (s.ideal.Reached ∧ l.Enabled s.ideal ∧ SameIdeal l.exec s) ∨ (ending (l.exec s)).Diverges := by
  rcases h with h | ⟨t, ht, hex, hparted⟩
  · have hl : l.Enabled s.ideal := by cases l <;> exact hl
    rcases (follows_exec l).same s with hsame | hparted
    · exact .inl ⟨h, hl, hsame⟩
    · refine .inr ⟨_, ?_, (ending_going (follows_exec l).keeps s.ideal).exact.trans rfl, hparted⟩
      cases hrun : l.exec s.ideal with
      | ok u t => exact .inl (.step l h hl trivial hrun)
      | error e t => exact .inr ⟨e, s.ideal, l, h, hl, trivial, hrun⟩
  · exact .inr ⟨t, ht, hex, hparted.mono (ending_going (follows_exec l).keeps s).trace (List.suffix_refl _)⟩

lemma Session.Reached.ideal_or (h : s.Reached) : s.ideal.Reached ∨ s.Diverges := by
  induction h with
  | start h => exact .inl (.start (started_ideal h))
  | step l _ he ha hs ih =>
    rcases exec_ideal ih l he with ⟨hr, hl, hsame⟩ | hd
    · refine .inl (.step l hr hl trivial (hsame.trans ?_))
      rw [show l.exec _ = _ from hs]
      rfl
    · rw [show l.exec _ = _ from hs] at hd
      exact .inr hd

lemma Session.Crashed.ideal_or (h : s.Crashed e) : s.ideal.Crashed e ∨ s.Diverges := by
  obtain ⟨t, l, hr, he, -, hs⟩ := h
  rcases exec_ideal (Session.Reached.ideal_or hr) l he with ⟨hr, hl, hsame⟩ | hd
  · refine .inl ⟨t.ideal, l, hr, hl, trivial, hsame.trans ?_⟩
    rw [show l.exec _ = _ from hs]
    rfl
  · rw [show l.exec _ = _ from hs] at hd
    exact .inr hd

lemma Session.Diverges.not_fits (h : s.Diverges) : ¬ s.All Event.SharesFit := by
  obtain ⟨-, -, -, e, es, hfit, hs, -⟩ := h
  exact fun ha => hfit (ha e (hs.subset List.mem_cons_self))

/-- Where all shares fit, a run with exact integers leads to the same session. -/
theorem Session.Reached.ideal (h : s.Reached) (hf : s.Fits) : s.ideal.Reached := by
  rcases hf with hex | hf
  · rwa [ideal_of_exact hex]
  · exact h.ideal_or.resolve_right fun hd => hd.not_fits hf

theorem Session.Crashed.ideal (h : s.Crashed e) (hf : s.Fits) : s.ideal.Crashed e := by
  rcases hf with hex | hf
  · rwa [ideal_of_exact hex]
  · exact h.ideal_or.resolve_right fun hd => hd.not_fits hf

/-- The event is one of the run, and integers are read as exact or no share overflows before it. -/
def Session.FitsTo (s : Session) (e : Event) : Prop :=
  ∃ es, e :: es <:+ s.trace ∧ (s.exact ∨ ∀ e' ∈ es, e'.SharesFit)

lemma Session.Fits.before (hf : t.Fits) {l : Label} (ht : session.exec l s = .ok () t) : s.Fits :=
  (((wp_iff _).mp ((follows_exec l).keeps s)).1 () t ht).fits hf

lemma Session.Fits.fitsTo {e : Event} (h : s.Fits) (he : e ∈ s.trace) : s.FitsTo e := by
  obtain ⟨pre, es, htrace⟩ := List.append_of_mem he
  refine ⟨es, ⟨pre, htrace.symm⟩, h.imp id fun ha e' he' => ha e' ?_⟩
  rw [htrace]
  simp [he']

/-- Such an event is one of a run with exact integers. -/
theorem Session.Seen.ideal_of_fitsTo {e : Event} (h : s.Seen) (hf : s.FitsTo e) :
    ∃ t : Session, t.Seen ∧ t.exact ∧ e ∈ t.trace := by
  obtain ⟨es, hes, hf⟩ := hf
  have hmem := hes.subset List.mem_cons_self
  by_cases hex : s.exact
  · exact ⟨s, h, hex, hmem⟩
  have hideal : s.ideal.Seen ∨ s.Diverges := by
    rcases h with h | ⟨e, h⟩
    · exact h.ideal_or.imp .inl id
    · exact h.ideal_or.imp (fun h => .inr ⟨e, h⟩) id
  rcases hideal with h | ⟨t, ht, htex, e₀, es₀, hfit, hs, hts⟩
  · exact ⟨s.ideal, h, rfl, hmem⟩
  refine ⟨t, ht, htex, ?_⟩
  -- of the two events the one that overflows is not the earlier one
  rcases List.suffix_or_suffix_of_suffix hes hs with hle | hle
  · exact hts.subset (hle.subset List.mem_cons_self)
  · rcases List.suffix_cons_iff.mp hle with heq | hle
    · obtain ⟨rfl, rfl⟩ := List.cons.inj heq
      exact hts.subset List.mem_cons_self
    · exact absurd (hf.resolve_left hex e₀ (hle.subset List.mem_cons_self)) hfit

/-- The invariants hold in every reachable state, as long as all shares fit. -/
theorem Session.Reached.inv (h : s.Reached) (hf : s.Fits) : Inv .rest s :=
  .of_ideal ((h.ideal hf).inv_of_exact rfl)

/-- Every crash of a run has a reason. -/
theorem Session.Crashed.sane (h : s.Crashed e) (hf : s.Fits) : Sane e s := by
  have hs := (h.ideal hf).sane_of_exact rfl
  refine ⟨hs.1, ?_⟩
  cases e <;> exact hs.2

/-- The calls that a run makes are sound, also those of a step that crashes. -/
theorem Session.Seen.sincere (h : s.Seen) (hf : s.Fits) : Sincere s.trace := by
  rcases h with h | ⟨e, h⟩
  · exact (h.inv hf).sincere
  · exact (h.sane hf).1

theorem Session.Seen.sound {e : Event} (h : s.Seen) (hf : s.FitsTo e) : e.Sound := by
  obtain ⟨t, ht, hex, he⟩ := h.ideal_of_fitsTo hf
  exact (ht.sincere (.inl hex)).sound e he

end

/-- A whole run: the session is opened, its threads are started, and the steps are taken. -/
def run (conf : Conf) (size : ℤ) (ls : List Label) : EStateM.Result (Option Fault) Session Unit :=
  match (gbOpen *> gbStart fun _ => true) (gbNew freshStatics conf size true 206) with
  | .ok _ s => perform session ls s
  | .error e s => .error (some e) s

def Reaches {ε : Type} (P : Session → Prop) : EStateM.Result ε Session Unit → Prop
  | .ok _ s => P s
  | .error _ _ => False

/-- The program leads from the session to one with the property. -/
def LeadsTo (x : Program Unit) (P : Session → Prop) (s : Session) : Prop := Reaches P (x s)

/-- What a program returns. -/
def result {α : Type} (x : Program α) (s : Session) : Option α :=
  match x s with
  | .ok a _ => some a
  | .error _ _ => none

lemma exists_of_result {α : Type} {x : Program α} {s : Session} {a : α} (h : result x s = some a) :
    ∃ t, x s = .ok a t := by
  rw [result] at h
  split at h
  · rename_i b t hb
    cases h
    exact ⟨t, hb⟩
  · cases h

/-- The session a program leaves. -/
def after {α : Type} (x : Program α) (s : Session) : Session :=
  match x s with
  | .ok _ t => t
  | .error _ t => t

lemma ok_of_result {α : Type} {x : Program α} {s : Session} {a : α} (h : result x s = some a) :
    x s = .ok a (after x s) := by
  obtain ⟨t, ht⟩ := exists_of_result h
  rw [after, ht]

def FailsWith (e : Fault) (P : Session → Prop) : EStateM.Result (Option Fault) Session Unit → Prop
  | .ok _ _ => False
  | .error e' s => e' = some e ∧ P s

instance {ε : Type} (P : Session → Prop) [DecidablePred P] (r : EStateM.Result ε Session Unit) :
    Decidable (Reaches P r) := by
  cases r <;> unfold Reaches <;> infer_instance

instance (x : Program Unit) (P : Session → Prop) [DecidablePred P] : DecidablePred (LeadsTo x P) :=
  fun s => inferInstanceAs (Decidable (Reaches P (x s)))

instance (e : Fault) (P : Session → Prop) [DecidablePred P]
    (r : EStateM.Result (Option Fault) Session Unit) : Decidable (FailsWith e P r) := by
  cases r <;> unfold FailsWith <;> infer_instance

instance (conf : Conf) : Decidable (conf.Admissible false) :=
  decidable_of_iff (conf.numConnections = 2 ∧ (∀ i, 0 ≤ conf.initialChunkRate i) ∧
      (∀ i, InRange 32 (conf.initialChunkRate i)) ∧ 0 ≤ conf.numOfSegments ∧ 0 ≤ conf.fixedSegmentSizeKB)
    ⟨fun ⟨h₁, h₂, h₃, h₄, h₅⟩ => ⟨h₁, h₂, fun i => .inr (h₃ i), h₄, h₅⟩,
      fun ⟨h₁, h₂, h₃, h₄, h₅⟩ => ⟨h₁, h₂, fun i => (h₃ i).resolve_left (by decide), h₄, h₅⟩⟩

section

variable (conf : Conf) (size : ℤ) (ls : List Label) {P : Session → Prop}

lemma run_start {s : Session} (hc : conf.Admissible false) (hs : 1 ≤ size)
    (h : (gbOpen *> gbStart fun _ => true) (gbNew freshStatics conf size true 206) = .ok () s) :
    s.Reached :=
  .start ⟨false, freshStatics, conf, size, 206, fun _ => true, hc, hs, h⟩

lemma exists_of_ok {ε : Type} {r : EStateM.Result ε Session Unit} (h : Reaches P r) :
    ∃ t, r = .ok () t ∧ P t := by
  cases r with
  | ok u t => exact ⟨t, rfl, h⟩
  | error e t => exact h.elim

lemma exists_of_reaches (hc : conf.Admissible false) (hs : 1 ≤ size) (h : Reaches P (run conf size ls)) :
    ∃ s : Session, s.Reached ∧ P s := by
  unfold run at h
  split at h
  · rename_i u s hstart
    cases hp : perform session ls s with
    | ok u t =>
      rw [hp] at h
      exact ⟨t, perform_reachable ls (fun _ _ => trivial) (run_start conf size hc hs hstart) hp, h⟩
    | error e t =>
      rw [hp] at h
      exact h.elim
  · exact h.elim

lemma exists_of_failsWith {e : Fault} (hc : conf.Admissible false) (hs : 1 ≤ size)
    (hstart : Reaches (fun _ => True) (run conf size []))
    (h : FailsWith e P (run conf size ls)) :
    ∃ s : Session, s.Crashed e ∧ P s := by
  unfold run at h hstart
  split at h
  · rename_i u s hs'
    cases hp : perform session ls s with
    | ok u t =>
      rw [hp] at h
      exact h.elim
    | error e' t =>
      rw [hp] at h
      obtain ⟨rfl, hP⟩ := h
      exact ⟨t, perform_crashes ls (fun _ _ => trivial) (run_start conf size hc hs hs') hp, hP⟩
  · rename_i e' s hs'
    rw [hs'] at hstart
    exact hstart.elim

end

/-- Two segments, each shared equally, without recovery and without regard to energy. -/
def plainConf : Conf where
  numConnections := 2
  bufferSize := 4096
  numOfSegments := 2
  fixedSegmentSizeKB := 0
  initialChunkRate := fun _ => 1
  qosKbps := 8
  fixedSegmentMode := true
  fixedSubsegmentMode := true
  minimumEnergyMode := false
  ewmaFactor := 1 / 2
  bwFactorForStage := 1
  recoveryMode := false

/-- Variable segment sizes, and all of the first segment for the first connection. -/
def lteFirstConf : Conf := { plainConf with
  initialChunkRate := fun i => if i = .lte then 1 else 0
  fixedSegmentMode := false }

/-- Three segments, with recovery. -/
def recoveringConf : Conf := { plainConf with numOfSegments := 3, recoveryMode := true }

/-- The header block `HTTP/1.1 206`. -/
def okReply : List UInt8 := [72, 84, 84, 80, 47, 49, 46, 49, 32, 50, 48, 54, 10, 10]

/-- A second for each connection, a player at the start, and a server that answers. -/
def calmInputs : Inputs where
  elapsed := fun _ => 1
  sample := fun _ => ⟨1, none, 0⟩
  connects := fun _ => true
  reply := fun _ => okReply

/-- The player is so far ahead that all data come too late. -/
def lateInputs : Inputs := { calmInputs with sample := fun _ => ⟨1, none, 1000⟩ }

/-- The delay has passed, and threads can be created. -/
def againInputs : CheckInputs where
  timedOut := fun _ => true
  created := fun _ => true
  connects := fun _ => true
  reply := fun _ => okReply

/-- The setup thread of a connection runs to its end. -/
def upSteps (i : Link) : List Label := [.setupRequest i true, .setupResponse i okReply]

def readStep (i : Link) (n : ℤ) : Label := .read i (.bytes n true) calmInputs

/-- The first connection recovers what the second one has left. -/
def retakingSteps : List Label :=
  upSteps .lte ++ upSteps .wifi ++ [readStep .wifi 1, .read .lte (.bytes 600 true) lateInputs]

end GreenBag
