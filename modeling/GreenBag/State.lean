import GreenBag.Ranges
import GreenBag.Programs
import GreenBag.Doubles
import GreenBag.Words
import Mathlib.Data.Rat.Floor

/-! The data of a download session: `chunk_t`, `segment_t`, `offset_info_t`, `conn_t`, `conf_t` and
`gb_t`. A pointer to a segment is the segment's id, which is never used twice. -/

namespace GreenBag

open Ranges Doubles Words

/-- The two connections; `lte` has index 0 and `wifi` index 1. -/
inductive Link
  | lte
  | wifi
  deriving DecidableEq, Repr

instance : Fintype Link := ⟨{.lte, .wifi}, by intro i; cases i <;> simp⟩

/-- The source's `!index`. -/
def Link.other : Link → Link
  | lte => wifi
  | wifi => lte

lemma Link.eq_or_other (i j : Link) : j = i ∨ j = i.other := by
  cases i <;> cases j <;> simp [Link.other]

lemma Link.other_ne (i : Link) : i.other ≠ i := by cases i <;> simp [Link.other]

@[simp] lemma Link.other_other (i : Link) : i.other.other = i := by cases i <;> rfl

/-- DUAL_LINK_MODE, LTE_SINGLE_LINK_MODE and WIFI_SINGLE_LINK_MODE. -/
inductive LinkMode
  | dual
  | single (i : Link)
  deriving DecidableEq, Repr

structure Chunk where
  startByte : ℤ
  lastByte : ℤ
  size : ℤ
  deriving DecidableEq, Repr

structure Subsegment where
  chunkList : List Chunk
  size : ℤ
  deriving DecidableEq, Repr

structure Segment where
  id : ℕ
  recoverySegment : Bool
  chunkList : List Chunk
  size : ℤ
  subsegment : Link → Option Subsegment

structure OffsetInfo where
  /-- The segments from `head` along `next`. -/
  segments : List Segment
  tail : Option ℕ
  numSegments : ℕ
  segmentCount : ℕ
  completedSegmentCount : ℕ
  connection : Link → Option ℕ
  initSegSize : ℤ
  singleLinkModeFlag : Bool
  connIdle : Link → Bool
  lastSegOffset : ℤ
  fastConn : Link
  remainingChunks : List Chunk

structure Conf where
  numConnections : ℕ
  bufferSize : ℤ
  numOfSegments : ℤ
  fixedSegmentSizeKB : ℤ
  initialChunkRate : Link → ℤ
  qosKbps : ℤ
  fixedSegmentMode : Bool
  fixedSubsegmentMode : Bool
  minimumEnergyMode : Bool
  ewmaFactor : ℚ
  bwFactorForStage : ℚ
  recoveryMode : Bool

/-- A descriptor: still the 0 of a fresh `conn_t`, closed (-1), or a connected socket. -/
inductive Fd
  | zero
  | closed
  | socket
  deriving DecidableEq, Repr

/-- A setup thread: none is running, one was created, or it waits for its response. -/
inductive SetupThread
  | none
  | created
  | requested
  deriving DecidableEq, Repr

/-- A header block, with the status its connection had before. -/
structure Response where
  status : ℤ
  block : List UInt8
  deriving DecidableEq, Repr

structure Conn where
  currentbyte : ℤ
  lastbyte : ℤ
  fd : Fd
  enabled : Bool
  supported : Bool
  state : Bool
  status : ℤ
  setupThread : SetupThread
  bytesDone : ℤ
  bytesPerSecond : ℤ
  ewmaBytesPerSecond : ℤ
  pipelineRequestsSent : Bool
  lastSegmentFlag : Bool
  /-- What the server was asked for on the present socket and has not fully delivered. -/
  outstanding : List Range
  /-- The response whose body is being read. -/
  response : Option Response

inductive Ready
  | no
  | complete
  | error
  deriving DecidableEq, Repr

structure Gb where
  conf : Conf
  conn : Link → Conn
  offsetInfo : OffsetInfo
  size : ℤ
  bytesDone : ℤ
  ready : Ready
  run : Bool
  lastDownloadedByte : ℤ
  inorderOffset : ℤ
  qosBytes : ℤ
  qosBytesPerSecond : ℤ
  numRecoveries : ℕ
  /-- The byte ranges written to the output file, the latest first. -/
  outfile : List Range

inductive Fault
  | nullPointer
  | nullNextSegment
  | danglingPointer
  | connOutOfBounds
  | divByZero
  /-- The result of signed arithmetic does not fit its type. -/
  | overflow
  | exit
  | assertTail
  | assertIdle
  | assertInorder
  | assertLastDownloaded
  | assertGoodput
  deriving DecidableEq, Repr

/-- Where a request is sent from or a response header awaited. -/
inductive Site
  | setupThread
  | subsegment
  | idleConn
  | recoveredConn
  | nextChunk
  | nextSubsegment
  deriving DecidableEq, Repr

/-- The functions whose calls are recorded. -/
inductive Call
  | bnChunk
  | nextSegmentSize
  | nextSubsegment (mode : LinkMode)
  deriving DecidableEq, Repr

/-- What a session does, with the state it does it in. -/
inductive Event
  | wrote (s : Gb) (i : Link) (r : Range)
  | writeFailed (s : Gb) (i : Link)
  | inorder (s : Gb) (held : List Chunk) (value : ℤ)
  | announced (s : Gb) (value : ℤ)
  | get (s : Gb) (site : Site) (i : Link) (first last : ℤ)
  | header (s : Gb) (site : Site) (i : Link) (reply : List UInt8)
  | stolen (s : Gb) (i : Link)
  | called (s : Gb) (f : Call) (i : Link)

inductive LteState
  | idle
  | tail
  | active
  deriving DecidableEq, Repr

/-- The function-local statics of `choose_link_mode`, `get_remaining_playback_time`,
`update_lte_state` and `get_player_state`. -/
structure Statics where
  currentLinkMode : LinkMode
  numEstQmiss : ℕ
  videoDuration : Double
  lteState : LteState
  tailStateStartTime : ℚ
  lastRecordedTime : ℚ
  lastNumVframeDecoded : ℤ
  deriving DecidableEq

/-- What they are when the process starts. -/
def freshStatics : Statics where
  currentLinkMode := .dual
  numEstQmiss := 0
  videoDuration := .num 0
  lteState := .idle
  tailStateStartTime := 0
  lastRecordedTime := 0
  lastNumVframeDecoded := 0

structure Session extends Gb where
  statics : Statics
  /-- The latest first. -/
  trace : List Event
  /-- Integers are read as exact: no ratio is cut to an `int`, and no arithmetic overflows. -/
  exact : Bool := false

abbrev Program := EStateM Fault Session

/-- The connections a `for` loop up to `num_connections` visits. -/
def Gb.links (s : Gb) : List Link := [Link.lte, Link.wifi].take s.conf.numConnections

lemma Gb.mem_links {s : Gb} (h : s.conf.numConnections = 2) (i : Link) : i ∈ s.links := by
  rw [Gb.links, h]
  cases i <;> simp

/-- The source's `gb->conn[i]`, an array of `num_connections` elements. -/
def connAt (i : Link) : Program Conn := do
  let s ← get
  Programs.ensure .connOutOfBounds (i ∈ s.links)
  return s.conn i

def modifyConn (i : Link) (f : Conn → Conn) : Program Unit :=
  modify fun s => { s with conn := Function.update s.conn i (f (s.conn i)) }

def modifyOffsetInfo (f : OffsetInfo → OffsetInfo) : Program Unit :=
  modify fun s => { s with offsetInfo := f s.offsetInfo }

def modifyStatics (f : Statics → Statics) : Program Unit :=
  modify fun s => { s with statics := f s.statics }

def logEvent (e : Gb → Event) : Program Unit :=
  modify fun s => { s with trace := e s.toGb :: s.trace }

/-- A `long long` that is passed as an `int`. -/
def Session.toInt (s : Session) (x : ℤ) : ℤ := if s.exact then x else narrow 32 x

/-- The result of signed arithmetic, undefined where its type does not hold it. -/
def signed (width : ℕ) (x : ℤ) : Program ℤ := do
  let s ← get
  Programs.ensure .overflow (s.exact ∨ InRange width x)
  return x

section Wp

open Programs

variable {s : Session} {crash : Fault → Session → Prop}

@[simp] lemma wp_connAt {post : Conn → Session → Prop} (i : Link) :
    wp (connAt i) post crash s ↔
      (i ∈ s.links → post (s.conn i) s) ∧ (i ∉ s.links → crash .connOutOfBounds s) := by
  simp [connAt]

@[simp] lemma wp_modifyConn {post : Unit → Session → Prop} (i : Link) (f : Conn → Conn) :
    wp (modifyConn i f) post crash s ↔
      post () { s with conn := Function.update s.conn i (f (s.conn i)) } := Iff.rfl

@[simp] lemma wp_modifyOffsetInfo {post : Unit → Session → Prop} (f : OffsetInfo → OffsetInfo) :
    wp (modifyOffsetInfo f) post crash s ↔ post () { s with offsetInfo := f s.offsetInfo } := Iff.rfl

@[simp] lemma wp_modifyStatics {post : Unit → Session → Prop} (f : Statics → Statics) :
    wp (modifyStatics f) post crash s ↔ post () { s with statics := f s.statics } := Iff.rfl

@[simp] lemma wp_logEvent {post : Unit → Session → Prop} (e : Gb → Event) :
    wp (logEvent e) post crash s ↔ post () { s with trace := e s.toGb :: s.trace } := Iff.rfl

@[simp] lemma wp_signed {post : ℤ → Session → Prop} (width : ℕ) (x : ℤ) :
    wp (signed width x) post crash s ↔ (s.exact ∨ InRange width x → post x s) ∧
      (¬ (s.exact ∨ InRange width x) → crash .overflow s) := by
  simp [signed]

lemma signed_eq {width : ℕ} {x : ℤ} (h : s.exact ∨ InRange width x) : signed width x s = .ok x s := by
  obtain ⟨a, t, hx, rfl, rfl⟩ : ∃ a t, signed width x s = .ok a t ∧ a = x ∧ t = s :=
    exists_of_wp ((wp_signed _ _).mpr ⟨fun _ => ⟨rfl, rfl⟩, fun hn => absurd h hn⟩)
  exact hx

lemma Session.toInt_of_inRange {x : ℤ} (h : s.exact ∨ InRange 32 x) : s.toInt x = x := by
  rw [Session.toInt]
  split_ifs with he
  · rfl
  · exact narrow_of_inRange (by decide) (h.resolve_left he)

end Wp

/-- C's conversion of a double to an integer. -/
def truncate (q : ℚ) : ℤ := if 0 ≤ q then ⌊q⌋ else -⌊-q⌋

def Chunk.range (c : Chunk) : Range := ⟨c.startByte, c.lastByte⟩

/-- The segment a pointer points to. -/
def OffsetInfo.deref (o : OffsetInfo) (id : ℕ) : Option Segment :=
  o.segments.find? (fun g => g.id = id)

/-- The segments behind the one a pointer points to. -/
def OffsetInfo.behind (o : OffsetInfo) (id : ℕ) : List Segment :=
  (o.segments.dropWhile (fun g => g.id ≠ id)).tail

def OffsetInfo.modifySegment (o : OffsetInfo) (id : ℕ) (f : Segment → Segment) : OffsetInfo :=
  { o with segments := o.segments.map (fun g => if g.id = id then f g else g) }

def Segment.setSubsegment (g : Segment) (i : Link) (p : Option Subsegment) : Segment :=
  { g with subsegment := Function.update g.subsegment i p }

def Segment.chunks (i : Link) (g : Segment) : List Chunk :=
  (g.subsegment i).elim [] Subsegment.chunkList

/-- What connection `i` has left to fetch, in order: the rest of its current chunk, the other chunks
of its current subsegment, and its chunks in the later segments. -/
def Gb.plan (s : Gb) (i : Link) : List Range :=
  match s.offsetInfo.connection i with
  | none => []
  | some id =>
    match (s.offsetInfo.deref id).bind (·.subsegment i) with
    | none => []
    | some p =>
      ⟨(s.conn i).currentbyte, (s.conn i).lastbyte⟩ ::
        (p.chunkList.tail ++ (s.offsetInfo.behind id).flatMap (Segment.chunks i)).map Chunk.range

/-- The bytes no segment has been made of yet. -/
def Gb.unassigned (s : Gb) : Range := ⟨s.offsetInfo.lastSegOffset + 1, s.size - 1⟩

end GreenBag
