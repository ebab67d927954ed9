import GreenBag.Algorithm
import GreenBag.Machines

/-! Download sessions: `gb_open`, `gb_start`, and the steps of the loop of `gb_process` in any order
with those of the setup threads. -/

namespace GreenBag

open Programs Machines Words

/-- The `conn_t` that `gb_new` leaves: the first has been used for the probe, others are zero. -/
def freshConn (i : Link) (supported : Bool) (status : ℤ) : Conn where
  currentbyte := if i = .lte then 1 else 0
  lastbyte := 0
  fd := if i = .lte then .closed else .zero
  enabled := false
  supported := i = .lte && supported
  state := false
  status := if i = .lte then status else 0
  setupThread := .none
  bytesDone := 0
  bytesPerSecond := 0
  ewmaBytesPerSecond := 0
  pipelineRequestsSent := false
  lastSegmentFlag := false
  outstanding := []
  response := none

def emptyOffsetInfo : OffsetInfo where
  segments := []
  tail := none
  numSegments := 0
  segmentCount := 0
  completedSegmentCount := 0
  connection := fun _ => none
  initSegSize := 0
  singleLinkModeFlag := false
  connIdle := fun _ => false
  lastSegOffset := 0
  fastConn := .lte
  remainingChunks := []

def gbNew (statics : Statics) (conf : Conf) (size : ℤ) (supported : Bool) (status : ℤ) :
    Session where
  statics := statics
  conf := conf
  conn := fun i => freshConn i supported status
  offsetInfo := emptyOffsetInfo
  size := size
  bytesDone := 0
  ready := .no
  run := true
  lastDownloadedByte := 0
  inorderOffset := 0
  qosBytes := 0
  qosBytesPerSecond := 0
  numRecoveries := 0
  outfile := []
  trace := []

/-- The size of the first segment; `num_of_segments` is filled in where it is 0. -/
def initSegment : Program ℤ := do
  let s ← get
  let fixedSegmentSizeBytes ← signed 64 (s.conf.fixedSegmentSizeKB * 1024)
  if s.conf.numOfSegments = 0 then do
    let size := if fixedSegmentSizeBytes = 0 then s.size else min s.size fixedSegmentSizeBytes
    let count := if fixedSegmentSizeBytes = 0 then 1 else s.size.tdiv fixedSegmentSizeBytes
    -- the remainder is taken for a size of 0 as well
    ensure .divByZero (fixedSegmentSizeBytes ≠ 0)
    let rest := if s.size.tmod fixedSegmentSizeBytes ≠ 0 then 1 else 0
    let count ← signed 32 (narrow 32 count + rest)
    modify fun s => { s with conf := { s.conf with numOfSegments := count } }
    return size
  else return s.size.tdiv s.conf.numOfSegments

/-- The loop of `gb_init_segment_setup` over the connections. -/
def initConn (i : Link) : Program Unit := do
  let s ← get
  let head ← demand .nullPointer s.offsetInfo.segments.head?
  let last ← demand .nullPointer head.chunkList.getLast?
  whenever (last.lastByte = s.size - 1) (modifyConn i fun c => { c with lastSegmentFlag := true })
  match head.subsegment i with
  | none => modifyConn i fun c => { c with currentbyte := s.size, lastbyte := s.size + 1 }
  | some p => do
    modifyOffsetInfo fun o => { o with connection := Function.update o.connection i (some head.id) }
    let c ← demand .nullPointer p.chunkList.head?
    modifyConn i fun d => { d with currentbyte := c.startByte, lastbyte := c.lastByte }

def gbInitSegmentSetup : Program Unit := do
  modify fun s => { s with offsetInfo := emptyOffsetInfo }
  let size ← initSegment
  modifyOffsetInfo fun o => { o with initSegSize := size }
  let _ ← addNewSegment false (addNewChunk [] 0 size) size
  let s ← get
  addNewSubsegment .lte (s.conf.initialChunkRate .lte) (s.conf.initialChunkRate .wifi)
    s.conf.fixedSubsegmentMode
  each initConn s.links
  let rate ← signed 32 (s.conf.qosKbps * 1000)
  modify fun s => { s with qosBytesPerSecond := rate.tdiv 8, qosBytes := 0 }

def gbOpen : Program Unit := do
  let lte ← connAt .lte
  whenever (¬ lte.supported) (do
    modify fun s => { s with conf := { s.conf with numConnections := 1 } }
    gbInitSegmentSetup)
  gbInitSegmentSetup

/-- `gb_start` starts a setup thread for each connection that seems to have work. A failure of
`pthread_create` is lost, since `ready` is set to 0 at the end. -/
def gbStart (created : Link → Bool) : Program Unit := do
  let s ← get
  each (fun i => do
    let c ← connAt i
    whenever (i ≠ .lte) (modifyConn i fun c => { c with supported := true })
    whenever (c.currentbyte ≤ c.lastbyte) (createSetupThread i (created i))) s.links.reverse
  modify fun s => { s with ready := .no }

inductive Label
  | read (i : Link) (r : Received) (x : Inputs)
  | check (x : CheckInputs)
  | setupRequest (i : Link) (connects : Bool)
  | setupResponse (i : Link) (reply : List UInt8)
  | announce
  | selectFailed
  | stop

namespace Label

/-- What a connection can receive: at most what is asked for and fits the buffer. -/
def Receives (s : Gb) (i : Link) : Received → Prop
  | .bytes n _ => 1 ≤ n ∧ n ≤ s.conf.bufferSize ∧
      n ≤ (s.conn i).lastbyte - (s.conn i).currentbyte + 1
  | _ => True

instance (s : Gb) (i : Link) (r : Received) : Decidable (Receives s i r) := by
  cases r <;> unfold Receives <;> infer_instance

/-- When a step can be taken. The connections are read in any order. -/
def Enabled (s : Session) : Label → Prop
  | .read i r x => i ∈ s.links ∧ (s.conn i).enabled ∧ (s.conn i).fd ≠ .closed ∧
      (∀ j, 0 < x.elapsed j) ∧ Receives s.toGb i r
  | .check _ => s.ready = .no
  | .setupRequest i _ => i ∈ s.links ∧ (s.conn i).setupThread = .created
  | .setupResponse i _ => i ∈ s.links ∧ (s.conn i).setupThread = .requested
  | .announce => True
  | .selectFailed => s.ready = .no
  | .stop => True

instance (s : Session) (l : Label) : Decidable (Enabled s l) := by
  cases l <;> unfold Enabled <;> infer_instance

def exec : Label → Program Unit
  | .read i r x => handle i x r
  | .check x => connCheck x
  | .setupRequest i connects => GreenBag.setupRequest i connects
  | .setupResponse i reply => GreenBag.setupResponse i reply
  | .announce => updateLastDownloadedByte
  | .selectFailed => modify fun s => { s with ready := .error }
  | .stop => modify fun s => { s with run := false }

end Label

/-- A range-supporting server, two connections, and options without negative numbers. The initial rates
are of type `int`. -/
structure Conf.Admissible (exact : Bool) (conf : Conf) : Prop where
  numConnections : conf.numConnections = 2
  rates : ∀ i, 0 ≤ conf.initialChunkRate i
  ints : ∀ i, exact ∨ InRange 32 (conf.initialChunkRate i)
  numOfSegments : 0 ≤ conf.numOfSegments
  fixedSegmentSizeKB : 0 ≤ conf.fixedSegmentSizeKB

def Started (s : Session) : Prop :=
  ∃ exact statics conf size status created, conf.Admissible exact ∧ 1 ≤ size ∧
    (gbOpen *> gbStart created) { gbNew statics conf size true status with exact := exact } = .ok () s

def session : Machine Session Fault Label where
  start := Started
  enabled := Label.Enabled
  exec := Label.exec

instance (s : Session) (l : Label) : Decidable (session.enabled s l) :=
  inferInstanceAs (Decidable (Label.Enabled s l))

end GreenBag
