import GreenBag.Planning

/-! `algo_general`: handling the bytes a connection received, and restarting connections. -/

namespace GreenBag

open Programs Ranges

/-- What a `read` returns, and whether all of it could be written to the output file. -/
inductive Received
  | error
  | closed
  | bytes (n : ℤ) (written : Bool)
  deriving DecidableEq, Repr

def exceptionForRead (i : Link) (closed : Bool) : Program Unit := do
  let lte ← connAt .lte
  whenever (closed ∧ ¬ lte.supported) (modify fun s => { s with ready := .complete })
  modifyConn i fun c => { c with enabled := false }
  connDisconnect i

/-- The bytes of a body that were read are not outstanding any more. -/
def consume (n : ℤ) : List Range → List Range
  | [] => []
  | r :: rest => if r.last < r.first + n then rest else ⟨r.first + n, r.last⟩ :: rest

/-- A short write counts as nothing written. -/
def writeReceivedData (i : Link) (n : ℤ) (written : Bool) : Program Unit := do
  let c ← connAt i
  if written then do
    logEvent (.wrote · i ⟨c.currentbyte, c.currentbyte + n - 1⟩)
    modify fun s => { s with
      bytesDone := s.bytesDone + n
      outfile := ⟨c.currentbyte, c.currentbyte + n - 1⟩ :: s.outfile }
    modifyConn i fun c => { c with currentbyte := c.currentbyte + n, bytesDone := c.bytesDone + n }
  else do
    logEvent (.writeFailed · i)
    modify fun s => { s with ready := .error }

def checkingLastSubseg (i : Link) : Program Unit := do
  let s ← get
  let g ← follow (s.offsetInfo.connection i)
  let p ← demand .nullPointer (g.subsegment i)
  let last ← demand .nullPointer p.chunkList.getLast?
  whenever (last.lastByte = s.size - 1) (modifyConn i fun c => { c with lastSegmentFlag := true })

def checkingLastSegment : Program Unit := do
  let s ← get
  each (fun i => do
    let s ← get
    match (s.offsetInfo.connection i).bind
        (s.offsetInfo.getFirstNextSegmentAssignedToConn · i) with
    | none => pure ()
    | some id => do
      let g ← follow (some id)
      let last ← demand .nullPointer g.chunkList.getLast?
      whenever (last.lastByte = s.size - 1)
        (modifyConn i fun c => { c with lastSegmentFlag := true })) s.links

/-- Point the connection to its part of a segment, at the first chunk of it. -/
def moveTo (i : Link) (id : ℕ) : Program Unit := do
  let g ← follow (some id)
  let p ← demand .nullPointer (g.subsegment i)
  modifyOffsetInfo fun o => { o with connection := Function.update o.connection i (some id) }
  let c ← demand .nullPointer p.chunkList.head?
  modifyConn i fun d => { d with currentbyte := c.startByte, lastbyte := c.lastByte }
  checkingLastSubseg i

def returnDownloadingForIdleConn (i : Link) (reply : List UInt8) : Program Unit := do
  let s ← get
  whenever (s.offsetInfo.connection i = none) (do
    let tail ← follow s.offsetInfo.tail
    moveTo i tail.id
    let received ← gbReceiveHttpHeaderResponse .idleConn i reply
    whenever received (do
      modifyConn i fun c => { c with enabled := true, state := false, pipelineRequestsSent := false }
      modifyOffsetInfo fun o => { o with connIdle := Function.update o.connIdle i false }))

def returnDownloadingForRecoveredConn (i : Link) (connects : Bool) (reply : List UInt8) :
    Program Unit := do
  let s ← get
  let tail ← follow s.offsetInfo.tail
  match tail.subsegment i with
  | some p => do
    let connected ← connInit i connects
    ensure .exit connected
    moveTo i tail.id
    let _ ← sendHttpRequestForSubsegment i (some p) connects
    let received ← gbReceiveHttpHeaderResponse .recoveredConn i reply
    whenever received (modifyConn i fun c =>
      { c with enabled := true, state := false, pipelineRequestsSent := false })
  | none => do
    modifyOffsetInfo fun o => { o with connection := Function.update o.connection i none }
    modifyConn i fun c => { c with currentbyte := 1, lastbyte := 0 }

/-- True where the chunk just read was the last of its subsegment. -/
def finishLastChunkOfSubseg (i : Link) (reply : List UInt8) : Program Bool := do
  let s ← get
  let g ← follow (s.offsetInfo.connection i)
  let p ← demand .nullPointer (g.subsegment i)
  ensure .nullPointer (p.chunkList ≠ [])
  modifyOffsetInfo (·.modifySegment g.id
    (·.setSubsegment i (some { p with chunkList := p.chunkList.tail })))
  match p.chunkList.tail with
  | [] => return true
  | c :: _ => do
    modifyConn i fun d => { d with currentbyte := c.startByte, lastbyte := c.lastByte }
    let received ← gbReceiveHttpHeaderResponse .nextChunk i reply
    whenever received (modifyConn i fun c => { c with enabled := true, state := false })
    return false

/-- Whether a connection without further requests is closed when its subsegment is complete. -/
def closesFinished (i : Link) : Program Bool := do
  let s ← get
  let c ← connAt i
  if c.lastbyte = s.size - 1 then return true
  else do
    let d ← connAt i.other
    return d.lastbyte = s.size - 1 ∨ (s.offsetInfo.singleLinkModeFlag ∧ i = .lte)

def finishDownloadingSubseg (i : Link) (reply : List UInt8) : Program Unit := do
  let s ← get
  let c ← connAt i
  if c.pipelineRequestsSent then do
    let received ← gbReceiveHttpHeaderResponse .nextSubsegment i reply
    whenever received (modifyConn i fun c => { c with enabled := true, state := false })
    let g ← follow (s.offsetInfo.connection i)
    let next ← demand .nullNextSegment (s.offsetInfo.getFirstNextSegmentAssignedToConn g.id i)
    moveTo i next
    whenever (s.offsetInfo.getFirstNextSegmentAssignedToConn next i = none)
      (modifyConn i fun c => { c with pipelineRequestsSent := false })
  else do
    let closes ← closesFinished i
    modifyOffsetInfo fun o => { o with connection := Function.update o.connection i none }
    whenever closes (connDisconnect i)
  modifyOffsetInfo fun o => o.deleteFinishedHeadSegments o.segments.length

def sendPipelineReqThrsFactor : ℤ := 10

/-- Planning the next segment and sending the requests for it. -/
def planAhead (i : Link) (x : Inputs) : Program Unit := do
  let planned ← gbSetupNextSegment i x
  whenever planned (do
    let s ← get
    let tail ← follow s.offsetInfo.tail
    let _ ← sendHttpRequestForSubsegment i (tail.subsegment i) (x.connects i)
    if tail.recoverySegment then
      returnDownloadingForRecoveredConn i.other (x.connects i.other) (x.reply .recoveredConn)
    else do
      let sent ← sendHttpRequestForSubsegment i.other (tail.subsegment i.other) (x.connects i.other)
      whenever sent (returnDownloadingForIdleConn i.other (x.reply .idleConn))
    checkingLastSegment)

/-- What follows when the current chunk of the connection was read to its end. -/
def finishChunk (i : Link) (x : Inputs) : Program Unit := do
  modifyConn i fun c => { c with enabled := false }
  let finished ← finishLastChunkOfSubseg i (x.reply .nextChunk)
  whenever finished (do
    let s ← get
    let g ← follow (s.offsetInfo.connection i)
    deleteSubsegment g.id i
    finishDownloadingSubseg i (x.reply .nextSubsegment)
    updateInorderOffset [])

def handleBytes (i : Link) (n : ℤ) (written : Bool) (x : Inputs) : Program Unit := do
  let c ← connAt i
  let remaining := c.lastbyte - c.currentbyte + 1
  modifyConn i fun c => { c with outstanding := consume n c.outstanding }
  writeReceivedData i n written
  let s ← get
  let g ← follow (s.offsetInfo.connection i)
  let p ← demand .nullPointer (g.subsegment i)
  whenever ((p.size.tdiv sendPipelineReqThrsFactor > remaining ∨ remaining ≤ n) ∧
    ¬ (s.conn i).pipelineRequestsSent ∧ ¬ s.offsetInfo.connIdle i) (planAhead i x)
  if remaining ≤ n then finishChunk i x else updateInorderOffset []

/-- The body of the loop of `algo_general` for a connection that is ready to be read. -/
def handle (i : Link) (x : Inputs) : Received → Program Unit
  | .error => exceptionForRead i false
  | .closed => exceptionForRead i true
  | .bytes n written => handleBytes i n written x

/-- What `check_conn` learns from outside. -/
structure CheckInputs where
  /-- Whether `reconnect_delay` has passed. -/
  timedOut : Link → Bool
  /-- Whether `pthread_create` succeeds. -/
  created : Link → Bool
  connects : Link → Bool
  reply : Link → List UInt8

/-- Wait for the setup thread, if it still runs. -/
def joinSetupThread (i : Link) (connects : Bool) (reply : List UInt8) : Program Unit := do
  let c ← connAt i
  whenever (c.setupThread = .created) (setupRequest i connects)
  let c ← connAt i
  whenever (c.setupThread = .requested) (setupResponse i reply)

def createSetupThread (i : Link) (created : Bool) : Program Unit := do
  modifyConn i fun c => { c with state := true }
  if created then modifyConn i fun c => { c with setupThread := .created }
  else modify fun s => { s with ready := .error }

def checkConn (x : CheckInputs) (i : Link) : Program Unit := do
  let c ← connAt i
  whenever (¬ c.enabled ∧ c.currentbyte < c.lastbyte) (do
    if c.state then
      whenever (x.timedOut i) (do
        joinSetupThread i (x.connects i) (x.reply i)
        modifyConn i fun c => { c with state := false })
    else do
      joinSetupThread i (x.connects i) (x.reply i)
      createSetupThread i (x.created i))

/-- `algo_general` from `conn_check` on. -/
def connCheck (x : CheckInputs) : Program Unit := do
  let s ← get
  each (checkConn x) s.links
  let s ← get
  whenever (s.bytesDone = s.size) (modify fun s => { s with ready := .complete })

end GreenBag
