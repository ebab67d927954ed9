import GreenBag.Subsegments
import GreenBag.Inorder
import GreenBag.Connections
import GreenBag.Energy

/-! Sizing the next segment, and recovery: taking over what the other connection has left. -/

namespace GreenBag

open Programs Ranges Words

def Conn.updateGoodput (c : Conn) (elapsed ewmaFactor : ℚ) (first : Bool) : Conn :=
  let goodput := truncate (c.bytesDone / elapsed)
  if c.bytesDone = 0 then c
  else { c with
    bytesPerSecond := goodput
    ewmaBytesPerSecond := if first then goodput
      else truncate ((1 - ewmaFactor) * c.ewmaBytesPerSecond + ewmaFactor * goodput) }

/-- `gb_update_goodput` with `reset_bytes_done_start_time`. -/
def gbUpdateGoodput (elapsed : Link → ℚ) : Program Unit := do
  modify fun s => { s with conn := fun i => if i ∈ s.links then
    { (s.conn i).updateGoodput (elapsed i) s.conf.ewmaFactor
        (s.offsetInfo.completedSegmentCount = 0) with bytesDone := 0 } else s.conn i }
  let fast ← getFastConnIndex
  modifyOffsetInfo fun o => { o with fastConn := fast }

/-- The source's argument `energy_mode` is 0 in every call. -/
def gbDetermineNextSegmentPolicy (held : List Chunk) : Program ℤ := do
  let lte ← connAt .lte
  let wifi ← connAt .wifi
  updateInorderOffset held
  let s ← get
  let goodput := narrow 32 (lte.bytesPerSecond + wifi.bytesPerSecond)
  let size := if s.qosBytes ≠ 0 then
      truncate ((s.inorderOffset - s.qosBytes + 1 : ℤ) / (s.qosBytesPerSecond : ℚ) * goodput *
        s.conf.bwFactorForStage)
    else 0
  return if size < s.offsetInfo.initSegSize then s.offsetInfo.initSegSize else size

/-- The size wanted, or all that is left where less than `init_seg_size` would remain. -/
def Gb.clipSegSize (s : Gb) (size : ℤ) : ℤ :=
  if s.size - 1 - (s.offsetInfo.lastSegOffset + size) < s.offsetInfo.initSegSize then
    s.size - s.offsetInfo.lastSegOffset - 1
  else size

def gbDetermineNextSegmentSize (i : Link) : Program ℤ := do
  logEvent (.called · .nextSegmentSize i)
  let s ← get
  let wanted ← (if s.conf.fixedSegmentMode then
      pure (if s.isUsingOnlyOneLink then s.offsetInfo.initSegSize.tdiv 2
        else s.offsetInfo.initSegSize)
    else gbDetermineNextSegmentPolicy [])
  let s ← get
  let newSegSize := s.clipSegSize wanted
  let remaining := s.offsetInfo.remainingChunks
  let size := newSegSize + (remaining.map Chunk.size).sum
  modifyOffsetInfo fun o => { o with remainingChunks := [] }
  if newSegSize ≠ 0 then do
    let start ← getStartByteNextSegment
    let _ ← addNewSegment false (addNewChunk remaining start newSegSize) size
    return size
  else do
    whenever (remaining ≠ []) (addNewSegment false remaining size *> pure ())
    return size

def gbDetermineNextSubsegment (i : Link) (mode : LinkMode) : Program Unit := do
  logEvent (.called · (.nextSubsegment mode) i)
  let s ← get
  match mode with
  | .single j => addNewSubsegment j 1 0 s.conf.fixedSubsegmentMode
  | .dual =>
    if s.conf.fixedSubsegmentMode then
      addNewSubsegment i (s.conf.initialChunkRate i) (s.conf.initialChunkRate i.other) true
    else do
      let c ← connAt i
      let d ← connAt i.other
      addNewSubsegment i c.bytesPerSecond d.bytesPerSecond false

/-- 500 bytes, the source's `very_small_portion_threshold`. -/
def verySmallPortionThreshold : ℤ := 500

/-- The current segment of the other connection, if it has a part in it and both links are used. -/
def segmentToRecover (i : Link) : Program (Option Segment) := do
  let s ← get
  if s.offsetInfo.singleLinkModeFlag then return none
  else
    match s.offsetInfo.connection i.other with
    | none => return none
    | some id => do
      let g ← follow (some id)
      return if (g.subsegment i.other).isSome then some g else none

/-- `decide_recovery_mode` for a connection that could recover the segment. -/
def recoveryPays (i : Link) (x : Inputs) (other : Segment) : Program Bool := do
  let s ← get
  let fast ← getFastConnIndex
  if i ≠ fast then return false
  else do
    let own ← follow (s.offsetInfo.connection i)
    if own.recoverySegment && other.recoverySegment then return false
    else do
      let bn ← getBnChunkInfo i
      if 0 < (x.sample .recovery).position ∧ verySmallPortionThreshold < bn.remaining then
        doesQosMissUntilBnChunk i (x.sample .recoveryMiss)
      else return false

/-- The player's state is read but not used. -/
def decideRecoveryMode (i : Link) (x : Inputs) : Program Bool := do
  let _ ← getPlayerState (x.sample .recovery)
  let other ← segmentToRecover i
  match other with
  | none => return false
  | some other => recoveryPays i x other

/-- The loop that strips the segments behind the current one of their subsegments for `o`. -/
def gatherChunks (o : Link) : ℕ → Option ℕ → List Chunk → Program (List Chunk)
  | _, none, chunkList => pure chunkList
  | 0, some _, _ => throw .danglingPointer
  | n + 1, some id, chunkList => do
    let g ← follow (some id)
    let p ← demand .nullPointer (g.subsegment o)
    deleteSubsegment id o
    let s ← get
    let next := s.offsetInfo.getFirstNextSegmentAssignedToConn id o
    modifyOffsetInfo fun o => o.deleteFinishedHeadSegment.getD o
    gatherChunks o n next (chunkList ++ p.chunkList)

/-- Take from `o` all it has left, the missing part of its current chunk first. -/
def detachChunks (o : Link) : Program (List Chunk) := do
  let s ← get
  let g ← follow (s.offsetInfo.connection o)
  let p ← demand .nullPointer (g.subsegment o)
  let head ← demand .nullPointer p.chunkList.head?
  let start := (s.conn o).currentbyte
  deleteSubsegment g.id o
  let s' ← get
  let next := s'.offsetInfo.getFirstNextSegmentAssignedToConn g.id o
  modifyOffsetInfo fun o => o.deleteFinishedHeadSegment.getD o
  gatherChunks o s.offsetInfo.segments.length next
    (⟨start, head.lastByte, head.lastByte - start + 1⟩ :: p.chunkList.tail)

def recoverOutorderPortionAndNextSegment (i : Link) : Program Unit := do
  let chunkList ← detachChunks i.other
  let s ← get
  let wanted ← (if s.conf.fixedSegmentMode then pure s.offsetInfo.initSegSize
    else gbDetermineNextSegmentPolicy chunkList)
  let s ← get
  let additive := s.clipSegSize wanted
  let chunkList ← (if additive ≠ 0 then do
      let start ← getStartByteNextSegment
      pure (addNewChunk chunkList start additive)
    else pure chunkList)
  let id ← addNewSegment true chunkList (chunkList.map Chunk.size).sum
  modifyOffsetInfo fun o => { o with connection := Function.update o.connection i.other (some id) }

def performRecovery (i : Link) (x : Inputs) : Program Bool := do
  let s ← get
  if s.conf.recoveryMode then do
    let recover ← decideRecoveryMode i x
    if recover then do
      logEvent (.stolen · i.other)
      modifyConn i.other fun c => { c with enabled := false }
      connDisconnect i.other
      recoverOutorderPortionAndNextSegment i
      gbDetermineNextSubsegment i .dual
      modify fun s => { s with numRecoveries := s.numRecoveries + 1 }
      return true
    else return false
  else return false

/-- What `gb_setup_next_segment` does where nothing was recovered. -/
def setupFreshSegment (i : Link) (x : Inputs) : Program Bool := do
  gbUpdateGoodput x.elapsed
  let size ← gbDetermineNextSegmentSize i
  if size = 0 then return false
  else do
    let s ← get
    let mode ← (if s.conf.minimumEnergyMode ∧ s.offsetInfo.completedSegmentCount > 0 ∧
        s.conf.numConnections ≠ 1 then chooseLinkMode i x else pure .dual)
    gbDetermineNextSubsegment i mode
    return true

/-- With minimum energy and the whole file planned, a connection that is ahead plans nothing. -/
def Gb.allPlanned (s : Gb) (tail : Segment) : Bool :=
  s.conf.minimumEnergyMode && tail.chunkList.getLast?.any (fun c => c.lastByte = s.size - 1)

def gbSetupNextSegment (i : Link) (x : Inputs) : Program Bool := do
  let s ← get
  let c ← connAt i
  if c.lastSegmentFlag then return false
  else
    match s.offsetInfo.getConnOrderCase i with
    | .behind =>
      if s.offsetInfo.singleLinkModeFlag then do
        modifyOffsetInfo fun o => { o with connIdle := Function.update o.connIdle i true }
        return false
      else setupFreshSegment i x
    | .ahead => do
      gbUpdateGoodput x.elapsed
      let recovered ← performRecovery i x
      if recovered then return true
      else do
        let s ← get
        let tail ← follow s.offsetInfo.tail
        ensure .nullPointer (tail.chunkList ≠ [])
        if s.allPlanned tail then return false else setupFreshSegment i x
    | .oneSeg => do
      gbUpdateGoodput x.elapsed
      let d ← connAt i.other
      let recovered ← (if c.currentbyte < d.currentbyte then performRecovery i x else pure false)
      if recovered then return true else setupFreshSegment i x

end GreenBag
