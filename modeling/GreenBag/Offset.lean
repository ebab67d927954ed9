import GreenBag.Chunks

/-! The segment list: adding and deleting segments, the searches along `next`, and the chunk the
download waits for. -/

namespace GreenBag

open Programs

/-- Follow a pointer to a segment. -/
def follow (pointer : Option ℕ) : Program Segment := do
  let s ← get
  let id ← demand .nullPointer pointer
  demand .danglingPointer (s.offsetInfo.deref id)

@[simp] lemma wp_follow {s : Session} {crash : Fault → Session → Prop}
    {post : Segment → Session → Prop} (pointer : Option ℕ) :
    wp (follow pointer) post crash s ↔
      (∀ id, pointer = some id → (∀ g, s.offsetInfo.deref id = some g → post g s) ∧
        (s.offsetInfo.deref id = none → crash .danglingPointer s)) ∧
      (pointer = none → crash .nullPointer s) := by
  simp [follow]

def getFastConnIndex : Program Link := do
  let lte ← connAt .lte
  let wifi ← connAt .wifi
  return if lte.bytesPerSecond ≥ wifi.bytesPerSecond then .lte else .wifi

/-- The segments from `head` to the one a pointer points to. -/
def OffsetInfo.through (o : OffsetInfo) (id : ℕ) : List Segment :=
  o.segments.takeWhile (fun g => g.id ≠ id) ++ (o.deref id).toList

def addNewSegment (recoverySegment : Bool) (chunkList : List Chunk) (size : ℤ) : Program ℕ := do
  let s ← get
  let o := s.offsetInfo
  let sorted := sortingChunks chunkList
  let before ← (if o.numSegments = 0 then pure [] else do
    let tail ← follow o.tail
    pure (o.through tail.id))
  let last ← demand .nullPointer sorted.getLast?
  modifyOffsetInfo fun o => { o with
    segments := before ++ [⟨o.segmentCount + 1, recoverySegment, sorted, size, fun _ => none⟩]
    numSegments := o.numSegments + 1
    segmentCount := o.segmentCount + 1
    tail := some (o.segmentCount + 1)
    lastSegOffset := if o.lastSegOffset < last.lastByte then last.lastByte else o.lastSegOffset }
  return o.segmentCount + 1

/-- Nothing where the source returns 0. -/
def OffsetInfo.deleteFinishedHeadSegment (o : OffsetInfo) : Option OffsetInfo :=
  match o.segments with
  | [] => none
  | head :: rest =>
    if head.subsegment .lte = none ∧ head.subsegment .wifi = none then
      some { o with
        segments := rest
        tail := if rest = [] then none else o.tail
        numSegments := o.numSegments - 1
        completedSegmentCount := o.completedSegmentCount + 1 }
    else none

/-- The loop around `delete_finished_head_segment`, at most as often as there are segments. -/
def OffsetInfo.deleteFinishedHeadSegments : ℕ → OffsetInfo → OffsetInfo
  | 0, o => o
  | n + 1, o =>
    match o.deleteFinishedHeadSegment with
    | none => o
    | some o' => deleteFinishedHeadSegments n o'

def deleteSubsegment (id : ℕ) (i : Link) : Program Unit := do
  let g ← follow (some id)
  let _ ← demand .nullPointer (g.subsegment i)
  modifyOffsetInfo (·.modifySegment id (·.setSubsegment i none))

def OffsetInfo.getFirstNextSegmentAssignedToConn (o : OffsetInfo) (id : ℕ) (i : Link) : Option ℕ :=
  ((o.behind id).find? (fun g => (g.subsegment i).isSome)).map Segment.id

def getStartByteNextSegment : Program ℤ := do
  let s ← get
  ensure .assertTail (s.offsetInfo.tail ≠ none)
  return s.offsetInfo.lastSegOffset + 1

/-- The sizes of the subsegments of `i` from behind the segment up to the tail, exclusive. -/
def OffsetInfo.sizeBeforeTail (o : OffsetInfo) (id : ℕ) (i : Link) : ℤ :=
  (((o.behind id).takeWhile (fun g => some g.id ≠ o.tail)).map
    (fun g => (g.subsegment i).elim 0 Subsegment.size)).sum

/-- What link `j` adds to the virtual size for link `i`. -/
def virtualShare (i j : Link) : Program ℤ := do
  let s ← get
  match s.offsetInfo.connection j with
  | none => return 0
  | some id =>
    let g ← follow (some id)
    let own ← (if j ≠ i then do
      let c ← connAt j
      pure (c.lastbyte - c.currentbyte + 1)
      else pure 0)
    return own + s.offsetInfo.sizeBeforeTail g.id j

def getVirtualSegSize (i : Link) (nextSegSize : ℤ) : Program ℤ := do
  let s ← get
  if s.offsetInfo.numSegments = 1 then do
    let head ← demand .nullPointer s.offsetInfo.segments.head?
    return head.size
  else do
    let lte ← virtualShare i .lte
    let wifi ← virtualShare i .wifi
    return lte + wifi + nextSegSize

inductive OrderCase
  | oneSeg
  | ahead
  | behind
  deriving DecidableEq, Repr

def OffsetInfo.getConnOrderCase (o : OffsetInfo) (i : Link) : OrderCase :=
  if o.numSegments = 1 then .oneSeg
  else if o.connection i = o.tail then .ahead
  else .behind

def Gb.getNextChunkDwndByConn (s : Gb) (i : Link) : Option Chunk :=
  (s.offsetInfo.segments.flatMap (Segment.chunks i)).find?
    (fun c => c.startByte > (s.conn i).currentbyte)

def OffsetInfo.getSegmentBeingDwndByConn (o : OffsetInfo) (i : Link) : Option Segment :=
  o.segments.find? (fun g => (g.subsegment i).isSome)

def Gb.getChunkBeingDwndByConn (s : Gb) (i : Link) : Option Chunk :=
  ((s.offsetInfo.getSegmentBeingDwndByConn i).elim [] (Segment.chunks i)).find?
    (fun c => c.lastByte > (s.conn i).currentbyte)

def Gb.isUsingOnlyOneLink (s : Gb) : Bool :=
  s.offsetInfo.connIdle .lte != s.offsetInfo.connIdle .wifi

/-- The chunk the download waits for, its connection, and how much of it is missing. -/
structure BnChunk where
  chunk : Chunk
  conn : Link
  remaining : ℤ
  deriving DecidableEq, Repr

/-- A chunk a connection is found in, missing from the cursor on. -/
def Gb.bnFromCursor (s : Gb) (i : Link) (c : Chunk) : BnChunk :=
  ⟨c, i, c.lastByte - ((s.conn i).currentbyte - 1)⟩

def getBnChunkInfo (i : Link) : Program BnChunk := do
  logEvent (.called · .bnChunk i)
  let s ← get
  let next := s.getNextChunkDwndByConn i
  let other := s.getChunkBeingDwndByConn i.other
  if s.isUsingOnlyOneLink then do
    let bn ← demand .nullPointer (s.getChunkBeingDwndByConn i)
    return s.bnFromCursor i bn
  else
    match other with
    | none => do
      let bn ← demand .nullPointer next
      return ⟨bn, i, bn.size⟩
    | some bn =>
      match next with
      | none => return s.bnFromCursor i.other bn
      | some c =>
        if c.startByte > bn.startByte then return s.bnFromCursor i.other bn
        else return ⟨c, i, c.size⟩

def updateLastDownloadedByte : Program Unit := do
  let s ← get
  let value := if s.ready = .no ∧ s.run then s.inorderOffset else s.size
  ensure .assertLastDownloaded (s.ready = .no ∧ s.run → s.lastDownloadedByte ≤ s.inorderOffset)
  modify fun s => { s with lastDownloadedByte := value }
  logEvent (.announced · value)

end GreenBag
