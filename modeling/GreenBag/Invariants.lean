import GreenBag.Segments
import GreenBag.Inorder
import GreenBag.Schedules

/-! What holds of a session while a connection is handled: of the segment list and the cursors, and
of the schedule they stand for. -/

namespace GreenBag

open Ranges Schedules

/-- Between two handlings; while connection `i` is handled; while it takes the chunks held from the
other connection. -/
inductive Phase
  | rest
  | reading (i : Link)
  | robbing (i : Link) (held : List Chunk)

namespace Phase

def Busy : Phase → Link → Prop
  | rest, _ => False
  | reading i, j => j = i
  | robbing i _, j => j = i

/-- The cursor of the connection read may stand behind its chunk. -/
def slack : Phase → Link → ℤ
  | rest, _ => 0
  | reading i, j => if j = i then 1 else 0
  | robbing i _, j => if j = i then 1 else 0

def held : Phase → List Chunk
  | robbing _ held => held
  | _ => []

def heldFrom : Phase → Link → List Chunk
  | robbing i held, j => if j = i.other then held else []
  | _, _ => []

end Phase

def Gb.parts (s : Gb) (i : Link) : List Subsegment := GreenBag.parts i s.offsetInfo.segments

def Gb.frontier (s : Gb) : ℤ := s.offsetInfo.lastSegOffset + 1

/-- The plan of a connection with the given subsegments. -/
def queueOf (c : Conn) : List Subsegment → List Range
  | [] => []
  | p :: ps => ⟨c.currentbyte, c.lastbyte⟩ ::
      (p.chunkList.tail ++ ps.flatMap Subsegment.chunkList).map Chunk.range

def Gb.queue (s : Gb) (i : Link) : List Range := queueOf (s.conn i) (s.parts i)

/-- The schedule the session follows. -/
def Gb.schedule (s : Gb) (φ : Phase) : Schedule Link where
  size := s.size
  done := s.outfile
  queue := fun i => s.queue i ++ (φ.heldFrom i).map Chunk.range
  frontier := s.frontier

/-- The chunk is not empty and lies below the frontier. -/
def Chunk.Inside (frontier : ℤ) (c : Chunk) : Prop :=
  c.Valid ∧ 0 ≤ c.startByte ∧ c.lastByte < frontier

structure Subsegment.Good (frontier : ℤ) (p : Subsegment) : Prop where
  nonempty : p.chunkList ≠ []
  inside : ∀ c ∈ p.chunkList, c.Inside frontier
  ascending : Ascending p.chunkList
  size_nonneg : 0 ≤ p.size

/-- The cursor of a connection stands in the first chunk of its first subsegment, all of the chunk
before it is written, and further subsegments have been requested. -/
structure Lane (frontier slack : ℤ) (done : List Range) (c : Conn) (ps : List Subsegment) : Prop where
  good : ∀ p ∈ ps, p.Good frontier
  cursor : ∀ p qs d ds, ps = p :: qs → p.chunkList = d :: ds →
    c.lastbyte = d.lastByte ∧ d.startByte ≤ c.currentbyte ∧ c.currentbyte ≤ c.lastbyte + slack ∧
      ∀ b, d.startByte ≤ b → b < c.currentbyte → 0 < cover done b
  flag : 2 ≤ ps.length → c.pipelineRequestsSent
  sized : ∀ p ∈ ps.tail, p.size = sizeSum p.chunkList

/-- What the phase says of the session. -/
def Phase.Fits (s : Gb) : Phase → Prop
  | rest => True
  | reading i => s.parts i ≠ []
  | robbing i held => s.parts i ≠ [] ∧ s.parts i.other = [] ∧ (∀ c ∈ held, c.Inside s.frontier) ∧
      ∃ c cs, held = c :: cs ∧ c.startByte = (s.conn i.other).currentbyte ∧
        c.lastByte = (s.conn i.other).lastbyte

structure Rep (φ : Phase) (s : Gb) : Prop where
  two : s.conf.numConnections = 2
  rates : ∀ i, 0 ≤ s.conf.initialChunkRate i
  initSegSize : 1 ≤ s.offsetInfo.initSegSize
  linked : s.offsetInfo.Linked
  remaining : s.offsetInfo.remainingChunks = []
  frontier : 0 ≤ s.offsetInfo.lastSegOffset ∧ s.frontier ≤ s.size
  lane : ∀ i, Lane s.frontier (φ.slack i) s.outfile (s.conn i) (s.parts i)
  pointer : ∀ i, φ.heldFrom i = [] →
    s.offsetInfo.connection i = firstWith i s.offsetInfo.segments
  fits : φ.Fits s
  load : ∀ b, (s.schedule φ).load b ≤ 1
  written : ∀ r ∈ s.outfile, 0 ≤ r.first ∧ r.last < s.size ∧ r.first ≤ r.last + 1
  bytesDone : s.bytesDone = total s.outfile

/-- The cursors of a connection that was given nothing by `gb_init_segment_setup`. -/
def Gb.Placeholder (s : Gb) (i : Link) : Prop :=
  s.offsetInfo.connection i = none ∧ (s.conn i).currentbyte = s.size ∧
    (s.conn i).lastbyte = s.size + 1

/-- As long as nothing got lost in a failed write. -/
structure Whole (φ : Phase) (s : Gb) : Prop where
  balanced : (s.schedule φ).Balanced
  idle : ∀ i, φ.heldFrom i = [] → s.parts i = [] → (s.conn i).looksIdle ∨ s.Placeholder i
  working : ¬ ∀ i, s.Placeholder i

end GreenBag
