import GreenBag.Offset

/-! `update_inorder_offset`: how far the file is guessed to be complete. -/

namespace GreenBag

open Programs

def Conn.looksIdle (c : Conn) : Bool := c.currentbyte = c.lastbyte + 1

/-- The loop over the segments other than the current one of `i`, for `conn_byte[i]`. -/
def connByte (i : Link) (current : Option ℕ) : List Segment → ℤ → Program ℤ
  | [], byte => pure byte
  | g :: rest, byte =>
    if current = some g.id then connByte i current rest byte
    else
      match g.subsegment i with
      | none => connByte i current rest byte
      | some p => do
        let c ← demand .nullPointer p.chunkList.head?
        connByte i current rest (if c.startByte < byte then c.startByte else byte)

/-- The connection a loop finds that is marked as active, and its cursor. -/
def Gb.activeByte (s : Gb) : Option (Link × ℤ) :=
  (s.links.find? (fun i => !s.offsetInfo.connIdle i)).map (fun i => (i, (s.conn i).currentbyte))

def findInorderOffset : Program ℤ := do
  let s ← get
  let o := s.offsetInfo
  if s.isUsingOnlyOneLink then
    match s.activeByte with
    | none => return 0
    | some (i, byte) => do
      ensure .assertIdle (o.connIdle i.other)
      return byte
  else if o.connIdle .lte ∧ o.connIdle .wifi then return s.size - 1
  else do
    let lte ← connAt .lte
    let wifi ← connAt .wifi
    let lteByte ← connByte .lte (o.connection .lte) o.segments lte.currentbyte
    let wifiByte ← connByte .wifi (o.connection .wifi) o.segments wifi.currentbyte
    return if lteByte < wifiByte then lteByte else wifiByte

/-- The chunks held are those on their way from one connection to a new segment. -/
def updateInorderOffset (held : List Chunk) : Program Unit := do
  modify fun s => { s with offsetInfo := { s.offsetInfo with
    connIdle := fun i => if i ∈ s.links then (s.conn i).looksIdle else s.offsetInfo.connIdle i } }
  let found ← findInorderOffset
  logEvent (.inorder · held found)
  let s ← get
  ensure .assertInorder (s.inorderOffset ≤ found)
  modify fun s => { s with inorderOffset := found }

end GreenBag
