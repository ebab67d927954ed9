import GreenBag.Offset

/-! What is known of the player: its frame counter, its position, and the time it has left. -/

namespace GreenBag

open Programs Doubles

/-- What is read from outside at one point: the clock, the frame counter if it can be read, and the
player's position. -/
structure Sample where
  clock : ℚ
  frames : Option ℤ
  position : ℚ
  deriving DecidableEq, Repr

inductive PlayerState
  | paused
  | playing
  | unknown
  deriving DecidableEq, Repr

def getPlayerState (x : Sample) : Program PlayerState :=
  match x.frames with
  | none => return .unknown
  | some n => do
    let s ← get
    let fps := (Double.ofInt (n - s.statics.lastNumVframeDecoded)).div
      (.num (x.clock - s.statics.lastRecordedTime))
    modifyStatics fun t => { t with lastNumVframeDecoded := n, lastRecordedTime := x.clock }
    return if fps.le (.num 0) then .paused else .playing

def getRemainingPlayableTime (x : Sample) : Program Double := do
  updateLastDownloadedByte
  let s ← get
  return ((Double.ofInt s.lastDownloadedByte).div (.ofInt s.qosBytesPerSecond)).sub (.num x.position)

def getRemainingPlaybackTime (x : Sample) : Program Double := do
  let s ← get
  whenever (s.statics.videoDuration = .num 0) (modifyStatics fun t => { t with
    videoDuration := (Double.ofInt s.size).div (.ofInt s.qosBytesPerSecond) })
  let s ← get
  return s.statics.videoDuration.sub (.num x.position)

end GreenBag
