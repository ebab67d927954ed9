import GreenBag.Player

/-! Energy-aware choice of the link mode. -/

namespace GreenBag

open Programs Doubles Words

/-- The points of a handling at which something is read from outside. -/
inductive Reading
  /-- `decide_recovery_mode`, and its question whether the bottleneck chunk comes too late. -/
  | recovery
  | recoveryMiss
  /-- `choose_link_mode`, and its question whether the present mode is too slow. -/
  | mode
  | modeMiss
  /-- `update_lte_state`, and the tail time for the energy of a mode. -/
  | energy (mode : LinkMode)
  | energyTail (mode : LinkMode)
  | cheapest
  deriving DecidableEq, Repr

/-- What one handling of a connection learns from outside. -/
structure Inputs where
  /-- The seconds since `start_time`. -/
  elapsed : Link → ℚ
  sample : Reading → Sample
  connects : Link → Bool
  reply : Site → List UInt8

def getRemainingFileSize : Program ℤ := do
  let start ← getStartByteNextSegment
  let s ← get
  return s.size - start

/-- C's conversion of a double to an integer is `truncate`. -/
def Gb.estimateLinkModeGoodput (s : Gb) : LinkMode → ℤ
  | .single i => (s.conn i).ewmaBytesPerSecond
  | .dual => truncate (8 / 10 * ((s.conn .lte).ewmaBytesPerSecond +
      (s.conn .wifi).ewmaBytesPerSecond : ℤ))

/-- HEADROOM_SINGLE_DUAL_FACTOR and HEADROOM_DUAL_SINGLE_FACTOR. -/
def Gb.headroomFactor (s : Gb) : Double :=
  if s.offsetInfo.singleLinkModeFlag then .num (9 / 10) else .num (8 / 10)

def doesQmissUntilNextPortionInLinkMode (nextPortionSize : ℤ) (mode : LinkMode) (x : Sample) :
    Program Bool := do
  let s ← get
  let time := (Double.ofInt nextPortionSize).div (.ofInt (s.estimateLinkModeGoodput mode))
  let playback ← getRemainingPlaybackTime x
  return (s.headroomFactor.mul playback).lt time

def doesQosMissUntilBnChunk (i : Link) (x : Sample) : Program Bool := do
  let bn ← getBnChunkInfo i
  let c ← connAt bn.conn
  let time := (Double.ofInt bn.remaining).div (.ofInt c.bytesPerSecond)
  let playable ← getRemainingPlayableTime x
  return playable.lt (time.add (.num (1 / 2)))

def lteTailStateTimeoutSec : ℚ := 112 / 10

def updateLteState (x : Sample) : Program (LteState × ℚ) := do
  let s ← get
  let goodput := narrow 32 (s.conn .lte).bytesPerSecond
  match s.statics.lteState with
  | .idle => whenever (goodput > 0) (modifyStatics fun t => { t with lteState := .active })
  | .tail =>
    if goodput > 0 then modifyStatics fun t => { t with lteState := .active }
    else
      whenever (x.clock - s.statics.tailStateStartTime > lteTailStateTimeoutSec)
        (modifyStatics fun t => { t with lteState := .idle })
  | .active =>
    whenever (goodput = 0)
      (modifyStatics fun t => { t with lteState := .tail, tailStateStartTime := x.clock })
  let s ← get
  return (s.statics.lteState, s.statics.tailStateStartTime)

/-- LTE_POW_ALPHA and LTE_POW_BETA, WIFI_POW_ALPHA and WIFI_POW_BETA. -/
def powAlpha : Link → ℚ
  | .lte => 1672 / 100
  | .wifi => 2419 / 100

def powBeta : Link → ℚ
  | .lte => 20222 / 10
  | .wifi => 3609 / 10

def lteTailPow : ℚ := 1350

/-- The energy to fetch so many bytes over a link. -/
def linkEnergy (i : Link) (goodput size : ℤ) : Double :=
  (Double.num ((powAlpha i * (goodput / 1000000) + powBeta i) * size)).div (.ofInt goodput)

def transferEnergy (mode : LinkMode) (lteGoodput wifiGoodput size : ℤ) : Program Double :=
  match mode with
  | .dual => do
    ensure .divByZero (lteGoodput + wifiGoodput ≠ 0)
    let lteSize := (lteGoodput * size).tdiv (lteGoodput + wifiGoodput)
    return (linkEnergy .lte lteGoodput lteSize).add (linkEnergy .wifi wifiGoodput (size - lteSize))
  | .single .lte => return linkEnergy .lte lteGoodput size
  | .single .wifi => return linkEnergy .wifi wifiGoodput size

def getEnergyConsumption (mode : LinkMode) (lteGoodput wifiGoodput size : ℤ) (x : Inputs) :
    Program Double := do
  let (lteState, tailStartTime) ← updateLteState (x.sample (.energy mode))
  ensure .assertGoodput (lteGoodput ≠ 0 ∨ wifiGoodput ≠ 0)
  if size > 0 then do
    let energy ← transferEnergy mode lteGoodput wifiGoodput size
    let tailSec := match lteState with
      | .active => lteTailStateTimeoutSec
      | .tail => (x.sample (.energyTail mode)).clock - tailStartTime
      | .idle => 0
    return energy.add (.num (lteTailPow * tailSec))
  else return .num 0

/-- The modes in the order of their numbers. -/
def linkModes : List LinkMode := [.dual, .single .lte, .single .wifi]

def getMinValueIndex (energy : LinkMode → Double) : LinkMode :=
  linkModes.tail.foldl (fun m k => if (energy k).lt (energy m) then k else m) .dual

def getMaxValueIndex (energy : LinkMode → Double) : LinkMode :=
  linkModes.tail.foldl (fun m k => if (energy m).lt (energy k) then k else m) .dual

/-- The array starts out as zeros, that is DUAL_LINK_MODE. -/
def getThreeSortedIndex (energy : LinkMode → Double) : List LinkMode :=
  let least := getMinValueIndex energy
  let most := getMaxValueIndex energy
  [least, (linkModes.find? (fun m => m ≠ least ∧ m ≠ most)).getD .dual, most]

def getEnergySortedLinkModes (size : ℤ) (x : Inputs) : Program (List LinkMode) := do
  let s ← get
  let lte := s.estimateLinkModeGoodput (.single .lte)
  let wifi := s.estimateLinkModeGoodput (.single .wifi)
  let dualEnergy ← getEnergyConsumption .dual lte wifi size x
  let lteEnergy ← getEnergyConsumption (.single .lte) lte 0 size x
  let wifiEnergy ← getEnergyConsumption (.single .wifi) 0 wifi size x
  return getThreeSortedIndex fun
    | .dual => dualEnergy
    | .single .lte => lteEnergy
    | .single .wifi => wifiEnergy

/-- The loop over the sorted modes, which appears twice in `choose_link_mode`. -/
def considerLinkModes (size : ℤ) (x : Inputs) : List LinkMode → Program Unit
  | [] => pure ()
  | .dual :: _ => modifyStatics fun t => { t with currentLinkMode := .dual }
  | .single i :: _ => do
    let miss ← doesQmissUntilNextPortionInLinkMode size (.single i) (x.sample .cheapest)
    -- the `break` behind this does not depend on the answer
    whenever (¬ miss) (modifyStatics fun t => { t with currentLinkMode := .single i })

def selectLinkMode (size : ℤ) (x : Inputs) : Program Unit := do
  let sorted ← getEnergySortedLinkModes size x
  considerLinkModes size x sorted

def maxNumEstQmiss : ℕ := 2

/-- In a single link mode: back to both links once it was too slow often enough. -/
def reconsiderSingleMode (size : ℤ) (mode : LinkMode) (x : Inputs) : Program Unit := do
  let miss ← doesQmissUntilNextPortionInLinkMode size mode (x.sample .modeMiss)
  if miss then do
    modifyStatics fun t => { t with numEstQmiss := t.numEstQmiss + 1 }
    let s ← get
    whenever (s.statics.numEstQmiss ≥ maxNumEstQmiss)
      (modifyStatics fun t => { t with numEstQmiss := 0, currentLinkMode := .dual })
  else do
    modifyStatics fun t => { t with numEstQmiss := 0 }
    selectLinkMode size x

def reconsiderDualMode (i : Link) (size : ℤ) (x : Inputs) : Program Unit := do
  let miss ← doesQosMissUntilBnChunk i (x.sample .modeMiss)
  whenever (¬ miss) (selectLinkMode size x)

def chooseLinkMode (i : Link) (x : Inputs) : Program LinkMode := do
  let size ← getRemainingFileSize
  let s ← get
  if size ≤ 0 then return s.statics.currentLinkMode
  else do
    let player ← getPlayerState (x.sample .mode)
    let s ← get
    if player = .playing then
      match s.statics.currentLinkMode with
      | .dual => reconsiderDualMode i size x
      | .single j => reconsiderSingleMode size (.single j) x
    else modifyStatics fun t => { t with currentLinkMode := .dual }
    let s ← get
    modifyOffsetInfo fun o => { o with singleLinkModeFlag := s.statics.currentLinkMode ≠ .dual }
    return s.statics.currentLinkMode

end GreenBag
