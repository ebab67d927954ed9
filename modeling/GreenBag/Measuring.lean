import GreenBag.Player
import Mathlib.Data.List.DropRight

/-! `log_fps`: the samples of the player's frame counter, and the interruptions that they add up to. -/

namespace GreenBag

open Doubles

/-- `fps_sampling_interval`, in seconds. -/
def fpsSamplingInterval : ℚ := 50000 / 1000000

/-- What a round meets: `gb->finish` in each of its four tests, the clock, and the frame counter if it can
be read. -/
structure FpsRound where
  tested : Bool
  counted : Bool
  reset : Bool
  stopped : Bool
  clock : ℚ
  frames : Option ℤ
  deriving DecidableEq, Repr

/-- The variables of `log_fps`. A start of 0 stands for none. -/
structure FpsLog where
  lastRecordedTime : ℚ
  lastNumVframeDecoded : ℤ
  startPlaybackTime : ℚ
  videoIntTime : ℚ
  videoIntTimeAddedAtTail : ℚ
  curPlayerPos : ℚ
  stopAfterTransferring : Bool
  deriving DecidableEq, Repr

def freshFpsLog : FpsLog := ⟨0, 0, 0, 0, 0, 0, false⟩

def FpsLog.fps (s : FpsLog) (n : ℤ) (clock : ℚ) : Double :=
  (Double.ofInt (n - s.lastNumVframeDecoded)).div (.num (clock - s.lastRecordedTime))

/-- The playback starts with the first sample that shows progress. -/
def FpsLog.started (s : FpsLog) (fps : Double) (clock : ℚ) : FpsLog :=
  if Double.lt (.num 0) fps ∧ s.startPlaybackTime = 0 then { s with startPlaybackTime := clock } else s

def FpsLog.added (s : FpsLog) (fps : Double) (finish : Bool) : FpsLog :=
  if finish = false ∧ 0 < s.startPlaybackTime then
    if fps.le (.num 0) then { s with
      videoIntTime := s.videoIntTime + fpsSamplingInterval
      videoIntTimeAddedAtTail := s.videoIntTimeAddedAtTail + fpsSamplingInterval }
    else { s with curPlayerPos := s.curPlayerPos + fpsSamplingInterval }
  else s

def FpsLog.resumed (s : FpsLog) (fps : Double) (finish : Bool) : FpsLog :=
  if finish = false ∧ Double.lt (.num 0) fps then { s with videoIntTimeAddedAtTail := 0 } else s

def FpsLog.recorded (s : FpsLog) (fps : Double) (finish : Bool) (n : ℤ) (clock : ℚ) : FpsLog :=
  { s with
    lastRecordedTime := clock
    lastNumVframeDecoded := n
    stopAfterTransferring := s.stopAfterTransferring || finish && fps = .num 0 }

/-- The loop body of `log_fps`. -/
def FpsLog.round (s : FpsLog) (x : FpsRound) : FpsLog :=
  match x.frames with
  | none => s
  | some n =>
    let fps := s.fps n x.clock
    (((s.started fps x.clock).added fps x.counted).resumed fps x.reset).recorded fps x.stopped n x.clock

/-- The loop of `log_fps`; nothing as long as it goes on. -/
def FpsLog.run (s : FpsLog) : List FpsRound → Option FpsLog
  | [] => none
  | x :: xs => if x.tested && s.stopAfterTransferring then some s else (s.round x).run xs

structure TimingInfo where
  startPlaybackTime : ℚ
  videoIntTime : ℚ
  deriving DecidableEq, Repr

/-- What `log_fps` returns, with the clock at its end. -/
def FpsLog.timingInfo (s : FpsLog) (clock : ℚ) : TimingInfo where
  startPlaybackTime := if s.startPlaybackTime = 0 then clock else s.startPlaybackTime
  videoIntTime := s.videoIntTime - s.videoIntTimeAddedAtTail

def logFps (rounds : List FpsRound) (clock : ℚ) : Option (TimingInfo × ℚ) :=
  (freshFpsLog.run rounds).map fun s => (s.timingInfo clock, s.curPlayerPos)

/-! ### The samples -/

/-- A sample with the speed since the one before. -/
structure Speed where
  clock : ℚ
  fps : Double
  counted : Bool
  reset : Bool
  stopped : Bool
  deriving DecidableEq, Repr

/-- The samples that can be read, each compared with the last one before it. -/
def speeds (t : ℚ) (m : ℤ) : List FpsRound → List Speed
  | [] => []
  | x :: xs =>
    match x.frames with
    | none => speeds t m xs
    | some n =>
      ⟨x.clock, (Double.ofInt (n - m)).div (.num (x.clock - t)), x.counted, x.reset, x.stopped⟩ ::
        speeds x.clock n xs

namespace Speed

def Forward (v : Speed) : Prop := Double.lt (.num 0) v.fps

/-- Counted as an interruption. -/
def Stall (v : Speed) : Prop := v.counted = false ∧ v.fps.le (.num 0)

/-- Counted as playing. A speed that is no number is. -/
def Play (v : Speed) : Prop := v.counted = false ∧ ¬ v.fps.le (.num 0)

/-- Shows that the interruptions before it were over. -/
def Resume (v : Speed) : Prop := v.reset = false ∧ v.Forward

/-- The counter stands still, with the download finished. -/
def Halt (v : Speed) : Prop := v.stopped = true ∧ v.fps = .num 0

instance : DecidablePred Forward := fun _ => inferInstanceAs (Decidable (_ = true))

instance : DecidablePred Stall := fun _ => inferInstanceAs (Decidable (_ ∧ _))

instance : DecidablePred Play := fun _ => inferInstanceAs (Decidable (_ ∧ _))

instance : DecidablePred Resume := fun _ => inferInstanceAs (Decidable (_ ∧ _))

end Speed

/-- What follows from the first progress on. -/
def playback (vs : List Speed) : List Speed := vs.dropWhile fun v => ¬ v.Forward

/-- What is behind the last sample that shows that the playback goes on. -/
def standstill (vs : List Speed) : List Speed := vs.rtakeWhile fun v => ¬ v.Resume

/-- What is not. -/
def watched (vs : List Speed) : List Speed := vs.rdropWhile fun v => ¬ v.Resume

/-- The variables say how many samples of each kind there are. -/
structure FpsLog.Tallies (s : FpsLog) (vs : List Speed) : Prop where
  start : s.startPlaybackTime = (vs.head?.map Speed.clock).getD 0
  started : vs ≠ [] → 0 < s.startPlaybackTime
  int : s.videoIntTime = fpsSamplingInterval * vs.countP fun v => v.Stall
  tail : s.videoIntTimeAddedAtTail = fpsSamplingInterval * (standstill vs).countP fun v => v.Stall
  pos : s.curPlayerPos = fpsSamplingInterval * vs.countP fun v => v.Play

section

variable {s : FpsLog} {vs : List Speed} {v : Speed} {n : ℤ} {finish : Bool} {clock : ℚ} {fps : Double}

lemma playback_append (vs : List Speed) (v : Speed) : playback (vs ++ [v]) =
    if playback vs = [] then if v.Forward then [v] else [] else playback vs ++ [v] := by
  rw [playback, List.dropWhile_append]
  by_cases h : playback vs = []
  · rw [if_pos h, if_pos (by rw [show List.dropWhile _ vs = [] from h]; rfl)]
    by_cases hv : v.Forward <;> simp [List.dropWhile, hv]
  · rw [if_neg h, if_neg (by simpa [playback] using h)]
    rfl

lemma standstill_append (vs : List Speed) (v : Speed) :
    standstill (vs ++ [v]) = if v.Resume then [] else standstill vs ++ [v] := by
  rw [standstill, List.rtakeWhile_concat]
  by_cases h : v.Resume
  · rw [if_pos h, if_neg (by simpa using h)]
  · rw [if_neg h, if_pos (by simpa using h)]
    rfl

lemma added_eq (hs : 0 < s.startPlaybackTime) : s.added v.fps v.counted = { s with
    videoIntTime := s.videoIntTime + fpsSamplingInterval * if v.Stall then 1 else 0
    videoIntTimeAddedAtTail := s.videoIntTimeAddedAtTail + fpsSamplingInterval * if v.Stall then 1 else 0
    curPlayerPos := s.curPlayerPos + fpsSamplingInterval * if v.Play then 1 else 0 } := by
  cases hcounted : v.counted with
  | true => simp [FpsLog.added, Speed.Stall, Speed.Play, hcounted]
  | false =>
    cases hle : v.fps.le (.num 0) with
    | true => simp [FpsLog.added, Speed.Stall, Speed.Play, hcounted, hle, hs]
    | false => simp [FpsLog.added, Speed.Stall, Speed.Play, hcounted, hle, hs]

lemma resumed_eq : s.resumed v.fps v.reset =
    { s with videoIntTimeAddedAtTail := if v.Resume then 0 else s.videoIntTimeAddedAtTail } := by
  have hiff : (v.reset = false ∧ Double.lt (.num 0) v.fps) ↔ v.Resume := Iff.rfl
  by_cases h : v.Resume
  · rw [if_pos h, FpsLog.resumed, if_pos (hiff.mpr h)]
  · rw [if_neg h, FpsLog.resumed, if_neg fun hr => h (hiff.mp hr)]

lemma round_of_some {x : FpsRound} (hn : x.frames = some n) : s.round x =
    (((s.started (s.fps n x.clock) x.clock).added (s.fps n x.clock) x.counted).resumed (s.fps n x.clock)
      x.reset).recorded (s.fps n x.clock) x.stopped n x.clock := by
  rw [FpsLog.round, hn]

/-- What counts the samples does not depend on what the loop keeps for itself. -/
lemma FpsLog.Tallies.recorded (h : s.Tallies vs) (fps : Double) (finish : Bool) (n : ℤ) (clock : ℚ) :
    (s.recorded fps finish n clock).Tallies vs :=
  ⟨h.start, h.started, h.int, h.tail, h.pos⟩

lemma tallies_snoc (hstart : s.startPlaybackTime = ((vs ++ [v]).head?.map Speed.clock).getD 0)
    (hs : 0 < s.startPlaybackTime) (hint : s.videoIntTime = fpsSamplingInterval * vs.countP fun v => v.Stall)
    (htail : s.videoIntTimeAddedAtTail = fpsSamplingInterval * (standstill vs).countP fun v => v.Stall)
    (hpos : s.curPlayerPos = fpsSamplingInterval * vs.countP fun v => v.Play) :
    ((s.added v.fps v.counted).resumed v.fps v.reset).Tallies (vs ++ [v]) := by
  rw [added_eq hs, resumed_eq]
  constructor
  · exact hstart
  · exact fun _ => hs
  · simp only [hint, List.countP_append, List.countP_singleton, decide_eq_true_eq]
    push_cast
    ring
  · simp only [htail, standstill_append]
    split_ifs with hresume hstall
    · simp
    · have hone : [v].countP (fun v => v.Stall) = 1 := by simp [hstall]
      rw [List.countP_append, hone]
      push_cast
      ring
    · have hzero : [v].countP (fun v => v.Stall) = 0 := by simp [hstall]
      rw [List.countP_append, hzero, mul_zero, add_zero, Nat.add_zero]
  · simp only [hpos, List.countP_append, List.countP_singleton, decide_eq_true_eq]
    push_cast
    ring

lemma tallies_round {x : FpsRound} (h : s.Tallies (playback vs)) (hc : 0 < x.clock) (hn : x.frames = some n) :
    (s.round x).Tallies (playback (vs ++ [⟨x.clock, s.fps n x.clock, x.counted, x.reset, x.stopped⟩])) := by
  rw [playback_append, round_of_some hn]
  apply FpsLog.Tallies.recorded
  generalize hv : (⟨x.clock, s.fps n x.clock, x.counted, x.reset, x.stopped⟩ : Speed) = v
  have hfps : s.fps n x.clock = v.fps := congrArg Speed.fps hv
  have hcounted : x.counted = v.counted := congrArg Speed.counted hv
  have hreset : x.reset = v.reset := congrArg Speed.reset hv
  have hclock : x.clock = v.clock := congrArg Speed.clock hv
  rw [hfps, hcounted, hreset, hclock]
  rw [hclock] at hc
  by_cases hp : playback vs = []
  · rw [if_pos hp]
    rw [hp] at h
    have hzero : s.startPlaybackTime = 0 := h.start
    by_cases hf : v.Forward
    · rw [if_pos hf, FpsLog.started, if_pos ⟨hf, hzero⟩]
      have hs : 0 < ({ s with startPlaybackTime := v.clock } : FpsLog).startPlaybackTime := hc
      exact tallies_snoc rfl hs h.int h.tail h.pos
    · have hnot : ¬ Double.lt (.num 0) v.fps = true := hf
      have hidle : ¬ 0 < s.startPlaybackTime := by rw [hzero]; exact lt_irrefl 0
      rw [if_neg hf, FpsLog.started, if_neg fun hl => hnot hl.1, FpsLog.added, if_neg fun hl => hidle hl.2,
        FpsLog.resumed, if_neg fun hl => hnot hl.2]
      exact h
  · have hpos := h.started hp
    rw [if_neg hp, FpsLog.started, if_neg fun hl => hpos.ne' hl.2]
    refine tallies_snoc ?_ hpos h.int h.tail h.pos
    rw [h.start]
    obtain ⟨w, ws, hw⟩ := List.exists_cons_of_ne_nil hp
    rw [hw]
    rfl

lemma tallies_run {xs : List FpsRound} {s' : FpsLog} (h : s.Tallies (playback vs))
    (hstop : s.stopAfterTransferring = true ↔ ∃ v ∈ vs, v.Halt) (hc : ∀ x ∈ xs, 0 < x.clock)
    (hr : s.run xs = some s') : ∃ taken x rest, xs = taken ++ x :: rest ∧ x.tested = true ∧
      (∃ v ∈ vs ++ speeds s.lastRecordedTime s.lastNumVframeDecoded taken, v.Halt) ∧
      s'.Tallies (playback (vs ++ speeds s.lastRecordedTime s.lastNumVframeDecoded taken)) := by
  induction xs generalizing s vs with
  | nil => cases hr
  | cons x xs ih =>
    obtain ⟨hx, hxs⟩ := List.forall_mem_cons.mp hc
    rw [FpsLog.run] at hr
    split_ifs at hr with hend
    · cases hr
      rw [Bool.and_eq_true] at hend
      refine ⟨[], x, xs, rfl, hend.1, ?_, ?_⟩
      · rw [speeds, List.append_nil]
        exact hstop.mp hend.2
      · rw [speeds, List.append_nil]
        exact h
    · cases hn : x.frames with
      | none =>
        have hsame : s.round x = s := by rw [FpsLog.round, hn]
        rw [hsame] at hr
        obtain ⟨taken, y, rest, rfl, hy, hhalt, htally⟩ := ih h hstop hxs hr
        have hspeeds : speeds s.lastRecordedTime s.lastNumVframeDecoded (x :: taken) =
            speeds s.lastRecordedTime s.lastNumVframeDecoded taken := by
          rw [speeds, hn]
        exact ⟨x :: taken, y, rest, rfl, hy, by rwa [hspeeds], by rwa [hspeeds]⟩
      | some n =>
        have hnext := tallies_round h hx hn
        have hround := round_of_some (s := s) hn
        have hstop' : (s.round x).stopAfterTransferring = true ↔
            ∃ v ∈ vs ++ [⟨x.clock, s.fps n x.clock, x.counted, x.reset, x.stopped⟩], v.Halt := by
          have hkept : ∀ fps clock finish finish', (((s.started fps clock).added fps finish).resumed fps
              finish').stopAfterTransferring = s.stopAfterTransferring := by
            intro fps clock finish finish'
            unfold FpsLog.resumed FpsLog.added FpsLog.started
            split_ifs
            all_goals rfl
          rw [hround, FpsLog.recorded, hkept]
          simp only [Bool.or_eq_true, Bool.and_eq_true, decide_eq_true_eq, hstop, List.mem_append,
            List.mem_singleton, Speed.Halt]
          constructor
          · rintro (⟨v, hv, hhalt⟩ | hhalt)
            · exact ⟨v, .inl hv, hhalt⟩
            · exact ⟨_, .inr rfl, hhalt⟩
          · rintro ⟨v, hv | rfl, hhalt⟩
            · exact .inl ⟨v, hv, hhalt⟩
            · exact .inr hhalt
        obtain ⟨taken, y, rest, rfl, hy, hhalt, htally⟩ := ih hnext hstop' hxs hr
        have hlast : (s.round x).lastRecordedTime = x.clock ∧ (s.round x).lastNumVframeDecoded = n := by
          rw [hround]
          exact ⟨rfl, rfl⟩
        have hspeeds : speeds s.lastRecordedTime s.lastNumVframeDecoded (x :: taken) =
            ⟨x.clock, s.fps n x.clock, x.counted, x.reset, x.stopped⟩ :: speeds x.clock n taken := by
          rw [speeds, hn]
          rfl
        rw [hlast.1, hlast.2, List.append_assoc, List.singleton_append, ← hspeeds] at hhalt htally
        exact ⟨x :: taken, y, rest, rfl, hy, hhalt, htally⟩

end

/-- Where `log_fps` returns, the download is finished and the player stood still. The playback started with
the first sample that showed progress; the interruption is made up of the samples without progress from then
on that were followed by progress while the download went on, and the position of the player of the others. -/
theorem interruption_measured {rounds : List FpsRound} {clock : ℚ} {t : TimingInfo} {pos : ℚ}
    (hc : ∀ x ∈ rounds, 0 < x.clock) (h : logFps rounds clock = some (t, pos)) :
    ∃ taken x rest, rounds = taken ++ x :: rest ∧ x.tested = true ∧ (∃ v ∈ speeds 0 0 taken, v.Halt) ∧
      t.startPlaybackTime = ((playback (speeds 0 0 taken)).head?.map Speed.clock).getD clock ∧
      t.videoIntTime = fpsSamplingInterval * (watched (playback (speeds 0 0 taken))).countP (fun v => v.Stall) ∧
      pos = fpsSamplingInterval * (playback (speeds 0 0 taken)).countP (fun v => v.Play) := by
  obtain ⟨s, hrun, hs⟩ := Option.map_eq_some_iff.mp h
  cases hs
  have hfresh : freshFpsLog.Tallies (playback []) := by
    constructor <;> simp [playback, standstill, freshFpsLog]
  have hnone : freshFpsLog.stopAfterTransferring = true ↔ ∃ v ∈ ([] : List Speed), v.Halt := by
    simp [freshFpsLog]
  obtain ⟨taken, x, rest, hrounds, hx, hhalt, htally⟩ := tallies_run hfresh hnone hc hrun
  refine ⟨taken, x, rest, hrounds, hx, hhalt, ?_, ?_, htally.pos⟩
  · change (if s.startPlaybackTime = 0 then clock else s.startPlaybackTime) = _
    have hstart := htally.start
    have hstarted := htally.started
    change s.startPlaybackTime = ((playback (speeds 0 0 taken)).head?.map Speed.clock).getD 0 at hstart
    change playback (speeds 0 0 taken) ≠ [] → _ at hstarted
    cases hp : playback (speeds 0 0 taken) with
    | nil =>
      rw [hp] at hstart
      exact if_pos hstart
    | cons v vs =>
      rw [hp] at hstart hstarted
      rw [if_neg (hstarted (by simp)).ne', hstart]
      rfl
  · change s.videoIntTime - s.videoIntTimeAddedAtTail = _
    have hint := htally.int
    have htail := htally.tail
    change s.videoIntTime = fpsSamplingInterval * (playback (speeds 0 0 taken)).countP _ at hint
    change s.videoIntTimeAddedAtTail =
      fpsSamplingInterval * (standstill (playback (speeds 0 0 taken))).countP _ at htail
    have hsplit : watched (playback (speeds 0 0 taken)) ++ standstill (playback (speeds 0 0 taken)) =
        playback (speeds 0 0 taken) := List.rdropWhile_append_rtakeWhile
    have hcount := congrArg (List.countP fun v : Speed => v.Stall) hsplit
    rw [List.countP_append] at hcount
    rw [hint, htail, ← hcount]
    push_cast
    ring

/-- The player stalls twice, and plays on once. -/
def stalledRounds : List FpsRound :=
  [⟨false, false, false, false, 10, some 30⟩, ⟨false, false, false, false, 11, some 30⟩,
    ⟨false, false, false, false, 12, some 60⟩, ⟨false, false, false, false, 13, some 60⟩,
    ⟨true, true, true, true, 14, some 60⟩, ⟨true, true, true, true, 15, none⟩]

theorem interruption_measured_of_stalls : ∃ taken x rest, stalledRounds = taken ++ x :: rest ∧ x.tested = true ∧
    (∃ v ∈ speeds 0 0 taken, v.Halt) ∧
    10 = ((playback (speeds 0 0 taken)).head?.map Speed.clock).getD 16 ∧
    1 / 20 = fpsSamplingInterval * (watched (playback (speeds 0 0 taken))).countP (fun v => v.Stall) ∧
    1 / 10 = fpsSamplingInterval * (playback (speeds 0 0 taken)).countP (fun v => v.Play) := by
  have hclocks : ∀ x ∈ stalledRounds, 0 < x.clock := by decide +kernel
  have hrun : logFps stalledRounds 16 = some (⟨10, 1 / 20⟩, 1 / 10) := by decide +kernel
  exact interruption_measured hclocks hrun

end GreenBag
