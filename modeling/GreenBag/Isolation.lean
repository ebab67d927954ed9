import GreenBag.Estimating
import GreenBag.Flagging

/-! Sessions of one process: what the static variables of an earlier session do to a later one. -/

namespace GreenBag

open Programs Machines Doubles

/-- The duration of the video, as `get_remaining_playback_time` computes it. -/
def Gb.duration (s : Gb) : Double := (Double.ofInt s.size).div (.ofInt s.qosBytesPerSecond)

/-- The duration the function then uses, which is the first one that was not 0. -/
def Statics.recalled (c : Statics) (duration : Double) : Double :=
  if c.videoDuration = .num 0 then duration else c.videoDuration

/-- Static variables that are the same to a session with a video of that duration. -/
structure SameMemory (duration : Double) (c d : Statics) : Prop where
  currentLinkMode : d.currentLinkMode = c.currentLinkMode
  numEstQmiss : d.numEstQmiss = c.numEstQmiss
  recalled : d.recalled duration = c.recalled duration
  lteState : d.lteState = c.lteState
  tailStateStartTime : d.tailStateStartTime = c.tailStateStartTime
  lastRecordedTime : d.lastRecordedTime = c.lastRecordedTime
  lastNumVframeDecoded : d.lastNumVframeDecoded = c.lastNumVframeDecoded

/-- All but the static variables is equal, the events so far included, and these are the same to the
session. -/
def Agree (s t : Session) : Prop :=
  ∃ c, t = putStatics s c ∧ SameMemory s.duration s.statics c

/-- Sessions from the same fresh `gb_t`, with what two histories left in the static variables. -/
def Twins (s t : Session) : Prop :=
  ∃ exact conf size supported status created c d,
    (gbOpen *> gbStart created) { gbNew c conf size supported status with exact := exact } = .ok () s ∧
    (gbOpen *> gbStart created) { gbNew d conf size supported status with exact := exact } = .ok () t

/-- The static variables after some sessions of a process, one after the other. -/
inductive History : Statics → Prop
  | none : History freshStatics
  | session {s t : Session} : History s.statics → session.start s →
      (∃ ls, perform session ls s = .ok () t) → History t.statics

/-- The modes segments were shared out in, the latest first. -/
def Session.modes (s : Session) : List LinkMode :=
  s.trace.filterMap fun
    | .called _ (.nextSubsegment mode) _ => some mode
    | _ => none

instance (s : Session) : Decidable (s.All Event.Flagged) :=
  inferInstanceAs (Decidable (∀ e ∈ s.trace, _))

instance (s : Session) (l : Label) : Decidable (dualSession.enabled s l) :=
  inferInstanceAs (Decidable (session.enabled s l))

section

variable {α : Type} {s t : Session} {y : Program α} {i : Link} {x : Inputs} {size : ℤ}

lemma lockstep_of_video (h : Blind putStatics video y) : Lockstep Agree y := by
  refine .of_blind h putStatics_statics statics_putStatics
    (fun s t ⟨c, hc, _⟩ => ⟨c, hc⟩) fun s t d ⟨c, hc, hm⟩ hst hv => ⟨d, rfl, ?_⟩
  obtain rfl : d = c := congrArg Session.statics hc
  have hd : t.duration = s.duration := by rw [Gb.duration, Gb.duration, hst.size, hst.rate]
  rwa [hd, hv]

lemma lockstep_of_hidden (h : Blind putHidden video y) : Lockstep Agree y :=
  lockstep_of_video (statically h)

lemma lockstep_of_silent (h : Blind putHidden silent y) : Lockstep Agree y := lockstep_of_hidden (onVideo h)

lemma lockstep_modifyStatics {f : Statics → Statics}
    (hf : ∀ d c c', SameMemory d c c' → SameMemory d (f c) (f c')) :
    Lockstep Agree (modifyStatics f) := by
  refine .modify fun s t ⟨c, hc, hm⟩ => ⟨f c, ?_, hf _ _ _ hm⟩
  rw [hc]
  rfl

lemma lockstep_get {k : Session → Program α} (hk : ∀ s c, SameMemory s.duration s.statics c →
    k (putStatics s c) = k s) (h : ∀ s, Lockstep Agree (k s)) : Lockstep Agree (get >>= k) := by
  refine .read (fun s t ⟨c, hc, hm⟩ => ?_) h
  rw [hc, hk s c hm]

lemma lockstep_getPlayerState (x : Sample) : Lockstep Agree (getPlayerState x) := by
  rw [getPlayerState]
  cases x.frames with
  | none => exact .pure _
  | some n =>
    refine lockstep_get (fun s c hm => ?_) fun s => ?_
    · simp only [putStatics, hm.lastNumVframeDecoded, hm.lastRecordedTime]
    · refine .bind (lockstep_modifyStatics fun d c c' h => ?_) fun _ => .pure _
      exact { h with lastRecordedTime := rfl, lastNumVframeDecoded := rfl, recalled := h.recalled }

/-- The duration is remembered, and what is behind the position is returned. -/
lemma getRemainingPlaybackTime_eq (x : Sample) (s : Session) : getRemainingPlaybackTime x s =
    .ok ((s.statics.recalled s.duration).sub (.num x.position)) (putStatics s
      { s.statics with videoDuration := s.statics.recalled s.duration }) := by
  have hget : (get : Program Session) s = .ok s s := rfl
  rw [getRemainingPlaybackTime, bind_of_ok hget, whenever, Statics.recalled]
  split_ifs with h
  · rfl
  · rfl

lemma lockstep_getRemainingPlaybackTime (x : Sample) :
    Lockstep Agree (getRemainingPlaybackTime x) := by
  rintro s _ ⟨c, rfl, hm⟩
  have hr : c.recalled (putStatics s c).duration = s.statics.recalled s.duration := hm.recalled
  rw [getRemainingPlaybackTime_eq, getRemainingPlaybackTime_eq,
    show (putStatics s c).statics = c from rfl, hr]
  exact .ok ⟨_, rfl, { hm with recalled := rfl }⟩

lemma lockstep_doesQmissUntilNextPortionInLinkMode (size : ℤ) (mode : LinkMode) (x : Sample) :
    Lockstep Agree (doesQmissUntilNextPortionInLinkMode size mode x) := by
  refine lockstep_get (fun s c _ => rfl) fun s => ?_
  exact .bind (lockstep_getRemainingPlaybackTime x) fun _ => .pure _

lemma lockstep_updateLteState (x : Sample) : Lockstep Agree (updateLteState x) := by
  have hlast : ∀ y : Program Unit, Lockstep Agree y → Lockstep Agree (do
      y
      let s ← get
      return (s.statics.lteState, s.statics.tailStateStartTime)) := by
    refine fun y hy => .bind hy fun _ => lockstep_get (fun s c hm => ?_) fun _ => .pure _
    simp only [putStatics, hm.lteState, hm.tailStateStartTime]
  have hset : ∀ state, Lockstep Agree (modifyStatics fun t => { t with lteState := state }) :=
    fun state => lockstep_modifyStatics fun d c c' h => { h with lteState := rfl, recalled := h.recalled }
  refine lockstep_get (fun s c hm => ?_) fun s => ?_
  · have hstate : (putStatics s c).statics.lteState = s.statics.lteState := hm.lteState
    have hstart : (putStatics s c).statics.tailStateStartTime = s.statics.tailStateStartTime :=
      hm.tailStateStartTime
    rw [hstate, hstart]
    rfl
  cases s.statics.lteState with
  | idle => exact hlast _ (.whenever fun _ => hset _)
  | tail =>
    exact .ite (fun _ => hlast _ (hset _)) fun _ => hlast _ (.whenever fun _ => hset _)
  | active =>
    refine hlast _ (.whenever fun _ => lockstep_modifyStatics fun d c c' h => ?_)
    exact { h with lteState := rfl, tailStateStartTime := rfl, recalled := h.recalled }

lemma lockstep_getEnergyConsumption (mode : LinkMode) (lte wifi size : ℤ) (x : Inputs) :
    Lockstep Agree (getEnergyConsumption mode lte wifi size x) := by
  refine .bind (lockstep_updateLteState _) fun _ => .bind (.ensure _) fun _ => ?_
  refine .ite (fun _ => .bind ?_ fun _ => .pure _) fun _ => .pure _
  rcases mode with _ | ⟨_ | _⟩
  · exact .bind (.ensure _) fun _ => .pure _
  · exact .pure _
  · exact .pure _

lemma lockstep_getEnergySortedLinkModes (size : ℤ) (x : Inputs) :
    Lockstep Agree (getEnergySortedLinkModes size x) := by
  refine lockstep_get (fun s c _ => rfl) fun s => ?_
  refine .bind (lockstep_getEnergyConsumption _ _ _ _ _) fun _ => ?_
  refine .bind (lockstep_getEnergyConsumption _ _ _ _ _) fun _ => ?_
  exact .bind (lockstep_getEnergyConsumption _ _ _ _ _) fun _ => .pure _

lemma lockstep_setMode (mode : LinkMode) :
    Lockstep Agree (modifyStatics fun t => { t with currentLinkMode := mode }) :=
  lockstep_modifyStatics fun _ _ _ h => { h with currentLinkMode := rfl, recalled := h.recalled }

lemma lockstep_selectLinkMode (size : ℤ) (x : Inputs) : Lockstep Agree (selectLinkMode size x) := by
  refine .bind (lockstep_getEnergySortedLinkModes size x) fun modes => ?_
  rcases modes with _ | ⟨_ | i, _⟩
  · exact .pure _
  · exact lockstep_setMode _
  · refine .bind (lockstep_doesQmissUntilNextPortionInLinkMode _ _ _) fun _ => ?_
    exact .whenever fun _ => lockstep_setMode _

lemma lockstep_reconsiderSingleMode (size : ℤ) (mode : LinkMode) (x : Inputs) :
    Lockstep Agree (reconsiderSingleMode size mode x) := by
  refine .bind (lockstep_doesQmissUntilNextPortionInLinkMode _ _ _) fun miss => ?_
  refine .ite (fun _ => ?_) fun _ => ?_
  · refine .bind (lockstep_modifyStatics fun d c c' h => ?_) fun _ => ?_
    · exact { h with
        numEstQmiss := congrArg (· + 1) h.numEstQmiss
        recalled := h.recalled }
    refine lockstep_get (fun s c hm => ?_) fun s => .whenever fun _ => ?_
    · have hcount : (putStatics s c).statics.numEstQmiss = s.statics.numEstQmiss := hm.numEstQmiss
      rw [hcount]
    · refine lockstep_modifyStatics fun d c c' h => ?_
      exact { h with numEstQmiss := rfl, currentLinkMode := rfl, recalled := h.recalled }
  · refine .bind (lockstep_modifyStatics fun d c c' h => ?_) fun _ => lockstep_selectLinkMode _ _
    exact { h with numEstQmiss := rfl, recalled := h.recalled }

lemma lockstep_reconsiderDualMode (i : Link) (size : ℤ) (x : Inputs) :
    Lockstep Agree (reconsiderDualMode i size x) := by
  refine .bind (lockstep_of_silent (silently (blind_doesQosMissUntilBnChunk _ _))) fun _ => ?_
  exact .whenever fun _ => lockstep_selectLinkMode _ _

lemma lockstep_chooseLinkMode (i : Link) (x : Inputs) : Lockstep Agree (chooseLinkMode i x) := by
  have hmode : ∀ s c, SameMemory s.duration s.statics c →
      (putStatics s c).statics.currentLinkMode = s.statics.currentLinkMode :=
    fun s c hm => hm.currentLinkMode
  have hlast : ∀ y : Program Unit, Lockstep Agree y → Lockstep Agree (do
      y
      let s ← get
      modifyOffsetInfo fun o => { o with singleLinkModeFlag := s.statics.currentLinkMode ≠ .dual }
      return s.statics.currentLinkMode) := by
    refine fun y hy => .bind hy fun _ => lockstep_get (fun s c hm => ?_) fun s => ?_
    · simp only [hmode s c hm]
    · refine .bind (.modify ?_) fun _ => .pure _
      rintro t _ ⟨c, rfl, hm⟩
      exact ⟨c, rfl, hm⟩
  refine .bind (lockstep_of_silent (silently blind_getRemainingFileSize)) fun size => ?_
  refine lockstep_get (fun s c hm => ?_) fun s => .ite (fun _ => .pure _) fun _ => ?_
  · simp only [hmode s c hm]
  refine .bind (lockstep_getPlayerState _) fun player => ?_
  refine lockstep_get (fun s c hm => ?_) fun s => .ite (fun _ => ?_) fun _ => ?_
  · simp only [hmode s c hm]
  · cases s.statics.currentLinkMode with
    | dual => exact hlast _ (lockstep_reconsiderDualMode _ _ _)
    | single j => exact hlast _ (lockstep_reconsiderSingleMode _ _ _)
  · exact hlast _ (lockstep_setMode _)

lemma lockstep_decideRecoveryMode (i : Link) (x : Inputs) :
    Lockstep Agree (decideRecoveryMode i x) := by
  refine .bind (lockstep_getPlayerState _) fun _ => ?_
  refine .bind (lockstep_of_silent (silently (blind_segmentToRecover i))) fun other => ?_
  cases other with
  | none => exact .pure _
  | some other => exact lockstep_of_silent (silently (blind_recoveryPays _ _ _))

lemma video_gbDetermineNextSubsegment (i : Link) (mode : LinkMode) :
    Blind putStatics video (gbDetermineNextSubsegment i mode) :=
  .bind (statically (video_logEvent _)) fun _ => onVideo (blind_nextSubsegment i mode)

lemma lockstep_performRecovery (i : Link) (x : Inputs) : Lockstep Agree (performRecovery i x) := by
  refine lockstep_get (fun s c _ => rfl) fun s => .ite (fun _ => ?_) fun _ => .pure _
  refine .bind (lockstep_decideRecoveryMode i x) fun _ => .ite (fun _ => ?_) fun _ => .pure _
  refine .bind (lockstep_of_hidden (video_logEvent _)) fun _ => .bind ?_ fun _ => ?_
  · exact lockstep_of_silent (blind_modifyConn fun _ => ⟨rfl, rfl⟩)
  refine .bind (lockstep_of_silent (blind_connDisconnect _)) fun _ => ?_
  refine .bind (lockstep_of_silent (blind_recoverOutorderPortionAndNextSegment _)) fun _ => ?_
  refine .bind (lockstep_of_video (video_gbDetermineNextSubsegment _ _)) fun _ => .bind ?_ fun _ => .pure _
  exact lockstep_of_video (.modify (fun _ _ => rfl) fun _ => ⟨rfl, rfl, rfl, rfl, List.suffix_refl _⟩)

lemma lockstep_setupFreshSegment (i : Link) (x : Inputs) : Lockstep Agree (setupFreshSegment i x) := by
  refine .bind (lockstep_of_hidden (video_gbUpdateGoodput _)) fun _ => ?_
  refine .bind (lockstep_of_hidden (video_gbDetermineNextSegmentSize i)) fun size => ?_
  refine .ite (fun _ => .pure _) fun _ => lockstep_get (fun s c _ => rfl) fun s => ?_
  refine .bind (.ite (fun _ => lockstep_chooseLinkMode i x) fun _ => .pure _) fun mode => ?_
  exact .bind (lockstep_of_video (video_gbDetermineNextSubsegment i mode)) fun _ => .pure _

lemma lockstep_gbSetupNextSegment (i : Link) (x : Inputs) :
    Lockstep Agree (gbSetupNextSegment i x) := by
  have hconn := fun j => lockstep_of_silent (silently (blind_connAt j))
  have hmeasure := lockstep_of_hidden (video_gbUpdateGoodput x.elapsed)
  refine lockstep_get (fun s c _ => rfl) fun s => .bind (hconn i) fun c => ?_
  refine .ite (fun _ => .pure _) fun _ => ?_
  cases s.offsetInfo.getConnOrderCase i with
  | behind =>
    refine .ite (fun _ => .bind ?_ fun _ => .pure _) fun _ => lockstep_setupFreshSegment i x
    exact lockstep_of_video (.modify (fun _ _ => rfl) fun _ => ⟨rfl, rfl, rfl, rfl, List.suffix_refl _⟩)
  | ahead =>
    refine .bind hmeasure fun _ => .bind (lockstep_performRecovery i x) fun recovered => ?_
    refine .ite (fun _ => .pure _) fun _ => lockstep_get (fun s c _ => rfl) fun s => ?_
    refine .bind (lockstep_of_silent (silently (blind_follow _))) fun tail => ?_
    refine .bind (.ensure _) fun _ => ?_
    exact .ite (fun _ => .pure _) fun _ => lockstep_setupFreshSegment i x
  | oneSeg =>
    refine .bind hmeasure fun _ => .bind (hconn i.other) fun d => ?_
    refine .bind (.ite (fun _ => lockstep_performRecovery i x) fun _ => .pure _) fun recovered => ?_
    exact .ite (fun _ => .pure _) fun _ => lockstep_setupFreshSegment i x

lemma lockstep_handleBytes (i : Link) (n : ℤ) (written : Bool) (x : Inputs) :
    Lockstep Agree (handleBytes i n written x) := by
  have hplan : Lockstep Agree (planAhead i x) := by
    refine .bind (lockstep_gbSetupNextSegment i x) fun planned => .whenever fun _ => ?_
    exact lockstep_of_silent (blind_sendPlanned i x)
  refine .bind (lockstep_of_silent (silently (blind_connAt i))) fun c => .bind ?_ fun _ => ?_
  · exact lockstep_of_silent (blind_modifyConn fun _ => ⟨rfl, rfl⟩)
  refine .bind (lockstep_of_hidden (video_writeReceivedData i n written)) fun _ => ?_
  refine lockstep_get (fun s c _ => rfl) fun s => ?_
  refine .bind (lockstep_of_silent (silently (blind_follow _))) fun g => ?_
  refine .bind (lockstep_of_silent (.demand (harmless (by decide)) _)) fun p => ?_
  refine .bind (.whenever fun _ => hplan) fun _ => .ite (fun _ => ?_) fun _ => ?_
  · exact lockstep_of_silent (blind_finishChunk i x)
  · exact lockstep_of_silent (silently_of_growing (blind_updateInorderOffset []))

lemma lockstep_exec (l : Label) : Lockstep Agree (session.exec l) := by
  cases l with
  | read i r x =>
    cases r with
    | error => exact lockstep_of_silent (blind_exceptionForRead i false)
    | closed => exact lockstep_of_silent (blind_exceptionForRead i true)
    | bytes n written => exact lockstep_handleBytes i n written x
  | check x => exact lockstep_of_silent (blind_connCheck x)
  | setupRequest i connects => exact lockstep_of_silent (blind_setupRequest i connects)
  | setupResponse i reply => exact lockstep_of_silent (blind_setupResponse i reply)
  | announce => exact lockstep_of_silent (silently blind_updateLastDownloadedByte)
  | selectFailed => exact lockstep_of_silent (blind_ready .error)
  | stop =>
    exact lockstep_of_video (.modify (fun _ _ => rfl) fun _ => ⟨rfl, rfl, rfl, rfl, List.suffix_refl _⟩)

lemma enabled_of_agree (h : Agree s t) (l : Label) : session.enabled t l ↔ session.enabled s l := by
  obtain ⟨c, rfl, -⟩ := h
  cases l <;> exact Iff.rfl

lemma Twins.eq_putStatics (h : Twins s t) : t = putStatics s t.statics := by
  obtain ⟨exact, conf, size, supported, status, created, c, d, hs, ht⟩ := h
  have hput : { gbNew d conf size supported status with exact := exact } =
      putStatics { gbNew c conf size supported status with exact := exact } d := rfl
  rw [hput, (blind_opening created).run_put, hs] at ht
  have he := (EStateM.Result.ok.inj ht).2
  rw [← he]
  rfl

/-- Sessions that remember the same take the same steps, with all that is recorded of them. -/
lemma Twins.matches_perform (h : Twins s t) (hm : SameMemory s.duration s.statics t.statics)
    (ls : List Label) : Matches Agree (perform session ls s) (perform session ls t) :=
  lockstep_perform (fun _ _ l h => enabled_of_agree h l) lockstep_exec ls
    ⟨t.statics, h.eq_putStatics, hm⟩

/-- What earlier sessions left makes no difference where it is the same to the session; and where they
left the mode of both links, the flag always stands for the mode that was chosen. -/
theorem sessions_isolated (s t : Session) :
    (Twins s t → SameMemory s.duration s.statics t.statics →
      ∀ ls, Matches Agree (perform session ls s) (perform session ls t)) ∧
    ((∀ i x, Lockstep Agree (chooseLinkMode i x)) ∧ (∀ x, Lockstep Agree (getRemainingPlaybackTime x)) ∧
      (∀ x, Lockstep Agree (getPlayerState x)) ∧ ∀ x, Lockstep Agree (updateLteState x)) ∧
    (Reachable dualSession (fun _ => True) s → s.All Event.Flagged) ∧
      ∀ e, Crashes dualSession (fun _ => True) e s → s.All Event.Flagged :=
  ⟨fun h hm ls => h.matches_perform hm ls,
    ⟨lockstep_chooseLinkMode, lockstep_getRemainingPlaybackTime, lockstep_getPlayerState,
      lockstep_updateLteState⟩, flagged_of_dual.1 s, fun e => flagged_of_dual.2 e s⟩

end

/-- The session that `gb_start` leaves. -/
def openedSession (c : Statics) (conf : Conf) (size : ℤ) : Session :=
  after (gbOpen *> gbStart fun _ => true) (gbNew c conf size true 206)

/-- An earlier session fetched the same file. -/
def rememberedStatics : Statics := { freshStatics with videoDuration := .num 64 }

theorem sessions_isolated_of_same_file : Matches Agree
      (perform session (savingSteps 1) (openedSession freshStatics savingConf 8000))
      (perform session (savingSteps 1) (openedSession rememberedStatics savingConf 8000)) ∧
    ∃ s : Session, s.modes = [.single .lte, .dual] ∧ s.All Event.Flagged := by
  have h₁ : result (gbOpen *> gbStart fun _ => true) (gbNew freshStatics savingConf 8000 true 206) =
      some () := by decide +kernel
  have h₂ : result (gbOpen *> gbStart fun _ => true) (gbNew rememberedStatics savingConf 8000 true 206) =
      some () := by decide +kernel
  have htwins : Twins (openedSession freshStatics savingConf 8000)
      (openedSession rememberedStatics savingConf 8000) :=
    ⟨false, savingConf, 8000, true, 206, fun _ => true, freshStatics, rememberedStatics, ok_of_result h₁,
      ok_of_result h₂⟩
  refine ⟨(sessions_isolated _ _).1 htwins ?_ _, ?_⟩
  · exact ⟨by decide +kernel, by decide +kernel, by decide +kernel, by decide +kernel,
      by decide +kernel, by decide +kernel, by decide +kernel⟩
  obtain ⟨s, hs, hm⟩ : ∃ s : Session,
      perform dualSession (savingSteps 1) (openedSession freshStatics savingConf 8000) = .ok () s ∧
        s.modes = [.single .lte, .dual] := exists_of_ok (by decide +kernel)
  refine ⟨s, hm, (sessions_isolated s s).2.2.1 (perform_reachable _ (fun _ _ => trivial) (.start ?_) hs)⟩
  refine ⟨⟨false, freshStatics, savingConf, 8000, 206, fun _ => true, by decide, by decide, ok_of_result h₁⟩, ?_⟩
  show (openedSession freshStatics savingConf 8000).statics.currentLinkMode = .dual
  decide +kernel

/-- What a session with `savingConf` leaves: it has gone over to the LTE link. -/
def leftStatics : Statics where
  currentLinkMode := .single .lte
  numEstQmiss := 0
  videoDuration := .num 64
  lteState := .active
  tailStateStartTime := 0
  lastRecordedTime := 1
  lastNumVframeDecoded := 25

def threeConf : Conf := { savingConf with numOfSegments := 3 }

/-- The file is planned to its end when `choose_link_mode` is called. -/
def threeSteps : List Label :=
  upSteps .lte ++ upSteps .wifi ++ [readStep .lte 1990, readStep .wifi 10, readStep .lte 1990]

lemma history_leftStatics : History leftStatics := by
  have hopen : result (gbOpen *> gbStart fun _ => true) (gbNew freshStatics savingConf 8000 true 206) =
      some () := by decide +kernel
  obtain ⟨t, ht, hleft⟩ : ∃ t : Session,
      perform session (savingSteps 1) (openedSession freshStatics savingConf 8000) = .ok () t ∧
        t.statics = leftStatics := exists_of_ok (by decide +kernel)
  have hfresh : (openedSession freshStatics savingConf 8000).statics = freshStatics := by decide +kernel
  rw [← hleft]
  refine .session (s := openedSession freshStatics savingConf 8000) ?_ ?_ ⟨_, ht⟩
  · rw [hfresh]
    exact .none
  exact ⟨false, freshStatics, savingConf, 8000, 206, fun _ => true, by decide, by decide, ok_of_result hopen⟩

/-- The same session after no other one and after one that used the LTE link: at the end of the file
the mode of the earlier session is returned, and the flag is not set. -/
theorem mode_left_over : ∃ c, History c ∧ ∃ s t u v, Twins s t ∧ s.statics = freshStatics ∧
    t.statics = c ∧ (∃ ls, perform session ls s = .ok () u ∧ perform session ls t = .ok () v) ∧
    u.modes ≠ v.modes ∧ ¬ v.All Event.Flagged := by
  have h₁ : result (gbOpen *> gbStart fun _ => true) (gbNew freshStatics threeConf 6000 true 206) =
      some () := by decide +kernel
  have h₂ : result (gbOpen *> gbStart fun _ => true) (gbNew leftStatics threeConf 6000 true 206) =
      some () := by decide +kernel
  obtain ⟨u, hu, hmu⟩ : ∃ u : Session,
      perform session threeSteps (openedSession freshStatics threeConf 6000) = .ok () u ∧
        u.modes = [.dual, .dual] := exists_of_ok (by decide +kernel)
  obtain ⟨v, hv, hmv, hn⟩ : ∃ v : Session,
      perform session threeSteps (openedSession leftStatics threeConf 6000) = .ok () v ∧
        v.modes = [.single .lte, .dual] ∧ ¬ v.All Event.Flagged := exists_of_ok (by decide +kernel)
  refine ⟨leftStatics, history_leftStatics, openedSession freshStatics threeConf 6000,
    openedSession leftStatics threeConf 6000, u, v, ⟨false, threeConf, 6000, true, 206, fun _ => true, _, _,
      ok_of_result h₁, ok_of_result h₂⟩, by decide +kernel, by decide +kernel, ⟨_, hu, hv⟩, ?_, hn⟩
  rw [hmu, hmv]
  decide

end GreenBag
