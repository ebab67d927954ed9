import GreenBag.Cheapest
import GreenBag.Deciding

/-! `single_link_mode_flag` stands for the link mode in a session that starts with both links. -/

namespace GreenBag

open Programs Machines

/-- The mode a choice returned is not that of both links if and only if the flag is set. -/
def Event.Flagged : Event → Prop
  | .called s (.nextSubsegment mode) _ => s.conf.minimumEnergyMode →
      0 < s.offsetInfo.completedSegmentCount → s.conf.numConnections ≠ 1 →
      (mode ≠ .dual ↔ s.offsetInfo.singleLinkModeFlag)
  | _ => True

instance : DecidablePred Event.Flagged
  | .called s (.nextSubsegment mode) _ => inferInstanceAs (Decidable (s.conf.minimumEnergyMode →
      0 < s.offsetInfo.completedSegmentCount → s.conf.numConnections ≠ 1 →
      (mode ≠ .dual ↔ s.offsetInfo.singleLinkModeFlag)))
  | .called _ .bnChunk _ => isTrue trivial
  | .called _ .nextSegmentSize _ => isTrue trivial
  | .wrote _ _ _ => isTrue trivial
  | .writeFailed _ _ => isTrue trivial
  | .inorder _ _ _ => isTrue trivial
  | .announced _ _ => isTrue trivial
  | .get _ _ _ _ _ => isTrue trivial
  | .header _ _ _ _ => isTrue trivial
  | .stolen _ _ => isTrue trivial

/-- The sessions that find the mode of both links in the static variables. -/
def dualSession : Machine Session Fault Label where
  start s := session.start s ∧ s.statics.currentLinkMode = .dual
  enabled := session.enabled
  exec := session.exec

/-- The flag stands for the present mode, and did so for each mode that was chosen. -/
structure Flagged (s : Session) : Prop where
  flag : s.statics.currentLinkMode ≠ .dual ↔ s.offsetInfo.singleLinkModeFlag
  events : s.All Event.Flagged

def FlaggedCrash (_ : Fault) (s : Session) : Prop := s.All Event.Flagged

/-- The steps of opening a session do not set the flag. -/
def opening : Frame Fault Session where
  rel s t := s.offsetInfo.singleLinkModeFlag = false → t.offsetInfo.singleLinkModeFlag = false
  fault _ _ := True
  refl _ := id
  trans h h' := h' ∘ h

section

variable {α β : Type} {s t : Session} {i : Link} {x : Inputs} {y : Program α}

lemma Event.Silent.flagged (e : Event) (h : e.Silent) : e.Flagged := by
  cases e with
  | called g f k => cases f <;> first | exact h.elim | trivial
  | _ => trivial

lemma Flagged.of_sameLinks (hs : Flagged s) (h : SameLinks s t)
    (hm : t.statics.currentLinkMode = s.statics.currentLinkMode) : Flagged t where
  flag := by
    rw [hm, h.singleLinkModeFlag]
    exact hs.flag
  events := h.trace.all Event.Silent.flagged hs.events

lemma Flagged.wp_blind (hs : Flagged s) (h : Blind putStatics silent y) :
    wp y (fun _ t => Flagged t ∧ SameLinks s t) FlaggedCrash s := by
  refine wp_mono (wp_and (h.keeps s) (h.view_eq putStatics_statics statics_putStatics s))
    (fun _ t ht => ⟨hs.of_sameLinks ht.1 (by rw [ht.2]), ht.1⟩) fun _ t ht => ?_
  exact ht.1.2.trace.all Event.Silent.flagged hs.events

lemma Flagged.wp_silent (hs : Flagged s) (h : Blind putHidden silent y) :
    wp y (fun _ t => Flagged t ∧ SameLinks s t) FlaggedCrash s := hs.wp_blind (statically h)

lemma Flagged.wp_bind {f : α → Program β} {Q : β → Session → Prop} (hs : Flagged s)
    (h : Blind putHidden silent y)
    (hf : ∀ a t, Flagged t → SameLinks s t → wp (f a) Q FlaggedCrash t) :
    wp (y >>= f) Q FlaggedCrash s := by
  rw [Programs.wp_bind]
  exact wp_mono (hs.wp_silent h) (fun a t ht => hf a t ht.1 ht.2) fun _ _ hc => hc

lemma Flagged.wp_gbDetermineNextSubsegment {mode : LinkMode} (hs : Flagged s)
    (he : Event.Flagged (.called s.toGb (.nextSubsegment mode) i)) :
    wp (gbDetermineNextSubsegment i mode) (fun _ t => Flagged t) FlaggedCrash s := by
  have hlog : Flagged { s with trace := .called s.toGb (.nextSubsegment mode) i :: s.trace } :=
    ⟨hs.flag, (all_cons_iff rfl).mpr ⟨he, hs.events⟩⟩
  rw [gbDetermineNextSubsegment, Programs.wp_bind, wp_logEvent]
  exact wp_mono (hlog.wp_blind (blind_nextSubsegment i mode)) (fun _ _ ht => ht.1) fun _ _ hc => hc

lemma Flagged.wp_gbDetermineNextSegmentSize (hs : Flagged s) :
    wp (gbDetermineNextSegmentSize i) (fun _ t => Flagged t) FlaggedCrash s := by
  have hlog : Flagged { s with trace := .called s.toGb .nextSegmentSize i :: s.trace } :=
    ⟨hs.flag, (all_cons_iff (e := .called s.toGb .nextSegmentSize i) rfl).mpr ⟨trivial, hs.events⟩⟩
  rw [gbDetermineNextSegmentSize, Programs.wp_bind, wp_logEvent]
  exact wp_mono (hlog.wp_silent (silently_of_growing blind_wantedSegment)) (fun _ _ ht => ht.1)
    fun _ _ hc => hc

lemma Flagged.wp_gbUpdateGoodput {elapsed : Link → ℚ} (hs : Flagged s) :
    wp (gbUpdateGoodput elapsed) (fun _ t => Flagged t) FlaggedCrash s := by
  rw [gbUpdateGoodput, Programs.wp_bind, wp_modify]
  have hm : ∀ conn, Flagged { s with conn := conn } := fun _ => ⟨hs.flag, hs.events⟩
  refine (hm _).wp_bind (silently blind_getFastConnIndex) fun fast t ht _ => ?_
  exact ⟨ht.flag, ht.events⟩

lemma Flagged.wp_chooseLinkMode (hs : Flagged s) :
    wp (chooseLinkMode i x) (fun mode t => Flagged t ∧ (mode ≠ .dual ↔ t.offsetInfo.singleLinkModeFlag))
      FlaggedCrash s := by
  refine wp_mono wp_chooseLinkMode_chosen (fun mode t ht => ?_) fun e t ht => ?_
  · have hiff : mode ≠ .dual ↔ t.offsetInfo.singleLinkModeFlag := by
      rcases ht.flag with hf | ⟨hf, hm⟩
      · rw [hf, decide_eq_true_eq]
      · rw [hf, hm]
        exact hs.flag
    refine ⟨⟨?_, ht.trace.all Event.Silent.flagged hs.events⟩, hiff⟩
    rw [← ht.mode_eq]
    exact hiff
  · exact ht.2.trace.all Event.Silent.flagged hs.events

lemma Flagged.wp_setupFreshSegment (hs : Flagged s) :
    wp (setupFreshSegment i x) (fun _ t => Flagged t) FlaggedCrash s := by
  rw [setupFreshSegment, Programs.wp_bind]
  refine wp_mono hs.wp_gbUpdateGoodput (fun _ t ht => ?_) fun _ _ hc => hc
  rw [Programs.wp_bind]
  refine wp_mono ht.wp_gbDetermineNextSegmentSize (fun size u hu => ?_) fun _ _ hc => hc
  rw [wp_ite]
  refine ⟨fun _ => hu, fun _ => ?_⟩
  rw [Programs.wp_bind, wp_get, Programs.wp_bind, wp_ite]
  refine ⟨fun _ => ?_, fun hn => ?_⟩
  · refine wp_mono hu.wp_chooseLinkMode (fun mode v hv => ?_) fun _ _ hc => hc
    rw [Programs.wp_bind]
    exact hv.1.wp_gbDetermineNextSubsegment fun _ _ _ => hv.2
  · rw [wp_pure, Programs.wp_bind]
    exact hu.wp_gbDetermineNextSubsegment fun he hc hl => absurd ⟨he, hc, hl⟩ hn

lemma Flagged.wp_decideRecoveryMode (hs : Flagged s) : wp (decideRecoveryMode i x)
    (fun recover t => Flagged t ∧ (recover = true → t.offsetInfo.singleLinkModeFlag = false))
    FlaggedCrash s := by
  rw [decideRecoveryMode, Programs.wp_bind]
  refine wp_mono (wp_and ((blind_getPlayerState _).keeps s) (keepsMode_getPlayerState _ s))
    (fun player t ht => ?_) fun e t ht => ht.1.2.trace.all Event.Silent.flagged hs.events
  have ht := hs.of_sameLinks ht.1.sameCount.toSameLinks ht.2.1
  rw [Programs.wp_bind]
  have hnone : wp (segmentToRecover i) (fun other t => other ≠ none →
      t.offsetInfo.singleLinkModeFlag = false) (fun _ _ => True) t := by
    rw [segmentToRecover, Programs.wp_bind, wp_get, wp_ite]
    refine ⟨fun _ hn => absurd rfl hn, fun hn => ?_⟩
    have hoff : t.offsetInfo.singleLinkModeFlag = false := by simpa using hn
    cases t.offsetInfo.connection i.other with
    | none => exact fun _ => hoff
    | some id => simp [hoff]
  refine wp_mono (wp_and (ht.wp_silent (silently (blind_segmentToRecover i))) hnone)
    (fun other u hu => ?_) fun _ _ hc => hc.1
  cases other with
  | none => exact ⟨hu.1.1, fun hr => by cases hr⟩
  | some other =>
    have hoff := hu.2 (by simp)
    refine wp_mono (hu.1.1.wp_silent (silently (blind_recoveryPays i x other))) (fun recover v hv => ?_)
      fun _ _ hc => hc
    exact ⟨hv.1, fun _ => hv.2.singleLinkModeFlag.trans hoff⟩

lemma Flagged.wp_performRecovery (hs : Flagged s) :
    wp (performRecovery i x) (fun _ t => Flagged t) FlaggedCrash s := by
  rw [performRecovery, Programs.wp_bind, wp_get, wp_ite]
  refine ⟨fun _ => ?_, fun _ => hs⟩
  rw [Programs.wp_bind]
  refine wp_mono hs.wp_decideRecoveryMode (fun recover t ht => ?_) fun _ _ hc => hc
  rw [wp_ite]
  refine ⟨fun hr => ?_, fun _ => ht.1⟩
  have hoff := ht.2 hr
  have hlog : Blind putHidden silent (logEvent (.stolen · i.other)) := silently (blind_logEvent fun _ => trivial)
  refine ht.1.wp_bind hlog fun _ u₁ h₁ hl₁ => ?_
  refine h₁.wp_bind (blind_modifyConn fun _ => ⟨rfl, rfl⟩) fun _ u₂ h₂ hl₂ => ?_
  refine h₂.wp_bind (blind_connDisconnect _) fun _ u₃ h₃ hl₃ => ?_
  refine h₃.wp_bind (blind_recoverOutorderPortionAndNextSegment _) fun _ u₄ h₄ hl₄ => ?_
  have hflag := (((hl₁.trans hl₂).trans hl₃).trans hl₄).singleLinkModeFlag.trans hoff
  have he : Event.Flagged (.called u₄.toGb (.nextSubsegment .dual) i) :=
    fun _ _ _ => by simp [hflag]
  rw [Programs.wp_bind]
  refine wp_mono (h₄.wp_gbDetermineNextSubsegment he) (fun _ u₅ h₅ => ?_) fun _ _ hc => hc
  exact ⟨h₅.flag, h₅.events⟩

lemma Flagged.wp_gbSetupNextSegment (hs : Flagged s) :
    wp (gbSetupNextSegment i x) (fun _ t => Flagged t) FlaggedCrash s := by
  have hfresh : ∀ {t : Session} (c : Prop) [Decidable c] (b : Bool), Flagged t →
      wp (if c then pure b else setupFreshSegment i x) (fun _ t => Flagged t) FlaggedCrash t := by
    intro t c _ b ht
    rw [wp_ite]
    exact ⟨fun _ => ht, fun _ => ht.wp_setupFreshSegment⟩
  rw [gbSetupNextSegment, Programs.wp_bind, wp_get]
  refine hs.wp_bind (silently (blind_connAt i)) fun c t ht _ => ?_
  rw [wp_ite]
  refine ⟨fun _ => ht, fun _ => ?_⟩
  cases s.offsetInfo.getConnOrderCase i with
  | behind =>
    simp only [wp_ite]
    refine ⟨fun _ => ?_, fun _ => ht.wp_setupFreshSegment⟩
    exact ht.wp_bind (.modify (fun _ _ => rfl) fun u => ⟨.of_conn rfl rfl rfl rfl rfl (.refl u), rfl⟩)
      fun _ u hu _ => hu
  | ahead =>
    simp only []
    rw [Programs.wp_bind]
    refine wp_mono ht.wp_gbUpdateGoodput (fun _ u hu => ?_) fun _ _ hc => hc
    rw [Programs.wp_bind]
    refine wp_mono hu.wp_performRecovery (fun recovered v hv => ?_) fun _ _ hc => hc
    rw [wp_ite]
    refine ⟨fun _ => hv, fun _ => ?_⟩
    rw [Programs.wp_bind, wp_get]
    refine hv.wp_bind (silently (blind_follow _)) fun tail w hw _ => ?_
    exact hw.wp_bind (.ensure (harmless (by decide))) fun _ w hw _ => hfresh _ _ hw
  | oneSeg =>
    simp only []
    rw [Programs.wp_bind]
    refine wp_mono ht.wp_gbUpdateGoodput (fun _ u hu => ?_) fun _ _ hc => hc
    refine hu.wp_bind (silently (blind_connAt _)) fun d v hv _ => ?_
    rw [Programs.wp_bind, wp_ite]
    refine ⟨fun _ => ?_, fun _ => hfresh _ _ hv⟩
    exact wp_mono hv.wp_performRecovery (fun recovered w hw => hfresh _ _ hw) fun _ _ hc => hc

lemma Flagged.wp_handleBytes {n : ℤ} {written : Bool} (hs : Flagged s) (hi : i ∈ s.links) :
    wp (handleBytes i n written x) (fun _ t => Flagged t) FlaggedCrash s := by
  have hr : Flagged (s.received i n written) := by
    cases written
    · exact ⟨hs.flag, (all_cons_iff (e := .writeFailed _ i) rfl).mpr ⟨trivial, hs.events⟩⟩
    · exact ⟨hs.flag, (all_cons_iff (e := .wrote _ i _) rfl).mpr ⟨trivial, hs.events⟩⟩
  have hrest : ∀ rest : Unit → Program Unit,
      wp (rest ()) (fun _ t => Flagged t) FlaggedCrash (s.received i n written) →
      wp (do
        modifyConn i fun c => { c with outstanding := consume n c.outstanding }
        let a ← writeReceivedData i n written
        rest a) (fun _ t => Flagged t) FlaggedCrash s := by
    intro rest hr
    have hw := wp_writeReceivedData (s := s) (i := i) (C := FlaggedCrash)
      (Q := fun _ t => wp (rest ()) (fun _ t => Flagged t) FlaggedCrash t) n written hi hr
    simpa only [Programs.wp_bind] using hw
  rw [handleBytes, Programs.wp_bind, wp_connAt]
  refine ⟨fun _ => hrest _ ?_, fun hn => absurd hi hn⟩
  rw [Programs.wp_bind, wp_get]
  refine hr.wp_bind (silently (blind_follow _)) fun g t ht _ => ?_
  refine ht.wp_bind (.demand (harmless (by decide)) _) fun p u hu _ => ?_
  have hlast : ∀ v, Flagged v → wp (if (s.conn i).lastbyte - (s.conn i).currentbyte + 1 ≤ n then
      finishChunk i x else updateInorderOffset []) (fun _ t => Flagged t) FlaggedCrash v := by
    intro v hv
    refine wp_mono (hv.wp_silent (.ite (fun _ => blind_finishChunk i x) fun _ => ?_))
      (fun _ _ hw => hw.1) fun _ _ hc => hc
    exact silently_of_growing (blind_updateInorderOffset [])
  rw [Programs.wp_bind, wp_whenever]
  refine ⟨fun _ => ?_, fun _ => hlast u hu⟩
  rw [planAhead, Programs.wp_bind]
  refine wp_mono hu.wp_gbSetupNextSegment (fun planned v hv => ?_) fun _ _ hc => hc
  rw [wp_whenever]
  refine ⟨fun _ => ?_, fun _ => hlast v hv⟩
  exact wp_mono (hv.wp_silent (blind_sendPlanned i x)) (fun _ w hw => hlast w hw.1) fun _ _ hc => hc

lemma Flagged.wp_exec (hs : Flagged s) (l : Label) (hl : l.Enabled s) :
    wp l.exec (fun _ t => Flagged t) FlaggedCrash s := by
  have hblind : ∀ {y : Program Unit}, Blind putHidden silent y →
      wp y (fun _ t => Flagged t) FlaggedCrash s :=
    fun hy => wp_mono (hs.wp_silent hy) (fun _ _ ht => ht.1) fun _ _ hc => hc
  cases l with
  | read i r x =>
    cases r with
    | error => exact hblind (blind_exceptionForRead i false)
    | closed => exact hblind (blind_exceptionForRead i true)
    | bytes n written => exact hs.wp_handleBytes hl.1
  | check x => exact hblind (blind_connCheck x)
  | setupRequest i connects => exact hblind (blind_setupRequest i connects)
  | setupResponse i reply => exact hblind (blind_setupResponse i reply)
  | announce => exact hblind (silently blind_updateLastDownloadedByte)
  | selectFailed => exact hblind (blind_ready .error)
  | stop => exact hblind (.modify (fun _ _ => rfl) fun u => ⟨.of_conn rfl rfl rfl rfl rfl (.refl u), rfl⟩)

lemma openly (h : Blind putStatics silent y) : Blind putStatics opening y :=
  h.mono (fun _ _ ht hf => ht.singleLinkModeFlag.trans hf) fun _ _ _ => trivial

lemma openly_of_silent (h : Blind putHidden silent y) : Blind putStatics opening y := openly (statically h)

lemma blind_gbInitSegmentSetup : Blind putStatics opening gbInitSegmentSetup := by
  have hsigned : ∀ (width : ℕ) (n : ℤ), Blind putStatics opening (signed width n) :=
    fun width n => openly (silently (blind_signed width n))
  refine .bind (.modify (fun _ _ => rfl) fun _ _ => rfl) fun _ => .bind ?_ fun size => ?_
  · refine .read (fun _ _ => rfl) fun s => .bind (hsigned _ _) fun bytes => .ite (fun _ => ?_) fun _ => .pure _
    refine .bind (.ensure fun _ => trivial) fun _ => .bind (hsigned _ _) fun count => ?_
    exact .bind (.modify (fun _ _ => rfl) fun _ => id) fun _ => .pure _
  refine .bind (.modify (fun _ _ => rfl) fun _ => id) fun _ => ?_
  refine .bind (openly_of_silent (silently_of_growing (blind_addNewSegment _ _ _))) fun _ => ?_
  refine .read (fun _ _ => rfl) fun s => .bind (openly (blind_addNewSubsegment _ _ _ _)) fun _ => ?_
  refine .bind (.each fun i => ?_) fun _ =>
    .bind (hsigned _ _) fun rate => .modify (fun _ _ => rfl) fun _ => id
  refine .read (fun _ _ => rfl) fun s => .bind (.demand (fun _ => trivial) _) fun head => ?_
  refine .bind (.demand (fun _ => trivial) _) fun last => ?_
  refine .bind (.whenever fun _ => .modify (fun _ _ => rfl) fun _ => id) fun _ => ?_
  cases head.subsegment i with
  | none => exact .modify (fun _ _ => rfl) fun _ => id
  | some p =>
    refine .bind (.modify (fun _ _ => rfl) fun _ => id) fun _ => ?_
    refine .bind (.demand (fun _ => trivial) _) fun c => ?_
    exact .modify (fun _ _ => rfl) fun _ => id

lemma blind_opening (created : Link → Bool) :
    Blind putStatics opening (gbOpen *> gbStart created) := by
  refine .bind (.bind (openly_of_silent (silently (blind_connAt _))) fun lte => ?_) fun _ => ?_
  · refine .bind (.whenever fun _ => ?_) fun _ => blind_gbInitSegmentSetup
    exact .bind (.modify (fun _ _ => rfl) fun _ => id) fun _ => blind_gbInitSegmentSetup
  · refine .read (fun _ _ => rfl) fun s => .bind (.each fun i => ?_) fun _ => ?_
    · refine .bind (openly_of_silent (silently (blind_connAt i))) fun c => ?_
      refine .bind (.whenever fun _ => .modify (fun _ _ => rfl) fun _ => id) fun _ => ?_
      exact .whenever fun _ => openly_of_silent (blind_createSetupThread _ _)
    · exact .modify (fun _ _ => rfl) fun _ => id

lemma flagged_of_start (h : dualSession.start s) : Flagged s := by
  obtain ⟨hstart, hdual⟩ := h
  obtain ⟨n, g, ho⟩ := opened_of_start hstart
  obtain ⟨exact, statics, conf, size, status, created, -, -, hrun⟩ := hstart
  have hkeep := ((wp_iff _).mp ((blind_opening created).keeps
    { gbNew statics conf size true status with exact := exact })).1
  have hoff : s.offsetInfo.singleLinkModeFlag = false := hkeep () s hrun rfl
  refine ⟨by simp [hdual, hoff], fun e he => ?_⟩
  rw [ho.trace] at he
  cases he

/-- In a session that starts with both links the flag always stands for the mode that was chosen. -/
lemma flagged_of_dual :
    (∀ s, Reachable dualSession (fun _ => True) s → s.All Event.Flagged) ∧
      ∀ e s, Crashes dualSession (fun _ => True) e s → s.All Event.Flagged := by
  have hstep : ∀ s l, Flagged s → dualSession.enabled s l → True →
      wp (dualSession.exec l) (fun _ t => Flagged t) FlaggedCrash s := fun s l hs hl _ => hs.wp_exec l hl
  refine ⟨fun s h => ?_, fun e s h => h.invariant (fun _ hs => flagged_of_start hs) hstep⟩
  exact (h.invariant (fun _ hs => flagged_of_start hs) fun s l hs hl ha =>
    wp_mono (hstep s l hs hl ha) (fun _ _ ht => ht) fun _ _ _ => trivial).events

end

end GreenBag
