import GreenBag.Silent

/-! The decisions that depend on the static variables: what they leave as it is, and how they may
crash. -/

namespace GreenBag

open Programs

/-- The average of each link is positive. -/
def Gb.Metered (s : Gb) : Prop := ∀ i, 1 ≤ (s.conn i).ewmaBytesPerSecond

/-- Steps that only look, and may crash in such ways. -/
def lookingUpTo (P : Fault → Prop) : Frame Fault Session where
  rel := SameDownload
  fault e _ := P e
  refl := .refl
  trans := .trans

/-- Steps that only look; an assertion about the goodputs fails only where a link has none. -/
def deciding : Frame Fault Session where
  rel := SameDownload
  fault e s := e = .assertGoodput → ¬ s.Metered
  refl := .refl
  trans := .trans

section

variable {α : Type} {y : Program α} {s t : Session} {i : Link} {x : Inputs}

lemma SameMeter.metered (h : SameMeter s t) (hs : s.Metered) : t.Metered := by
  intro i
  rw [h.average]
  exact hs i

lemma upTo {P : Fault → Prop} (hP : ∀ e, e ≠ .assertGoodput → P e) (h : Blind putExact looking y) :
    Blind putExact (lookingUpTo P) y :=
  h.mono (fun _ _ ht => ht) fun e _ he => hP e he

lemma decidingly (h : Keeps looking y) : Keeps deciding y :=
  h.mono (fun _ _ ht => ht) fun _ _ he hg => absurd hg he

lemma blind_modifyStatics (f : Statics → Statics) : Blind putExact looking (modifyStatics f) :=
  .modify (fun _ _ => rfl) fun s => ⟨rfl, rfl, rfl, rfl, rfl, rfl, .refl s⟩

lemma blind_getPlayerState (x : Sample) : Blind putExact looking (getPlayerState x) := by
  rw [getPlayerState]
  cases x.frames with
  | none => exact .pure _
  | some n => exact .read (fun _ _ => rfl) fun s => .bind (blind_modifyStatics _) fun _ => .pure _

lemma blind_getRemainingPlaybackTime (x : Sample) :
    Blind putExact looking (getRemainingPlaybackTime x) := by
  rw [getRemainingPlaybackTime]
  refine .read (fun _ _ => rfl) fun s => .bind ?_ fun _ => .read (fun _ _ => rfl) fun _ => .pure _
  exact .whenever fun _ => blind_modifyStatics _

lemma blind_doesQmissUntilNextPortionInLinkMode (size : ℤ) (mode : LinkMode) (x : Sample) :
    Blind putExact looking (doesQmissUntilNextPortionInLinkMode size mode x) :=
  .read (fun _ _ => rfl) fun _ => .bind (blind_getRemainingPlaybackTime x) fun _ => .pure _

lemma blind_updateLteState (x : Sample) : Blind putExact looking (updateLteState x) := by
  refine .read (fun _ _ => rfl) fun s => ?_
  have hlast : ∀ y : Program Unit, Blind putExact looking y → Blind putExact looking (do
      y
      let s ← get
      return (s.statics.lteState, s.statics.tailStateStartTime)) :=
    fun y hy => .bind hy fun _ => .read (fun _ _ => rfl) fun _ => .pure _
  cases s.statics.lteState with
  | idle => exact hlast _ (.whenever fun _ => blind_modifyStatics _)
  | tail =>
    refine .ite (fun _ => hlast _ (blind_modifyStatics _)) fun _ => hlast _ ?_
    exact .whenever fun _ => blind_modifyStatics _
  | active => exact hlast _ (.whenever fun _ => blind_modifyStatics _)

lemma blind_transferEnergy (mode : LinkMode) (lte wifi size : ℤ) :
    Blind putExact looking (transferEnergy mode lte wifi size) := by
  rcases mode with _ | ⟨_ | _⟩
  · exact .bind (.ensure (harmless (by decide))) fun _ => .pure _
  · exact .pure _
  · exact .pure _

lemma blind_getEnergyConsumption {P : Fault → Prop} (hP : ∀ e, e ≠ .assertGoodput → P e)
    {lte wifi : ℤ} (h : (lte ≠ 0 ∨ wifi ≠ 0) ∨ P .assertGoodput) (mode : LinkMode) (size : ℤ)
    (x : Inputs) : Blind putExact (lookingUpTo P) (getEnergyConsumption mode lte wifi size x) := by
  refine .bind (upTo hP (blind_updateLteState _)) fun _ => .bind (.ite (fun _ => .pure _) fun hn => ?_)
    fun _ => ?_
  · exact .throw fun _ => h.resolve_left hn
  · refine .ite (fun _ => ?_) fun _ => .pure _
    exact .bind (upTo hP (blind_transferEnergy _ _ _ _)) fun _ => .pure _

lemma keeps_getEnergySortedLinkModes (size : ℤ) (x : Inputs) :
    Keeps deciding (getEnergySortedLinkModes size x) := by
  intro s
  have hrun : ∀ {P : Fault → Prop}, (∀ e, e ≠ .assertGoodput → P e) →
      ((∀ i, (s.conn i).ewmaBytesPerSecond ≠ 0) ∨ P .assertGoodput) →
      wp (getEnergySortedLinkModes size x) (fun _ t => SameDownload s t)
        (fun e t => P e ∧ SameDownload s t) s := by
    intro P hP h
    rw [getEnergySortedLinkModes, wp_bind, wp_get]
    have hl := h.imp_left fun hi => Or.inl (b := (s.conn .wifi).ewmaBytesPerSecond ≠ 0) (hi .lte)
    have hlte := h.imp_left fun hi => Or.inl (b := (0 : ℤ) ≠ 0) (hi .lte)
    have hwifi := h.imp_left fun hi => Or.inr (a := (0 : ℤ) ≠ 0) (hi .wifi)
    refine Keeps.bind (F := lookingUpTo P) (blind_getEnergyConsumption hP hl _ _ _).keeps (fun _ => ?_) s
    refine .bind (blind_getEnergyConsumption hP hlte _ _ _).keeps fun _ => ?_
    exact .bind (blind_getEnergyConsumption hP hwifi _ _ _).keeps fun _ => .pure _
  by_cases hs : s.Metered
  · refine wp_mono (hrun (fun _ he => he) (.inl fun i => ne_of_gt (hs i))) (fun _ _ ht => ht) ?_
    exact fun e t ht => ⟨fun he => absurd he ht.1, ht.2⟩
  · refine wp_mono (hrun (P := fun _ => True) (fun _ _ => trivial) (.inr trivial))
      (fun _ _ ht => ht) fun e t ht => ⟨fun _ hm => hs fun i => ?_, ht.2⟩
    rw [← ht.2.conn]
    exact hm i

lemma blind_considerLinkModes (size : ℤ) (x : Inputs) (modes : List LinkMode) :
    Blind putExact looking (considerLinkModes size x modes) := by
  rcases modes with _ | ⟨_ | i, _⟩
  · exact .pure _
  · rw [considerLinkModes]
    exact blind_modifyStatics _
  · refine .bind (blind_doesQmissUntilNextPortionInLinkMode _ _ _) fun _ => ?_
    exact .whenever fun _ => blind_modifyStatics _

lemma keeps_selectLinkMode (size : ℤ) (x : Inputs) : Keeps deciding (selectLinkMode size x) :=
  .bind (keeps_getEnergySortedLinkModes size x) fun _ => decidingly (blind_considerLinkModes _ _ _).keeps

lemma keeps_reconsiderSingleMode (size : ℤ) (mode : LinkMode) (x : Inputs) :
    Keeps deciding (reconsiderSingleMode size mode x) := by
  refine .bind (decidingly (blind_doesQmissUntilNextPortionInLinkMode _ _ _).keeps) fun miss => ?_
  have hmodify : ∀ f, Keeps looking (modifyStatics f) := fun f => (blind_modifyStatics f).keeps
  refine .ite (fun _ => decidingly (.bind (hmodify _) fun _ => .bind .get fun s => ?_))
    fun _ => .bind (decidingly (hmodify _)) fun _ => keeps_selectLinkMode _ _
  exact .whenever fun _ => hmodify _

lemma keeps_reconsiderDualMode (i : Link) (size : ℤ) (x : Inputs) :
    Keeps deciding (reconsiderDualMode i size x) := by
  refine .bind (decidingly (blind_doesQosMissUntilBnChunk _ _).keeps) fun miss => ?_
  exact .whenever fun _ => keeps_selectLinkMode _ _

/-- What a choice returns: without anything left to plan, the present mode, and nothing changes; or
the new one, which the flag stands for. -/
structure Chosen (s : Session) (mode : LinkMode) (t : Session) : Prop extends SameMeter s t where
  mode_eq : mode = t.statics.currentLinkMode
  count : t.offsetInfo.completedSegmentCount = s.offsetInfo.completedSegmentCount
  flag : t.offsetInfo.singleLinkModeFlag = decide (mode ≠ .dual) ∨
    t.offsetInfo.singleLinkModeFlag = s.offsetInfo.singleLinkModeFlag ∧
      mode = s.statics.currentLinkMode

/-- How a choice that began in a session may crash. -/
def Undecided (s : Session) (e : Fault) (t : Session) : Prop :=
  (e = .assertGoodput → ¬ t.Metered) ∧ SameMeter s t

lemma wp_chooseLinkMode_chosen : wp (chooseLinkMode i x) (fun mode t => Chosen s mode t) (Undecided s) s := by
  have hcrash : ∀ {t : Session}, SameDownload s t → ∀ e u, deciding.fault e u ∧ SameDownload t u →
      Undecided s e u := fun ht e u hu => ⟨hu.1, (ht.trans hu.2).sameCount.toSameMeter⟩
  have hlast : ∀ {t : Session} (y : Program Unit), SameDownload s t → Keeps deciding y → wp (do
      y
      let s ← get
      modifyOffsetInfo fun o => { o with singleLinkModeFlag := s.statics.currentLinkMode ≠ .dual }
      return s.statics.currentLinkMode) (fun mode t => Chosen s mode t) (Undecided s) t := by
    intro t y ht hy
    rw [wp_bind]
    refine wp_mono (hy t) (fun _ u hu => ?_) (hcrash ht)
    have hsu := (ht.trans hu).sameCount
    exact ⟨hsu.toSameMeter.trans (.of_conn rfl rfl rfl rfl rfl (.refl u)), rfl, hsu.count, .inl rfl⟩
  rw [chooseLinkMode, wp_bind]
  have hsize := wp_and (blind_getRemainingFileSize.keeps s)
    ((statically blind_getRemainingFileSize).view_eq putStatics_statics statics_putStatics s)
  refine wp_mono hsize (fun size t ht => ?_) fun e u hu => hcrash (.refl s) e u ⟨?_, hu.1.2⟩
  · rw [wp_bind, wp_get, wp_ite]
    have hst := ht.1.sameCount
    refine ⟨fun _ => ⟨hst.toSameMeter, rfl, hst.count, .inr ⟨hst.singleLinkModeFlag, ?_⟩⟩, fun _ => ?_⟩
    · rw [ht.2]
    rw [wp_bind]
    refine (decidingly (blind_getPlayerState _).keeps).wp (fun player u hu => ?_) fun e u he hu => ?_
    · have hsu := ht.1.trans hu
      rw [wp_bind, wp_get, wp_ite]
      refine ⟨fun _ => ?_, fun _ => hlast _ hsu (decidingly (blind_modifyStatics _).keeps)⟩
      cases u.statics.currentLinkMode with
      | dual => exact hlast _ hsu (keeps_reconsiderDualMode _ _ _)
      | single j => exact hlast _ hsu (keeps_reconsiderSingleMode _ _ _)
    · exact hcrash ht.1 e u ⟨he, hu⟩
  · exact fun he => absurd he hu.1.1

lemma blind_decideRecoveryMode (i : Link) (x : Inputs) :
    Blind putExact looking (decideRecoveryMode i x) := by
  refine .bind (blind_getPlayerState _) fun _ => .bind (exactly (blind_segmentToRecover i)) fun other => ?_
  cases other with
  | none => exact .pure _
  | some other => exact exactly (blind_recoveryPays _ _ _)

end

end GreenBag
