import GreenBag.Quiet

/-! The choices of a planning step: whether to recover, and over which links. They announce what is
downloaded and keep notes in the statics; the session stays as it is. -/

namespace GreenBag

open Programs Ranges Schedules Doubles

/-- A step of a choice made while a connection plans. -/
structure Whisper (i : Link) (s t : Session) : Prop where
  planning : Planning i t.toGb
  log : Log t
  murmur : Murmur s t
  conn : t.conn = s.conn
  offsetInfo : t.offsetInfo = s.offsetInfo
  sincere : Sincere t.trace

section

variable {i : Link} {s t : Session}

lemma Whisper.refl (h : Planning i s.toGb) (hl : Log s) (hs : s.All Event.Sound) : Whisper i s s :=
  ⟨h, hl, .refl s, rfl, rfl, hs, hl.guess⟩

lemma Planning.of_murmur (h : Planning i s.toGb) (hm : Murmur s t) (hc : t.conn = s.conn) :
    Planning i t.toGb :=
  ⟨h.rep.of_core hm.core, hc ▸ h.goodput, hc ▸ h.unsent⟩

lemma Whisper.statics (h : Whisper i s t) (σ : Statics) : Whisper i s { t with statics := σ } :=
  ⟨h.planning, .silent (s := t) rfl rfl rfl rfl h.log, ⟨h.murmur.core, h.murmur.exact, h.murmur.trace⟩, h.conn,
    h.offsetInfo, h.sincere⟩

lemma Whisper.called (h : Whisper i s t) {f : Call} (hf : Event.Sound (.called t.toGb f i)) :
    Whisper i s (t.called f i) :=
  ⟨h.planning, h.log.note _ f i, h.murmur.trans (.note t hf), h.conn, h.offsetInfo,
    h.sincere.cons hf (by simp)⟩

lemma wp_getPlayerState (h : Whisper i s t) (x : Sample) :
    wp (getPlayerState x) (fun _ u => Whisper i s u) Sane t := by
  rw [getPlayerState]
  split
  · exact h
  · simp only [wp_bind, wp_get, wp_modifyStatics, wp_pure]
    exact h.statics _

lemma wp_getRemainingPlayableTime (h : Whisper i s t) (x : Sample) :
    wp (getRemainingPlayableTime x) (fun _ u => Whisper i s u) Sane t := by
  simp only [getRemainingPlayableTime, wp_bind, wp_get, wp_pure]
  refine wp_mono (wp_updateLastDownloadedByte h.planning.rep h.log) ?_ (fun _ _ h => h)
  rintro _ u ⟨hl, hm, hc, ho⟩
  have hconn : u.conn = t.conn := funext hc
  exact ⟨h.planning.of_murmur hm hconn, hl, h.murmur.trans hm, hconn.trans h.conn,
    ho.trans h.offsetInfo, hm.sound h.sincere.sound, hl.guess⟩

lemma wp_getRemainingPlaybackTime (h : Whisper i s t) (x : Sample) :
    wp (getRemainingPlaybackTime x) (fun _ u => Whisper i s u) Sane t := by
  simp only [getRemainingPlaybackTime, wp_bind, wp_get, wp_whenever, wp_modifyStatics, wp_pure]
  exact ⟨fun _ => h.statics _, fun _ => h⟩

lemma wp_getBnChunkInfo (h : Whisper i s t) :
    wp (getBnChunkInfo i) (fun _ u => Whisper i s u) Sane t := by
  have hc := h.called (f := .bnChunk) h.planning
  simp only [getBnChunkInfo, wp_bind, wp_logEvent, wp_get]
  split
  · simp only [wp_bind, wp_demand, wp_pure, sane_nullPointer]
    exact ⟨fun _ _ => hc, fun _ => hc.sincere⟩
  · split
    · simp only [wp_bind, wp_demand, wp_pure, sane_nullPointer]
      exact ⟨fun _ _ => hc, fun _ => hc.sincere⟩
    · split
      · exact hc
      · split <;> exact hc

lemma wp_doesQosMissUntilBnChunk (h : Whisper i s t) (x : Sample) :
    wp (doesQosMissUntilBnChunk i x) (fun _ u => Whisper i s u) Sane t := by
  simp only [doesQosMissUntilBnChunk, wp_bind, wp_pure, wp_connAt, sane_connOutOfBounds]
  refine wp_mono (wp_getBnChunkInfo h) ?_ (fun _ _ h => h)
  exact fun bn u hu => ⟨fun _ => wp_getRemainingPlayableTime hu x, fun _ => hu.sincere⟩

lemma wp_doesQmissUntilNextPortionInLinkMode (h : Whisper i s t) (size : ℤ) (mode : LinkMode)
    (x : Sample) :
    wp (doesQmissUntilNextPortionInLinkMode size mode x) (fun _ u => Whisper i s u) Sane t := by
  simp only [doesQmissUntilNextPortionInLinkMode, wp_bind, wp_get, wp_pure]
  exact wp_getRemainingPlaybackTime h x

lemma wp_updateLteState (h : Whisper i s t) (x : Sample) :
    wp (updateLteState x) (fun _ u => Whisper i s u) Sane t := by
  simp only [updateLteState, wp_bind, wp_get]
  split <;> simp only [wp_bind, wp_whenever, wp_ite, wp_modifyStatics, wp_get, wp_pure]
  · exact ⟨fun _ => h.statics _, fun _ => h⟩
  · exact ⟨fun _ => h.statics _, fun _ => ⟨fun _ => h.statics _, fun _ => h⟩⟩
  · exact ⟨fun _ => h.statics _, fun _ => h⟩

lemma wp_transferEnergy {post : Double → Session → Prop} (hs : Sincere t.trace) (mode : LinkMode)
    (lte wifi size : ℤ) (hp : ∀ energy, post energy t) :
    wp (transferEnergy mode lte wifi size) post Sane t := by
  rcases mode with _ | ⟨_ | _⟩ <;> simp [transferEnergy, hp, hs]

lemma wp_getEnergyConsumption (h : Whisper i s t) (mode : LinkMode) (lte wifi size : ℤ)
    (x : Inputs) :
    wp (getEnergyConsumption mode lte wifi size x) (fun _ u => Whisper i s u) Sane t := by
  simp only [getEnergyConsumption, wp_bind]
  refine wp_mono (wp_updateLteState h _) ?_ (fun _ _ h => h)
  rintro ⟨state, start⟩ u hu
  simp only [wp_ensure, wp_ite, wp_bind, wp_pure, sane_assertGoodput, hu.sincere, implies_true,
    and_true]
  exact fun _ => ⟨fun _ => wp_transferEnergy hu.sincere mode lte wifi size fun _ => hu, fun _ => hu⟩

lemma wp_getEnergySortedLinkModes (h : Whisper i s t) (size : ℤ) (x : Inputs) :
    wp (getEnergySortedLinkModes size x) (fun _ u => Whisper i s u) Sane t := by
  simp only [getEnergySortedLinkModes, wp_bind, wp_get, wp_pure]
  refine wp_mono (wp_getEnergyConsumption h ..) ?_ (fun _ _ h => h)
  intro _ u hu
  refine wp_mono (wp_getEnergyConsumption hu ..) ?_ (fun _ _ h => h)
  intro _ v hv
  exact wp_mono (wp_getEnergyConsumption hv ..) (fun _ _ h => h) (fun _ _ h => h)

lemma wp_selectLinkMode (h : Whisper i s t) (size : ℤ) (x : Inputs) :
    wp (selectLinkMode size x) (fun _ u => Whisper i s u) Sane t := by
  simp only [selectLinkMode, wp_bind]
  refine wp_mono (wp_getEnergySortedLinkModes h size x) ?_ (fun _ _ h => h)
  intro sorted u hu
  rcases sorted with _ | ⟨_ | k, _⟩ <;>
    simp only [considerLinkModes, wp_pure, wp_modifyStatics, wp_bind, wp_whenever]
  · exact hu
  · exact hu.statics _
  · refine wp_mono (wp_doesQmissUntilNextPortionInLinkMode hu ..) ?_ (fun _ _ h => h)
    exact fun _ v hv => ⟨fun _ => hv.statics _, fun _ => hv⟩

lemma wp_reconsiderSingleMode (h : Whisper i s t) (size : ℤ) (mode : LinkMode) (x : Inputs) :
    wp (reconsiderSingleMode size mode x) (fun _ u => Whisper i s u) Sane t := by
  simp only [reconsiderSingleMode, wp_bind]
  refine wp_mono (wp_doesQmissUntilNextPortionInLinkMode h ..) ?_ (fun _ _ h => h)
  intro _ u hu
  simp only [wp_ite, wp_bind, wp_modifyStatics, wp_get, wp_whenever]
  exact ⟨fun _ => ⟨fun _ => (hu.statics _).statics _, fun _ => hu.statics _⟩,
    fun _ => wp_selectLinkMode (hu.statics _) size x⟩

lemma wp_reconsiderDualMode (h : Whisper i s t) (size : ℤ) (x : Inputs) :
    wp (reconsiderDualMode i size x) (fun _ u => Whisper i s u) Sane t := by
  simp only [reconsiderDualMode, wp_bind]
  refine wp_mono (wp_doesQosMissUntilBnChunk h _) ?_ (fun _ _ h => h)
  intro _ u hu
  rw [wp_whenever]
  exact ⟨fun _ => wp_selectLinkMode hu size x, fun _ => hu⟩

lemma wp_getStartByteNextSegment {crash : Fault → Session → Prop} {post : ℤ → Session → Prop}
    (hs : s.offsetInfo.tail = none → crash .assertTail s) (hp : post s.frontier s) :
    wp getStartByteNextSegment post crash s := by
  simp only [getStartByteNextSegment, wp_bind, wp_get, wp_ensure, wp_pure]
  exact ⟨fun _ => hp, fun hn => hs (not_not.mp hn)⟩

lemma wp_chooseLinkMode (h : Planning i s.toGb) (hl : Log s) (hs : s.All Event.Sound) (x : Inputs) :
    wp (chooseLinkMode i x) (fun _ u => ∃ t flag, Whisper i s t ∧
      u = { t with offsetInfo := { t.offsetInfo with singleLinkModeFlag := flag } }) Sane s := by
  have hs : Whisper i s s := .refl h hl hs
  simp only [chooseLinkMode, getRemainingFileSize, wp_bind]
  refine wp_getStartByteNextSegment (fun _ => (sane_assertTail s).mpr hs.sincere) ?_
  simp only [wp_get, wp_pure]
  rw [wp_ite]
  refine ⟨fun _ => ⟨s, s.offsetInfo.singleLinkModeFlag, hs, rfl⟩, fun _ => ?_⟩
  rw [wp_bind]
  refine wp_mono (wp_getPlayerState hs _) ?_ (fun _ _ h => h)
  intro player t ht
  have hdone : ∀ {u : Session}, Whisper i s u →
      wp (do
        let s ← get
        modifyOffsetInfo fun o => { o with
          singleLinkModeFlag := s.statics.currentLinkMode ≠ .dual }
        return s.statics.currentLinkMode) (fun _ v => ∃ w flag, Whisper i s w ∧
          v = { w with offsetInfo := { w.offsetInfo with singleLinkModeFlag := flag } }) Sane u :=
    fun hu => ⟨_, _, hu, rfl⟩
  simp only [wp_bind, wp_get]
  rw [wp_ite]
  refine ⟨fun _ => ?_, fun _ => ?_⟩
  · cases hmode : t.statics.currentLinkMode with
    | dual =>
      simp only [wp_bind]
      refine wp_mono (wp_reconsiderDualMode ht _ x) ?_ (fun _ _ h => h)
      exact fun _ u hu => hdone hu
    | single j =>
      simp only [wp_bind]
      refine wp_mono (wp_reconsiderSingleMode ht _ (.single j) x) ?_ (fun _ _ h => h)
      exact fun _ u hu => hdone hu
  · exact hdone (ht.statics _)

lemma wp_segmentToRecover {post : Option Segment → Session → Prop} (hs : Sincere s.trace) (i : Link)
    (hp : ∀ g, (g ≠ none → s.parts i.other ≠ []) → post g s) : wp (segmentToRecover i) post Sane s := by
  simp only [segmentToRecover, wp_bind, wp_get]
  split
  · exact hp _ fun hn => absurd rfl hn
  · split
    · exact hp _ fun hn => absurd rfl hn
    · simp only [wp_bind, wp_follow, wp_pure, sane_danglingPointer, sane_nullPointer, hs, implies_true,
        and_true]
      intro id _ g hg
      obtain ⟨pre, post, hsegs, -⟩ := exists_of_deref hg
      refine hp _ fun hn hnil => ?_
      have hnone : g.subsegment i.other = none := parts_eq_nil.mp hnil g (by simp [hsegs])
      simp [hnone] at hn

lemma wp_recoveryPays (h : Whisper i s t) (x : Inputs) (other : Segment) :
    wp (recoveryPays i x other) (fun _ u => Whisper i s u) Sane t := by
  simp only [recoveryPays, wp_bind, wp_get]
  refine wp_getFastConnIndex h.sincere fun fast => ?_
  simp only [wp_ite, wp_pure, wp_bind, wp_follow, sane_danglingPointer, sane_nullPointer, h.sincere,
    implies_true, and_true]
  refine ⟨fun _ => h, fun _ _ _ _ _ => ⟨fun _ => h, fun _ => ?_⟩⟩
  refine wp_mono (wp_getBnChunkInfo h) ?_ (fun _ _ h => h)
  exact fun bn u hu => ⟨fun _ => wp_doesQosMissUntilBnChunk hu _, fun _ => hu⟩

lemma wp_decideRecoveryMode (h : Planning i s.toGb) (hl : Log s) (hs : s.All Event.Sound)
    (x : Inputs) : wp (decideRecoveryMode i x) (fun recover t => Whisper i s t ∧
      (recover → t.parts i.other ≠ [])) Sane s := by
  simp only [decideRecoveryMode, wp_bind]
  refine wp_mono (wp_getPlayerState (.refl h hl hs) _) ?_ (fun _ _ h => h)
  intro _ t ht
  refine wp_segmentToRecover ht.sincere i fun other hother => ?_
  cases other with
  | none => exact ⟨ht, fun hf => absurd hf Bool.false_ne_true⟩
  | some other =>
    refine wp_mono (wp_recoveryPays ht x other) (fun _ u hu => ⟨hu, fun _ => ?_⟩) (fun _ _ h => h)
    have hparts : u.parts i.other = t.parts i.other := by
      rw [Gb.parts, Gb.parts, (hu.murmur.list).1, (ht.murmur.list).1]
    rw [hparts]
    exact hother (Option.some_ne_none _)

lemma Inv.whisper (h : Inv (.reading i) s) (hw : Whisper i s t) : Inv (.reading i) t :=
  ⟨hw.planning.rep, hw.conn ▸ h.goodput, fun ha => (h.whole (hw.murmur.all ha)).of_core hw.murmur.core,
    hw.log, h.told.murmur hw.murmur, fun j => (h.wire j).murmur hw.murmur⟩

end

end GreenBag
