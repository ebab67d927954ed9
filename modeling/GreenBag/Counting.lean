import GreenBag.Costs
import GreenBag.Receiving
import GreenBag.Session

/-! What each step of a session leaves as it is, how far it may move the cursor of a connection, and how
many segments and recoveries it may spend. -/

namespace GreenBag

open Programs Ranges

/-- Bytes came in, whether or not they could be written. -/
def Event.Receipt : Event → Prop
  | .wrote _ _ _ => True
  | .writeFailed _ _ => True
  | _ => False

def Gb.cursor (s : Gb) (i : Link) : ℤ × ℤ := ((s.conn i).currentbyte, (s.conn i).lastbyte)

/-- Of the connection that is watched, if one is, the cursor stays, or it is set to the empty range, or
the connection has a segment. -/
def Steered (o : Option Link) (s t : Gb) : Prop := ∀ j, o = some j →
  t.cursor j = s.cursor j ∧ (s.offsetInfo.connection j ≠ none → t.offsetInfo.connection j ≠ none) ∨
    t.cursor j = (1, 0) ∨ t.offsetInfo.connection j ≠ none

/-- Nothing was received, at most so many segments were added, and at most so many of them were
recovered. -/
structure Tallied (o : Option Link) (n : ℕ × ℕ) (s t : Session) : Prop where
  buffer : t.conf.bufferSize = s.conf.bufferSize
  size : t.size = s.size
  outfile : t.outfile = s.outfile
  bytesDone : t.bytesDone = s.bytesDone
  supported : (t.conn .lte).supported = (s.conn .lte).supported
  complete : t.ready = .complete →
    s.ready = .complete ∨ s.bytesDone = s.size ∨ (s.conn .lte).supported = false
  announced : t.lastDownloadedByte = s.lastDownloadedByte ∨
    ∃ u, .announced u t.lastDownloadedByte ∈ t.trace ∧ u.outfile = s.outfile ∧ u.size = s.size
  forward : min s.lastDownloadedByte s.size ≤ t.lastDownloadedByte
  trace : ∃ es, t.trace = es ++ s.trace ∧ ∀ e ∈ es, ¬ e.Receipt
  steered : Steered o s.toGb t.toGb
  segments : t.offsetInfo.segmentCount ≤ s.offsetInfo.segmentCount + n.1
  recoveries : t.numRecoveries ≤ s.numRecoveries + n.2

section

variable {o : Option Link} {m n : ℕ × ℕ} {s t u : Session}

lemma Steered.of_same {s t : Gb} (hc : ∀ j, t.cursor j = s.cursor j)
    (hp : ∀ j, s.offsetInfo.connection j ≠ none → t.offsetInfo.connection j ≠ none) : Steered o s t :=
  fun j _ => .inl ⟨hc j, hp j⟩

lemma Steered.refl (o : Option Link) (s : Gb) : Steered o s s :=
  .of_same (fun _ => rfl) fun _ h => h

lemma Steered.trans {s t u : Gb} (h : Steered o s t) (h' : Steered o t u) : Steered o s u := by
  intro j hj
  rcases h' j hj with ⟨hc, hp⟩ | h'
  · rcases h j hj with ⟨hc', hp'⟩ | hc' | hp'
    · exact .inl ⟨hc.trans hc', fun hs => hp (hp' hs)⟩
    · exact .inr (.inl (hc.trans hc'))
    · exact .inr (.inr (hp hp'))
  · exact .inr h'

lemma Tallied.refl (o : Option Link) (n : ℕ × ℕ) (s : Session) : Tallied o n s s :=
  ⟨rfl, rfl, rfl, rfl, rfl, .inl, .inl rfl, min_le_left _ _, ⟨[], rfl, by simp⟩, .refl o s.toGb,
    Nat.le_add_right _ _, Nat.le_add_right _ _⟩

lemma Tallied.trans (h : Tallied o m s t) (h' : Tallied o n t u) : Tallied o (m + n) s u := by
  obtain ⟨es, hes, hn⟩ := h.trace
  obtain ⟨fs, hfs, hn'⟩ := h'.trace
  refine ⟨h'.buffer.trans h.buffer, h'.size.trans h.size, h'.outfile.trans h.outfile, h'.bytesDone.trans h.bytesDone,
    h'.supported.trans h.supported, fun hu => ?_, ?_, ?_, ⟨fs ++ es, ?_, fun e he => ?_⟩,
    h.steered.trans h'.steered, ?_, ?_⟩
  · have ht := h'.complete hu
    rw [h.bytesDone, h.size, h.supported] at ht
    exact ht.elim h.complete .inr
  · rcases h'.announced with he | ⟨v, hv, ho, hs⟩
    · rw [he]
      apply h.announced.imp_right
      rintro ⟨v, hv, ho, hs⟩
      exact ⟨v, hfs ▸ List.mem_append_right fs hv, ho, hs⟩
    · exact .inr ⟨v, hv, ho.trans h.outfile, hs.trans h.size⟩
  · have ht := h.forward
    have hu := h'.forward
    rw [h.size] at hu
    omega
  · rw [hfs, hes, List.append_assoc]
  · exact (List.mem_append.mp he).elim (hn' e) (hn e)
  · have ht := h.segments
    have hu := h'.segments
    simp only [Prod.fst_add]
    omega
  · have ht := h.recoveries
    have hu := h'.recoveries
    simp only [Prod.snd_add]
    omega

end

def tally (o : Option Link) : Scale (ℕ × ℕ) Session where
  rel := Tallied o
  refl := Tallied.refl o
  trans := .trans

section

variable {o : Option Link} {i : Link} {n : ℕ × ℕ}

/-! ### Steps -/

lemma costs_modifyConn {f : Conn → Conn} (hf : ∀ c, (f c).currentbyte = c.currentbyte ∧
    (f c).lastbyte = c.lastbyte ∧ (f c).supported = c.supported) :
    Costs (tally o) 0 (modifyConn i f) := by
  apply Costs.modify
  intro s
  have hi := hf (s.conn i)
  refine ⟨rfl, rfl, rfl, rfl, ?_, .inl, .inl rfl, min_le_left _ _, ⟨[], rfl, by simp⟩,
    .of_same (fun j => ?_) fun _ h => h, le_rfl, le_rfl⟩
  · by_cases h : Link.lte = i
    · subst h
      simpa only [Function.update_self] using hi.2.2
    · simp only [Function.update_of_ne h]
  · by_cases h : j = i
    · subst h
      simp only [Gb.cursor, Function.update_self, hi.1, hi.2.1]
    · simp only [Gb.cursor, Function.update_of_ne h]

lemma costs_modifyConn_other (hio : o ≠ some i) {f : Conn → Conn}
    (hf : ∀ c, (f c).supported = c.supported) : Costs (tally o) 0 (modifyConn i f) := by
  apply Costs.modify
  intro s
  refine ⟨rfl, rfl, rfl, rfl, ?_, .inl, .inl rfl, min_le_left _ _, ⟨[], rfl, by simp⟩, ?_, le_rfl, le_rfl⟩
  · by_cases h : Link.lte = i
    · subst h
      simpa only [Function.update_self] using hf (s.conn _)
    · simp only [Function.update_of_ne h]
  · rintro j rfl
    have hji : j ≠ i := fun h => hio (congrArg some h)
    exact .inl ⟨by simp only [Gb.cursor, Function.update_of_ne hji], fun h => h⟩

lemma costs_modifyOffsetInfo {f : OffsetInfo → OffsetInfo}
    (hf : ∀ q, (∀ j, o = some j → q.connection j ≠ none → (f q).connection j ≠ none) ∧
      (f q).segmentCount = q.segmentCount) : Costs (tally o) 0 (modifyOffsetInfo f) :=
  .modify fun s => ⟨rfl, rfl, rfl, rfl, rfl, .inl, .inl rfl, min_le_left _ _, ⟨[], rfl, by simp⟩,
    fun j hj => .inl ⟨rfl, (hf s.offsetInfo).1 j hj⟩, (hf s.offsetInfo).2.le, le_rfl⟩

lemma costs_modifyStatics (f : Statics → Statics) : Costs (tally o) 0 (modifyStatics f) :=
  .modify fun s => ⟨rfl, rfl, rfl, rfl, rfl, .inl, .inl rfl, min_le_left _ _, ⟨[], rfl, by simp⟩,
    .refl o s.toGb, le_rfl, le_rfl⟩

lemma costs_logEvent {f : Gb → Event} (hf : ∀ s, ¬ (f s).Receipt) : Costs (tally o) 0 (logEvent f) :=
  .modify fun s => ⟨rfl, rfl, rfl, rfl, rfl, .inl, .inl rfl, min_le_left _ _,
    ⟨[f s.toGb], rfl, by simpa using hf s.toGb⟩, .refl o s.toGb, le_rfl, le_rfl⟩

lemma costs_fail : Costs (tally o) 0
    (modify fun s : Session => { s with ready := .error } : Program Unit) :=
  .modify fun s => ⟨rfl, rfl, rfl, rfl, rfl, nofun, .inl rfl, min_le_left _ _, ⟨[], rfl, by simp⟩,
    .refl o s.toGb, le_rfl, le_rfl⟩

lemma costs_connAt (i : Link) : Costs (tally o) 0 (connAt i) :=
  .free .get fun _ => .free (.ensure _) fun _ => .pure _

lemma costs_follow (pointer : Option ℕ) : Costs (tally o) 0 (follow pointer) :=
  .free .get fun _ => .free (.demand _ _) fun _ => .demand _ _

/-! ### Looking -/

lemma costs_getFastConnIndex : Costs (tally o) 0 getFastConnIndex :=
  .free (costs_connAt _) fun _ => .free (costs_connAt _) fun _ => .pure _

lemma costs_getStartByteNextSegment : Costs (tally o) 0 getStartByteNextSegment :=
  .free .get fun _ => .free (.ensure _) fun _ => .pure _

lemma costs_virtualShare (i j : Link) : Costs (tally o) 0 (virtualShare i j) := by
  apply Costs.free .get
  intro s
  cases s.offsetInfo.connection j with
  | none => exact .pure _
  | some id =>
    apply Costs.free (costs_follow _)
    intro g
    apply Costs.free (.ite (fun _ => .free (costs_connAt _) fun _ => .pure _) fun _ => .pure _)
    exact fun _ => .pure _

lemma costs_getVirtualSegSize (i : Link) (size : ℤ) : Costs (tally o) 0 (getVirtualSegSize i size) := by
  apply Costs.free .get
  intro s
  apply Costs.ite
  · exact fun _ => .free (.demand _ _) fun _ => .pure _
  · exact fun _ => .free (costs_virtualShare _ _) fun _ => .free (costs_virtualShare _ _) fun _ => .pure _

lemma costs_getBnChunkInfo (i : Link) : Costs (tally o) 0 (getBnChunkInfo i) := by
  apply Costs.free (costs_logEvent fun _ => id)
  intro _
  apply Costs.free .get
  intro s
  apply Costs.ite
  · exact fun _ => .free (.demand _ _) fun _ => .pure _
  · intro _
    cases s.getChunkBeingDwndByConn i.other with
    | none => exact .free (.demand _ _) fun _ => .pure _
    | some bn =>
      cases s.getNextChunkDwndByConn i with
      | none => exact .pure _
      | some c => exact .ite (fun _ => .pure _) fun _ => .pure _

lemma costs_updateLastDownloadedByte : Costs (tally o) 0 updateLastDownloadedByte := by
  intro s
  simp only [updateLastDownloadedByte, wp_bind, wp_get, wp_ensure, wp_modify, wp_logEvent]
  refine ⟨fun hle => ⟨rfl, rfl, rfl, rfl, rfl, .inl, .inr ⟨_, List.mem_cons_self, rfl, rfl⟩, ?_,
    ⟨[_], rfl, by simp [Event.Receipt]⟩, .refl o s.toGb, le_rfl, le_rfl⟩, fun _ => .refl o 0 s⟩
  show min s.lastDownloadedByte s.size ≤ if s.ready = .no ∧ s.run then s.inorderOffset else s.size
  split_ifs with h
  · exact (min_le_left _ _).trans (hle h)
  · exact min_le_right _ _

lemma costs_getRemainingPlayableTime (x : Sample) : Costs (tally o) 0 (getRemainingPlayableTime x) :=
  .free costs_updateLastDownloadedByte fun _ => .free .get fun _ => .pure _

lemma costs_getRemainingFileSize : Costs (tally o) 0 getRemainingFileSize :=
  .free costs_getStartByteNextSegment fun _ => .free .get fun _ => .pure _

lemma costs_doesQosMissUntilBnChunk (i : Link) (x : Sample) :
    Costs (tally o) 0 (doesQosMissUntilBnChunk i x) := by
  apply Costs.free (costs_getBnChunkInfo i)
  intro bn
  apply Costs.free (costs_connAt _)
  exact fun _ => .free (costs_getRemainingPlayableTime x) fun _ => .pure _

lemma costs_signed (width : ℕ) (n : ℤ) : Costs (tally o) 0 (signed width n) :=
  .free .get fun _ => .free (.ensure _) fun _ => .pure _

lemma costs_portion (size r q : ℤ) : Costs (tally o) 0 (portion size r q) := by
  apply Costs.free (costs_signed _ _)
  intro product
  apply Costs.free (costs_signed _ _)
  exact fun sum => .free (.ensure _) fun _ => costs_signed _ _

lemma costs_subsegSize (g : Segment) (i : Link) (r q : ℤ) (fixed : Bool) :
    Costs (tally o) 0 (subsegSize g i r q fixed) := by
  apply Costs.free .get
  intro s
  apply Costs.ite
  · exact fun _ => costs_portion _ _ _
  · intro _
    apply Costs.free (.ite (fun _ => .pure _) fun _ => costs_getVirtualSegSize _ _)
    exact fun size => .free (costs_portion _ _ _) fun _ => .pure _

lemma costs_connByte (i : Link) (current : Option ℕ) (gs : List Segment) (byte : ℤ) :
    Costs (tally o) 0 (connByte i current gs byte) := by
  induction gs generalizing byte with
  | nil => exact .pure _
  | cons g rest ih =>
    rw [connByte]
    apply Costs.ite
    · exact fun _ => ih byte
    · intro _
      cases g.subsegment i with
      | none => exact ih byte
      | some p => exact .free (.demand _ _) fun _ => ih _

lemma costs_findInorderOffset : Costs (tally o) 0 findInorderOffset := by
  apply Costs.free .get
  intro s
  apply Costs.ite
  · intro _
    cases s.activeByte with
    | none => exact .pure _
    | some a => exact .free (.ensure _) fun _ => .pure _
  · intro _
    apply Costs.ite (fun _ => .pure _)
    intro _
    apply Costs.free (costs_connAt _)
    intro _
    apply Costs.free (costs_connAt _)
    intro _
    exact .free (costs_connByte _ _ _ _) fun _ => .free (costs_connByte _ _ _ _) fun _ => .pure _

/-! ### Choosing the links -/

lemma costs_getPlayerState (x : Sample) : Costs (tally o) 0 (getPlayerState x) := by
  rw [getPlayerState]
  cases x.frames with
  | none => exact .pure _
  | some n => exact .free .get fun _ => .free (costs_modifyStatics _) fun _ => .pure _

lemma costs_getRemainingPlaybackTime (x : Sample) : Costs (tally o) 0 (getRemainingPlaybackTime x) := by
  apply Costs.free .get
  intro s
  apply Costs.free (.whenever fun _ => costs_modifyStatics _)
  exact fun _ => .free .get fun _ => .pure _

lemma costs_doesQmissUntilNextPortionInLinkMode (size : ℤ) (mode : LinkMode) (x : Sample) :
    Costs (tally o) 0 (doesQmissUntilNextPortionInLinkMode size mode x) :=
  .free .get fun _ => .free (costs_getRemainingPlaybackTime x) fun _ => .pure _

lemma costs_updateLteState (x : Sample) : Costs (tally o) 0 (updateLteState x) := by
  apply Costs.free .get
  intro s
  have hlast : ∀ y : Program Unit, Costs (tally o) 0 y → Costs (tally o) 0 (do
      y
      let s ← get
      return (s.statics.lteState, s.statics.tailStateStartTime)) :=
    fun y hy => .free hy fun _ => .free .get fun _ => .pure _
  cases s.statics.lteState with
  | idle => exact hlast _ (.whenever fun _ => costs_modifyStatics _)
  | tail =>
    apply Costs.ite
    · exact fun _ => hlast _ (costs_modifyStatics _)
    · exact fun _ => hlast _ (.whenever fun _ => costs_modifyStatics _)
  | active => exact hlast _ (.whenever fun _ => costs_modifyStatics _)

lemma costs_transferEnergy (mode : LinkMode) (lte wifi size : ℤ) :
    Costs (tally o) 0 (transferEnergy mode lte wifi size) := by
  rcases mode with _ | ⟨_ | _⟩
  · exact .free (.ensure _) fun _ => .pure _
  · exact .pure _
  · exact .pure _

lemma costs_getEnergyConsumption (mode : LinkMode) (lte wifi size : ℤ) (x : Inputs) :
    Costs (tally o) 0 (getEnergyConsumption mode lte wifi size x) := by
  apply Costs.free (costs_updateLteState _)
  intro state
  apply Costs.free (.ensure _)
  intro _
  apply Costs.ite
  · exact fun _ => .free (costs_transferEnergy _ _ _ _) fun _ => .pure _
  · exact fun _ => .pure _

lemma costs_getEnergySortedLinkModes (size : ℤ) (x : Inputs) :
    Costs (tally o) 0 (getEnergySortedLinkModes size x) := by
  apply Costs.free .get
  intro s
  apply Costs.free (costs_getEnergyConsumption _ _ _ _ _)
  intro _
  apply Costs.free (costs_getEnergyConsumption _ _ _ _ _)
  intro _
  exact .free (costs_getEnergyConsumption _ _ _ _ _) fun _ => .pure _

lemma costs_considerLinkModes (size : ℤ) (x : Inputs) (modes : List LinkMode) :
    Costs (tally o) 0 (considerLinkModes size x modes) := by
  rcases modes with _ | ⟨_ | i, _⟩
  · exact .pure _
  · rw [considerLinkModes]
    exact costs_modifyStatics _
  · apply Costs.free (costs_doesQmissUntilNextPortionInLinkMode _ _ _)
    exact fun _ => .whenever fun _ => costs_modifyStatics _

lemma costs_selectLinkMode (size : ℤ) (x : Inputs) : Costs (tally o) 0 (selectLinkMode size x) :=
  .free (costs_getEnergySortedLinkModes size x) fun _ => costs_considerLinkModes _ _ _

lemma costs_reconsiderSingleMode (size : ℤ) (mode : LinkMode) (x : Inputs) :
    Costs (tally o) 0 (reconsiderSingleMode size mode x) := by
  apply Costs.free (costs_doesQmissUntilNextPortionInLinkMode _ _ _)
  intro miss
  apply Costs.ite
  · intro _
    apply Costs.free (costs_modifyStatics _)
    exact fun _ => .free .get fun _ => .whenever fun _ => costs_modifyStatics _
  · exact fun _ => .free (costs_modifyStatics _) fun _ => costs_selectLinkMode _ _

lemma costs_reconsiderDualMode (i : Link) (size : ℤ) (x : Inputs) :
    Costs (tally o) 0 (reconsiderDualMode i size x) :=
  .free (costs_doesQosMissUntilBnChunk _ _) fun _ => .whenever fun _ => costs_selectLinkMode _ _

lemma costs_chooseLinkMode (i : Link) (x : Inputs) : Costs (tally o) 0 (chooseLinkMode i x) := by
  apply Costs.free costs_getRemainingFileSize
  intro size
  apply Costs.free .get
  intro s
  apply Costs.ite (fun _ => .pure _)
  intro _
  apply Costs.free (costs_getPlayerState _)
  intro player
  apply Costs.free .get
  intro s
  have hlast : ∀ y : Program Unit, Costs (tally o) 0 y → Costs (tally o) 0 (do
      y
      let s ← get
      modifyOffsetInfo fun o => { o with singleLinkModeFlag := s.statics.currentLinkMode ≠ .dual }
      return s.statics.currentLinkMode) := by
    intro y hy
    apply Costs.free hy
    intro _
    apply Costs.free .get
    exact fun s => .free (costs_modifyOffsetInfo fun _ => ⟨fun _ _ => id, rfl⟩) fun _ => .pure _
  apply Costs.ite
  · intro _
    cases s.statics.currentLinkMode with
    | dual => exact hlast _ (costs_reconsiderDualMode _ _ _)
    | single j => exact hlast _ (costs_reconsiderSingleMode _ _ _)
  · exact fun _ => hlast _ (costs_modifyStatics _)

/-! ### Segments -/

lemma costs_updateInorderOffset (held : List Chunk) : Costs (tally o) 0 (updateInorderOffset held) := by
  apply Costs.free
  · exact .modify fun s => ⟨rfl, rfl, rfl, rfl, rfl, .inl, .inl rfl, min_le_left _ _, ⟨[], rfl, by simp⟩,
      .of_same (fun _ => rfl) fun _ => id, le_rfl, le_rfl⟩
  intro _
  apply Costs.free costs_findInorderOffset
  intro found
  apply Costs.free (costs_logEvent fun _ => id)
  intro _
  apply Costs.free .get
  intro s
  apply Costs.free (.ensure _)
  exact fun _ => .modify fun s => ⟨rfl, rfl, rfl, rfl, rfl, .inl, .inl rfl, min_le_left _ _,
    ⟨[], rfl, by simp⟩, .refl o s.toGb, le_rfl, le_rfl⟩

lemma costs_addNewSegment (recovery : Bool) (cs : List Chunk) (size : ℤ) :
    Costs (tally o) (1, 0) (addNewSegment recovery cs size) := by
  apply Costs.free .get
  intro s
  have hadd : ∀ before : List Segment, Costs (tally o) (1, 0) (do
      let last ← demand .nullPointer (sortingChunks cs).getLast?
      modifyOffsetInfo fun o => { o with
        segments := before ++ [⟨o.segmentCount + 1, recovery, sortingChunks cs, size, fun _ => none⟩]
        numSegments := o.numSegments + 1
        segmentCount := o.segmentCount + 1
        tail := some (o.segmentCount + 1)
        lastSegOffset := if o.lastSegOffset < last.lastByte then last.lastByte else o.lastSegOffset }
      return s.offsetInfo.segmentCount + 1) := by
    intro before
    apply Costs.free (.demand _ _)
    intro last
    apply Costs.bind_free
    · exact .modify fun s => ⟨rfl, rfl, rfl, rfl, rfl, .inl, .inl rfl, min_le_left _ _, ⟨[], rfl, by simp⟩,
        .of_same (fun _ => rfl) fun _ => id, le_rfl, le_rfl⟩
    · exact fun _ => .pure _
  apply Costs.free
  · exact .ite (fun _ => .pure _) fun _ => .free (costs_follow _) fun _ => .pure _
  · exact hadd

lemma costs_deleteSubsegment (id : ℕ) (i : Link) : Costs (tally o) 0 (deleteSubsegment id i) := by
  apply Costs.free (costs_follow _)
  intro g
  apply Costs.free (.demand _ _)
  exact fun _ => costs_modifyOffsetInfo fun _ => ⟨fun _ _ h => h, rfl⟩

lemma kept_deleteFinishedHeadSegment (q : OffsetInfo) :
    (q.deleteFinishedHeadSegment.getD q).connection = q.connection ∧
      (q.deleteFinishedHeadSegment.getD q).segmentCount = q.segmentCount := by
  cases hd : q.deleteFinishedHeadSegment with
  | none => exact ⟨rfl, rfl⟩
  | some q' =>
    obtain ⟨head, rest, -, -, rfl⟩ := deleteFinishedHeadSegment_some.mp hd
    exact ⟨rfl, rfl⟩

lemma kept_deleteFinishedHeadSegments (n : ℕ) (q : OffsetInfo) :
    (q.deleteFinishedHeadSegments n).connection = q.connection ∧
      (q.deleteFinishedHeadSegments n).segmentCount = q.segmentCount := by
  induction n generalizing q with
  | zero => exact ⟨rfl, rfl⟩
  | succ n ih =>
    have hq := kept_deleteFinishedHeadSegment q
    rw [OffsetInfo.deleteFinishedHeadSegments]
    cases hd : q.deleteFinishedHeadSegment with
    | none => exact ⟨rfl, rfl⟩
    | some q' =>
      rw [hd] at hq
      exact ⟨(ih q').1.trans hq.1, (ih q').2.trans hq.2⟩

lemma costs_deleteFinishedHeadSegment : Costs (tally o) 0
    (modifyOffsetInfo fun q => q.deleteFinishedHeadSegment.getD q) := by
  apply costs_modifyOffsetInfo
  intro q
  obtain ⟨hc, hs⟩ := kept_deleteFinishedHeadSegment q
  exact ⟨fun _ _ h => hc ▸ h, hs⟩

lemma costs_deleteFinishedHeadSegments : Costs (tally o) 0
    (modifyOffsetInfo fun q => q.deleteFinishedHeadSegments q.segments.length) := by
  apply costs_modifyOffsetInfo
  intro q
  obtain ⟨hc, hs⟩ := kept_deleteFinishedHeadSegments q.segments.length q
  exact ⟨fun _ _ h => hc ▸ h, hs⟩

lemma costs_point (i : Link) (id : ℕ) : Costs (tally o) 0 (modifyOffsetInfo fun q =>
    { q with connection := Function.update q.connection i (some id) }) := by
  apply costs_modifyOffsetInfo
  intro q
  refine ⟨fun j _ h => ?_, rfl⟩
  by_cases hj : j = i
  · subst hj
    simp
  · simpa [Function.update_of_ne hj] using h

lemma costs_point_other (hio : o ≠ some i) (pointer : Option ℕ) : Costs (tally o) 0
    (modifyOffsetInfo fun q => { q with connection := Function.update q.connection i pointer }) := by
  apply costs_modifyOffsetInfo
  intro q
  refine ⟨fun j hj h => ?_, rfl⟩
  have hji : j ≠ i := fun h => hio (h ▸ hj)
  simpa [Function.update_of_ne hji] using h

lemma costs_addNewSubsegment (i : Link) (r q : ℤ) (fixed : Bool) :
    Costs (tally o) 0 (addNewSubsegment i r q fixed) := by
  apply Costs.free costs_getFastConnIndex
  intro fast
  apply Costs.free .get
  intro s
  apply Costs.free (costs_follow _)
  intro g
  apply Costs.free (.ensure _)
  intro _
  apply Costs.free (costs_subsegSize _ _ _ _ _)
  intro share
  apply Costs.free (.ensure _)
  intro _
  apply Costs.free (.ensure _)
  exact fun _ => costs_modifyOffsetInfo fun _ => ⟨fun _ _ => id, rfl⟩

/-! ### Planning -/

lemma costs_gbUpdateGoodput (elapsed : Link → ℚ) : Costs (tally o) 0 (gbUpdateGoodput elapsed) := by
  have hsame : ∀ (c : Conn) (e f : ℚ) (first : Bool),
      (c.updateGoodput e f first).currentbyte = c.currentbyte ∧
        (c.updateGoodput e f first).lastbyte = c.lastbyte ∧
        (c.updateGoodput e f first).supported = c.supported := by
    intro c e f first
    unfold Conn.updateGoodput
    split_ifs <;> exact ⟨rfl, rfl, rfl⟩
  apply Costs.free
  · apply Costs.modify
    intro s
    refine ⟨rfl, rfl, rfl, rfl, ?_, .inl, .inl rfl, min_le_left _ _, ⟨[], rfl, by simp⟩,
      .of_same (fun j => ?_) fun _ => id, le_rfl, le_rfl⟩
    · show (if _ then _ else _ : Conn).supported = _
      split_ifs
      · exact (hsame _ _ _ _).2.2
      · rfl
    · show ((if _ then _ else _ : Conn).currentbyte, (if _ then _ else _ : Conn).lastbyte) = _
      split_ifs
      · exact Prod.ext (hsame _ _ _ _).1 (hsame _ _ _ _).2.1
      · rfl
  · intro _
    apply Costs.free costs_getFastConnIndex
    exact fun fast => costs_modifyOffsetInfo fun _ => ⟨fun _ _ => id, rfl⟩

lemma costs_gbDetermineNextSegmentPolicy (held : List Chunk) :
    Costs (tally o) 0 (gbDetermineNextSegmentPolicy held) := by
  apply Costs.free (costs_connAt _)
  intro _
  apply Costs.free (costs_connAt _)
  intro _
  apply Costs.free (costs_updateInorderOffset held)
  exact fun _ => .free .get fun _ => .pure _

lemma costs_gbDetermineNextSegmentSize (i : Link) :
    Costs (tally o) (1, 0) (gbDetermineNextSegmentSize i) := by
  apply Costs.free (costs_logEvent fun _ => id)
  intro _
  apply Costs.free .get
  intro s
  apply Costs.free (.ite (fun _ => .pure _) fun _ => costs_gbDetermineNextSegmentPolicy [])
  intro wanted
  apply Costs.free .get
  intro s
  refine .free (costs_modifyOffsetInfo fun _ => ⟨fun _ _ => id, rfl⟩) fun _ => ?_
  apply Costs.ite
  · intro _
    apply Costs.free costs_getStartByteNextSegment
    exact fun _ => .bind_free (costs_addNewSegment _ _ _) fun _ => .pure _
  · intro _
    apply Costs.bind_free (.whenever fun _ => ?_) fun _ => .pure _
    exact .bind_free (costs_addNewSegment _ _ _) fun _ => .pure _

lemma costs_gbDetermineNextSubsegment (i : Link) (mode : LinkMode) :
    Costs (tally o) 0 (gbDetermineNextSubsegment i mode) := by
  apply Costs.free (costs_logEvent fun _ => id)
  intro _
  apply Costs.free .get
  intro s
  cases mode with
  | single j => exact costs_addNewSubsegment _ _ _ _
  | dual =>
    apply Costs.ite
    · exact fun _ => costs_addNewSubsegment _ _ _ _
    · intro _
      apply Costs.free (costs_connAt _)
      exact fun _ => .free (costs_connAt _) fun _ => costs_addNewSubsegment _ _ _ _

lemma costs_segmentToRecover (i : Link) : Costs (tally o) 0 (segmentToRecover i) := by
  apply Costs.free .get
  intro s
  apply Costs.ite (fun _ => .pure _)
  intro _
  cases s.offsetInfo.connection i.other with
  | none => exact .pure _
  | some id => exact .free (costs_follow _) fun _ => .pure _

lemma costs_recoveryPays (i : Link) (x : Inputs) (other : Segment) :
    Costs (tally o) 0 (recoveryPays i x other) := by
  apply Costs.free .get
  intro s
  apply Costs.free costs_getFastConnIndex
  intro fast
  apply Costs.ite (fun _ => .pure _)
  intro _
  apply Costs.free (costs_follow _)
  intro own
  apply Costs.ite (fun _ => .pure _)
  intro _
  apply Costs.free (costs_getBnChunkInfo i)
  exact fun bn => .ite (fun _ => costs_doesQosMissUntilBnChunk _ _) fun _ => .pure _

lemma costs_decideRecoveryMode (i : Link) (x : Inputs) : Costs (tally o) 0 (decideRecoveryMode i x) := by
  apply Costs.free (costs_getPlayerState _)
  intro _
  apply Costs.free (costs_segmentToRecover i)
  intro other
  cases other with
  | none => exact .pure _
  | some other => exact costs_recoveryPays _ _ _

lemma costs_gatherChunks (j : Link) (n : ℕ) (pointer : Option ℕ) (cs : List Chunk) :
    Costs (tally o) 0 (gatherChunks j n pointer cs) := by
  induction n generalizing pointer cs with
  | zero =>
    cases pointer with
    | none => exact .pure _
    | some id => exact .throw _
  | succ n ih =>
    cases pointer with
    | none => exact .pure _
    | some id =>
      apply Costs.free (costs_follow _)
      intro g
      apply Costs.free (.demand _ _)
      intro p
      apply Costs.free (costs_deleteSubsegment _ _)
      intro _
      apply Costs.free .get
      exact fun s => .free costs_deleteFinishedHeadSegment fun _ => ih _ _

lemma costs_detachChunks (j : Link) : Costs (tally o) 0 (detachChunks j) := by
  apply Costs.free .get
  intro s
  apply Costs.free (costs_follow _)
  intro g
  apply Costs.free (.demand _ _)
  intro p
  apply Costs.free (.demand _ _)
  intro head
  apply Costs.free (costs_deleteSubsegment _ _)
  intro _
  apply Costs.free .get
  exact fun s' => .free costs_deleteFinishedHeadSegment fun _ => costs_gatherChunks _ _ _ _

lemma costs_recoverOutorderPortionAndNextSegment (i : Link) :
    Costs (tally o) (1, 0) (recoverOutorderPortionAndNextSegment i) := by
  apply Costs.free (costs_detachChunks _)
  intro held
  apply Costs.free .get
  intro s
  apply Costs.free (.ite (fun _ => .pure _) fun _ => costs_gbDetermineNextSegmentPolicy _)
  intro wanted
  apply Costs.free .get
  intro s
  apply Costs.free
  · exact .ite (fun _ => .free costs_getStartByteNextSegment fun _ => .pure _) fun _ => .pure _
  · intro cs
    exact .bind_free (costs_addNewSegment _ _ _) fun id => costs_point _ _

/-! ### Connections -/

lemma costs_connDisconnect (i : Link) : Costs (tally o) 0 (connDisconnect i) :=
  costs_modifyConn fun _ => ⟨rfl, rfl, rfl⟩

lemma costs_connInit (i : Link) (connects : Bool) : Costs (tally o) 0 (connInit i connects) := by
  apply Costs.ite
  · exact fun _ => .free (costs_modifyConn fun _ => ⟨rfl, rfl, rfl⟩) fun _ => .pure _
  · exact fun _ => .free (costs_connDisconnect i) fun _ => .pure _

/-- A recovery spends a segment and itself; where none is made, nothing is spent. -/
lemma wp_performRecovery_tallied (i : Link) (x : Inputs) (s : Session) :
    wp (performRecovery i x) (fun b t => Tallied o (if b then (1, 1) else 0) s t)
      (fun _ t => Tallied o (1, 1) s t) s := by
  simp only [performRecovery]
  rw [wp_bind, wp_get, wp_ite]
  refine ⟨fun _ => ?_, fun _ => .refl o _ s⟩
  rw [wp_bind]
  apply Costs.wp (S := tally o) (costs_decideRecoveryMode i x)
  · intro b t ht
    rw [wp_ite]
    refine ⟨fun _ => ?_, fun _ => ht⟩
    have hrest : Costs (tally o) ((1, 0) + (0, 1)) (logEvent (.stolen · i.other) >>= fun _ =>
        modifyConn i.other (fun c => { c with enabled := false }) >>= fun _ =>
          connDisconnect i.other >>= fun _ => recoverOutorderPortionAndNextSegment i >>= fun _ =>
            gbDetermineNextSubsegment i .dual >>= fun _ =>
              (modify fun s : Session => { s with numRecoveries := s.numRecoveries + 1 } : Program Unit)) := by
      apply Costs.free (costs_logEvent fun _ => id)
      intro _
      refine .free (costs_modifyConn fun _ => ⟨rfl, rfl, rfl⟩) fun _ => ?_
      apply Costs.free (costs_connDisconnect _)
      intro _
      apply Costs.bind (costs_recoverOutorderPortionAndNextSegment i)
      intro _
      apply Costs.free (costs_gbDetermineNextSubsegment _ _)
      exact fun _ => .modify fun s => ⟨rfl, rfl, rfl, rfl, rfl, .inl, .inl rfl, min_le_left _ _,
        ⟨[], rfl, by simp⟩, .refl o s.toGb, le_rfl, le_rfl⟩
    have hall : wp _ (fun _ u => Tallied o (1, 1) s u) (fun _ u => Tallied o (1, 1) s u) t :=
      hrest.wp (fun _ u hu => (tally o).trans_free ht hu) fun _ u hu => (tally o).trans_free ht hu
    simpa only [wp_bind, wp_pure, if_true] using hall
  · exact fun _ t ht => (tally o).free_trans (.refl o (1, 1) s) ht

lemma costs_setupFreshSegment (i : Link) (x : Inputs) :
    Costs (tally o) (1, 0) (setupFreshSegment i x) := by
  apply Costs.free (costs_gbUpdateGoodput _)
  intro _
  apply Costs.bind_free (costs_gbDetermineNextSegmentSize i)
  intro size
  apply Costs.ite (fun _ => .pure _)
  intro _
  apply Costs.free .get
  intro s
  apply Costs.free (.ite (fun _ => costs_chooseLinkMode i x) fun _ => .pure _)
  exact fun mode => .free (costs_gbDetermineNextSubsegment _ _) fun _ => .pure _

lemma costs_unrecovered {α : Type} {y : Program α} (h : Costs (tally o) (1, 0) y) :
    Costs (tally o) (1, 1) y := by
  have hy : Costs (tally o) ((1, 0) + (0, 1)) y := h.more
  exact hy

lemma costs_gbSetupNextSegment (i : Link) (x : Inputs) :
    Costs (tally o) (1, 1) (gbSetupNextSegment i x) := by
  have hrecover : ∀ y : Program Bool, Costs (tally o) (1, 0) y →
      ∀ p : Program Bool, (∀ s, wp p (fun b t => Tallied o (if b then (1, 1) else 0) s t)
        (fun _ t => Tallied o (1, 1) s t) s) →
      Costs (tally o) (1, 1) (p >>= fun recovered => if recovered then pure true else y) := by
    intro y hy p hp s
    rw [wp_bind]
    apply wp_mono (hp s)
    · intro b t ht
      cases b with
      | true => exact ht
      | false =>
        apply (costs_unrecovered hy).wp
        · exact fun _ _ hu => (tally o).trans_free ht hu
        · exact fun _ _ hu => (tally o).trans_free ht hu
    · exact fun _ _ ht => ht
  apply Costs.free .get
  intro s
  apply Costs.free (costs_connAt _)
  intro c
  apply Costs.ite (fun _ => .pure _)
  intro _
  cases s.offsetInfo.getConnOrderCase i with
  | behind =>
    apply Costs.ite
    · exact fun _ => .free (costs_modifyOffsetInfo fun _ => ⟨fun _ _ => id, rfl⟩) fun _ => .pure _
    · exact fun _ => costs_unrecovered (costs_setupFreshSegment i x)
  | ahead =>
    apply Costs.free (costs_gbUpdateGoodput _)
    intro _
    apply hrecover _ ?_ _ (wp_performRecovery_tallied i x)
    apply Costs.free .get
    intro s
    apply Costs.free (costs_follow _)
    intro tail
    apply Costs.free (.ensure _)
    exact fun _ => .ite (fun _ => .pure _) fun _ => costs_setupFreshSegment i x
  | oneSeg =>
    apply Costs.free (costs_gbUpdateGoodput _)
    intro _
    apply Costs.free (costs_connAt _)
    intro d
    apply hrecover _ (costs_setupFreshSegment i x)
    intro s
    rw [wp_ite]
    exact ⟨fun _ => wp_performRecovery_tallied i x s, fun _ => .refl o _ s⟩

lemma costs_sendGet (site : Site) (i : Link) (first last : ℤ) :
    Costs (tally o) 0 (sendGet site i first last) :=
  .free (costs_logEvent fun _ => id) fun _ => .free .get fun _ => costs_modifyConn fun _ => ⟨rfl, rfl, rfl⟩

lemma costs_gbGetRequests (i : Link) (cs : List Chunk) : Costs (tally o) 0 (gbGetRequests i cs) := by
  induction cs with
  | nil => exact .pure _
  | cons c cs ih => exact .free (costs_sendGet _ _ _ _) fun _ => ih

lemma costs_sendHttpRequestForSubsegment (i : Link) (p : Option Subsegment) (connects : Bool) :
    Costs (tally o) 0 (sendHttpRequestForSubsegment i p connects) := by
  cases p with
  | none => exact .pure _
  | some p =>
    apply Costs.free (costs_connAt _)
    intro c
    apply Costs.free (.whenever fun _ => .free (costs_connInit _ _) fun _ => .ensure _)
    intro _
    apply Costs.free (costs_gbGetRequests _ _)
    exact fun _ => .free (costs_modifyConn fun _ => ⟨rfl, rfl, rfl⟩) fun _ => .pure _

lemma costs_gbReceiveHttpHeaderResponse (site : Site) (i : Link) (reply : List UInt8) :
    Costs (tally o) 0 (gbReceiveHttpHeaderResponse site i reply) := by
  apply Costs.free (costs_logEvent fun _ => id)
  intro _
  cases readHeaderBlock 0 [] reply with
  | none => exact .pure _
  | some headers => exact .free (costs_modifyConn fun _ => ⟨rfl, rfl, rfl⟩) fun _ => .pure _

lemma costs_httpExec (i : Link) (reply : List UInt8) : Costs (tally o) 0 (httpExec i reply) := by
  apply Costs.free .get
  intro s
  apply Costs.free (costs_logEvent fun _ => id)
  intro _
  generalize readHeaderBlock 0 [] _ = headers
  cases headers with
  | none => exact .pure _
  | some headers =>
    refine .free (costs_modifyConn fun _ => ⟨rfl, rfl, rfl⟩) fun _ => ?_
    exact .free (.ensure _) fun _ => .pure _

lemma costs_setupFailed (i : Link) : Costs (tally o) 0 (setupFailed i) :=
  .free (costs_connDisconnect _) fun _ => costs_modifyConn fun _ => ⟨rfl, rfl, rfl⟩

lemma costs_setupRequest (i : Link) (connects : Bool) : Costs (tally o) 0 (setupRequest i connects) := by
  apply Costs.free
  · apply Costs.free (costs_connAt _)
    intro c
    apply Costs.free (.ite (fun _ => .pure _) fun _ => costs_connInit _ _)
    exact fun _ => .free (.whenever fun _ => costs_sendGet _ _ _ _) fun _ => .pure _
  · exact fun _ => .ite (fun _ => costs_modifyConn fun _ => ⟨rfl, rfl, rfl⟩) fun _ => costs_setupFailed i

lemma costs_setupResponse (i : Link) (reply : List UInt8) : Costs (tally o) 0 (setupResponse i reply) := by
  apply Costs.free
  · exact .free (costs_httpExec _ _) fun _ => .free .get fun _ => .pure _
  · exact fun _ => .ite (fun _ => costs_modifyConn fun _ => ⟨rfl, rfl, rfl⟩) fun _ => costs_setupFailed i

/-! ### Handling -/

lemma costs_checkingLastSubseg (i : Link) : Costs (tally o) 0 (checkingLastSubseg i) := by
  apply Costs.free .get
  intro s
  apply Costs.free (costs_follow _)
  intro g
  apply Costs.free (.demand _ _)
  intro p
  apply Costs.free (.demand _ _)
  exact fun last => .whenever fun _ => costs_modifyConn fun _ => ⟨rfl, rfl, rfl⟩

lemma costs_checkingLastSegment : Costs (tally o) 0 checkingLastSegment := by
  apply Costs.free .get
  intro s
  apply Costs.each_free
  intro i
  apply Costs.free .get
  intro s
  generalize (s.offsetInfo.connection i).bind _ = next
  cases next with
  | none => exact .pure _
  | some id =>
    apply Costs.free (costs_follow _)
    intro g
    apply Costs.free (.demand _ _)
    exact fun last => .whenever fun _ => costs_modifyConn fun _ => ⟨rfl, rfl, rfl⟩

lemma Tallied.point {s t : Session} (h : Tallied o n s t) (f : Conn → Conn)
    (hs : ∀ c, (f c).supported = c.supported) (hp : ∀ j, o = some j → t.offsetInfo.connection j ≠ none)
    (i : Link) : Tallied o n s { t with conn := Function.update t.conn i (f (t.conn i)) } := by
  refine ⟨h.buffer, h.size, h.outfile, h.bytesDone, ?_, h.complete, h.announced, h.forward, h.trace,
    fun j hj => .inr (.inr (hp j hj)), h.segments, h.recoveries⟩
  rw [← h.supported]
  by_cases hi : Link.lte = i
  · subst hi
    simpa only [Function.update_self] using hs (t.conn _)
  · simp only [Function.update_of_ne hi]

lemma costs_moveTo (i : Link) (id : ℕ) : Costs (tally o) 0 (moveTo i id) := by
  by_cases ho : o = some i
  · subst ho
    intro s
    simp only [moveTo, wp_bind, wp_follow, wp_demand, wp_modifyOffsetInfo, wp_modifyConn]
    have hpoint : Tallied (some i) 0 s { s with offsetInfo := { s.offsetInfo with
        connection := Function.update s.offsetInfo.connection i (some id) } } :=
      (costs_point i id s)
    refine ⟨fun k hk => ⟨fun g hg => ⟨fun p hp => ⟨fun c hc => ?_, fun _ => hpoint⟩,
      fun _ => .refl (some i) 0 s⟩, fun _ => .refl (some i) 0 s⟩, fun _ => .refl (some i) 0 s⟩
    have hmoved := hpoint.point (fun d => { d with currentbyte := c.startByte, lastbyte := c.lastByte })
      (fun _ => rfl) (by simp) i
    apply (costs_checkingLastSubseg i).wp
    · exact fun _ _ hu => (tally (some i)).trans_free hmoved hu
    · exact fun _ _ hu => (tally (some i)).trans_free hmoved hu
  · apply Costs.free (costs_follow _)
    intro g
    apply Costs.free (.demand _ _)
    intro p
    apply Costs.free (costs_point _ _)
    intro _
    apply Costs.free (.demand _ _)
    intro c
    exact .free (costs_modifyConn_other ho fun _ => rfl) fun _ => costs_checkingLastSubseg _

lemma costs_returnDownloadingForIdleConn (i : Link) (reply : List UInt8) :
    Costs (tally o) 0 (returnDownloadingForIdleConn i reply) := by
  apply Costs.free .get
  intro s
  apply Costs.whenever
  intro _
  apply Costs.free (costs_follow _)
  intro tail
  apply Costs.free (costs_moveTo _ _)
  intro _
  apply Costs.free (costs_gbReceiveHttpHeaderResponse _ _ _)
  intro received
  apply Costs.whenever
  intro _
  refine .free (costs_modifyConn fun _ => ⟨rfl, rfl, rfl⟩) fun _ => ?_
  exact costs_modifyOffsetInfo fun _ => ⟨fun _ _ => id, rfl⟩

lemma costs_returnDownloadingForRecoveredConn (i : Link) (connects : Bool) (reply : List UInt8) :
    Costs (tally o) 0 (returnDownloadingForRecoveredConn i connects reply) := by
  apply Costs.free .get
  intro s
  apply Costs.free (costs_follow _)
  intro tail
  cases tail.subsegment i with
  | none =>
    intro t
    simp only [wp_bind, wp_modifyOffsetInfo, wp_modifyConn]
    refine ⟨rfl, rfl, rfl, rfl, ?_, .inl, .inl rfl, min_le_left _ _, ⟨[], rfl, by simp⟩, ?_, le_rfl, le_rfl⟩
    · by_cases hi : Link.lte = i
      · subst hi
        simp only [Function.update_self]
      · simp only [Function.update_of_ne hi]
    · intro j _
      by_cases hj : j = i
      · subst hj
        exact .inr (.inl (by simp only [Gb.cursor, Function.update_self]))
      · refine .inl ⟨by simp only [Gb.cursor, Function.update_of_ne hj], fun h => ?_⟩
        simpa only [Function.update_of_ne hj] using h
  | some p =>
    apply Costs.free (costs_connInit _ _)
    intro _
    apply Costs.free (.ensure _)
    intro _
    apply Costs.free (costs_moveTo _ _)
    intro _
    apply Costs.free (costs_sendHttpRequestForSubsegment _ _ _)
    intro _
    apply Costs.free (costs_gbReceiveHttpHeaderResponse _ _ _)
    exact fun _ => .whenever fun _ => costs_modifyConn fun _ => ⟨rfl, rfl, rfl⟩

lemma costs_planAhead (i : Link) (x : Inputs) : Costs (tally o) (1, 1) (planAhead i x) := by
  apply Costs.bind_free (costs_gbSetupNextSegment i x)
  intro planned
  apply Costs.whenever
  intro _
  apply Costs.free .get
  intro s
  apply Costs.free (costs_follow _)
  intro tail
  apply Costs.free (costs_sendHttpRequestForSubsegment _ _ _)
  intro _
  apply Costs.ite
  · exact fun _ => .free (costs_returnDownloadingForRecoveredConn _ _ _) fun _ => costs_checkingLastSegment
  · intro _
    apply Costs.free (costs_sendHttpRequestForSubsegment _ _ _)
    intro sent
    apply Costs.free (.whenever fun _ => costs_returnDownloadingForIdleConn _ _)
    exact fun _ => costs_checkingLastSegment

lemma costs_finishLastChunkOfSubseg (hio : o ≠ some i) (reply : List UInt8) :
    Costs (tally o) 0 (finishLastChunkOfSubseg i reply) := by
  apply Costs.free .get
  intro s
  apply Costs.free (costs_follow _)
  intro g
  apply Costs.free (.demand _ _)
  intro p
  apply Costs.free (.ensure _)
  intro _
  refine .free (costs_modifyOffsetInfo fun _ => ⟨fun _ _ => id, rfl⟩) fun _ => ?_
  cases p.chunkList.tail with
  | nil => exact .pure _
  | cons c cs =>
    refine .free (costs_modifyConn_other hio fun _ => rfl) fun _ => ?_
    apply Costs.free (costs_gbReceiveHttpHeaderResponse _ _ _)
    intro received
    exact .free (.whenever fun _ => costs_modifyConn fun _ => ⟨rfl, rfl, rfl⟩) fun _ => .pure _

lemma costs_closesFinished (i : Link) : Costs (tally o) 0 (closesFinished i) := by
  apply Costs.free .get
  intro s
  apply Costs.free (costs_connAt _)
  intro c
  apply Costs.ite (fun _ => .pure _)
  exact fun _ => .free (costs_connAt _) fun _ => .pure _

lemma costs_finishDownloadingSubseg (hio : o ≠ some i) (reply : List UInt8) :
    Costs (tally o) 0 (finishDownloadingSubseg i reply) := by
  apply Costs.free .get
  intro s
  apply Costs.free (costs_connAt _)
  intro c
  apply Costs.ite
  · intro _
    apply Costs.free (costs_gbReceiveHttpHeaderResponse _ _ _)
    intro received
    refine .free (.whenever fun _ => costs_modifyConn fun _ => ⟨rfl, rfl, rfl⟩) fun _ => ?_
    apply Costs.free (costs_follow _)
    intro g
    apply Costs.free (.demand _ _)
    intro next
    apply Costs.free (costs_moveTo _ _)
    intro _
    refine .free (.whenever fun _ => costs_modifyConn fun _ => ⟨rfl, rfl, rfl⟩) fun _ => ?_
    exact costs_deleteFinishedHeadSegments
  · intro _
    apply Costs.free (costs_closesFinished _)
    intro closes
    apply Costs.free (costs_point_other hio _)
    intro _
    apply Costs.free (.whenever fun _ => costs_connDisconnect _)
    exact fun _ => costs_deleteFinishedHeadSegments

lemma costs_finishChunk (hio : o ≠ some i) (x : Inputs) : Costs (tally o) 0 (finishChunk i x) := by
  refine .free (costs_modifyConn fun _ => ⟨rfl, rfl, rfl⟩) fun _ => ?_
  apply Costs.free (costs_finishLastChunkOfSubseg hio _)
  intro finished
  apply Costs.whenever
  intro _
  apply Costs.free .get
  intro s
  apply Costs.free (costs_follow _)
  intro g
  apply Costs.free (costs_deleteSubsegment _ _)
  intro _
  exact .free (costs_finishDownloadingSubseg hio _) fun _ => costs_updateInorderOffset _

lemma costs_exceptionForRead (i : Link) (closed : Bool) : Costs (tally o) 0 (exceptionForRead i closed) := by
  have hrest : Costs (tally o) 0 (modifyConn i (fun c => { c with enabled := false }) >>= fun _ =>
      connDisconnect i) :=
    .free (costs_modifyConn fun _ => ⟨rfl, rfl, rfl⟩) fun _ => costs_connDisconnect i
  intro s
  rw [exceptionForRead, wp_bind, wp_connAt]
  refine ⟨fun _ => ?_, fun _ => .refl o 0 s⟩
  rw [wp_bind, wp_whenever]
  refine ⟨fun hc => ?_, fun _ => hrest s⟩
  have hclosed : Tallied o 0 s { s with ready := .complete } :=
    ⟨rfl, rfl, rfl, rfl, rfl, fun _ => .inr (.inr (by simpa using hc.2)), .inl rfl, min_le_left _ _,
      ⟨[], rfl, by simp⟩, .refl o s.toGb, le_rfl, le_rfl⟩
  rw [wp_modify]
  apply hrest.wp
  · exact fun _ _ ht => (tally o).trans_free hclosed ht
  · exact fun _ _ ht => (tally o).trans_free hclosed ht

lemma costs_joinSetupThread (i : Link) (connects : Bool) (reply : List UInt8) :
    Costs (tally o) 0 (joinSetupThread i connects reply) := by
  apply Costs.free (costs_connAt _)
  intro _
  apply Costs.free (.whenever fun _ => costs_setupRequest _ _)
  intro _
  apply Costs.free (costs_connAt _)
  exact fun _ => .whenever fun _ => costs_setupResponse _ _

lemma costs_createSetupThread (i : Link) (created : Bool) :
    Costs (tally o) 0 (createSetupThread i created) := by
  refine .free (costs_modifyConn fun _ => ⟨rfl, rfl, rfl⟩) fun _ => ?_
  exact .ite (fun _ => costs_modifyConn fun _ => ⟨rfl, rfl, rfl⟩) fun _ => costs_fail

lemma costs_checkConn (x : CheckInputs) (i : Link) : Costs (tally o) 0 (checkConn x i) := by
  apply Costs.free (costs_connAt _)
  intro c
  apply Costs.whenever
  intro _
  apply Costs.ite
  · intro _
    apply Costs.whenever
    intro _
    exact .free (costs_joinSetupThread _ _ _) fun _ => costs_modifyConn fun _ => ⟨rfl, rfl, rfl⟩
  · exact fun _ => .free (costs_joinSetupThread _ _ _) fun _ => costs_createSetupThread _ _

lemma costs_connCheck (x : CheckInputs) : Costs (tally o) 0 (connCheck x) := by
  have hcomplete : Costs (tally o) 0 (do
      let s ← get
      whenever (s.bytesDone = s.size) (modify fun s => { s with ready := .complete }) : Program Unit) := by
    intro s
    rw [wp_bind, wp_get, wp_whenever]
    exact ⟨fun hd => ⟨rfl, rfl, rfl, rfl, rfl, fun _ => .inr (.inl hd), .inl rfl, min_le_left _ _,
      ⟨[], rfl, by simp⟩, .refl o s.toGb, le_rfl, le_rfl⟩, fun _ => .refl o 0 s⟩
  apply Costs.free .get
  exact fun s => .free (.each_free fun i => costs_checkConn x i) fun _ => hcomplete

lemma costs_handled (hio : o ≠ some i) (n remaining : ℤ) (x : Inputs) : Costs (tally o) (1, 1) (do
    let s ← get
    let g ← follow (s.offsetInfo.connection i)
    let p ← demand .nullPointer (g.subsegment i)
    whenever ((p.size.tdiv sendPipelineReqThrsFactor > remaining ∨ remaining ≤ n) ∧
      ¬ (s.conn i).pipelineRequestsSent ∧ ¬ s.offsetInfo.connIdle i) (planAhead i x)
    if remaining ≤ n then finishChunk i x else updateInorderOffset []) := by
  apply Costs.free .get
  intro s
  apply Costs.free (costs_follow _)
  intro g
  apply Costs.free (.demand _ _)
  intro p
  apply Costs.bind_free (.whenever fun _ => costs_planAhead i x)
  exact fun _ => .ite (fun _ => costs_finishChunk hio x) fun _ => costs_updateInorderOffset _

lemma wp_handleBytes_tallied (hio : o ≠ some i) (n : ℤ) (written : Bool) (x : Inputs) {s : Session}
    (hi : i ∈ s.links) :
    wp (handleBytes i n written x) (fun _ t => Tallied o (1, 1) (s.received i n written) t)
      (fun _ t => Tallied o (1, 1) (s.received i n written) t) s := by
  have hrest := costs_handled hio n ((s.conn i).lastbyte - (s.conn i).currentbyte + 1) x
    (s.received i n written)
  rw [handleBytes, wp_bind, wp_connAt]
  refine ⟨fun _ => ?_, fun hn => absurd hi hn⟩
  rw [← bind_assoc, wp_bind]
  exact wp_writeReceivedData n written hi hrest

end

/-! ### Labels -/

namespace Label

/-- The state when what a step reads is written. -/
def received (l : Label) (s : Session) : Session :=
  match l with
  | .read i (.bytes n written) _ => s.received i n written
  | _ => s

/-- The segments and recoveries a step may spend. -/
def budget : Label → ℕ × ℕ
  | .read _ (.bytes _ _) _ => (1, 1)
  | _ => 0

/-- The step reads nothing for the connection that is watched. -/
def Spares (o : Option Link) : Label → Prop
  | .read i (.bytes _ _) _ => o ≠ some i
  | _ => True

end Label

lemma Label.spares_none (l : Label) : l.Spares none := by
  cases l with
  | read i r x =>
    cases r with
    | bytes n written => exact Option.some_ne_none i ∘ Eq.symm
    | error => trivial
    | closed => trivial
  | check x => trivial
  | setupRequest i connects => trivial
  | setupResponse i reply => trivial
  | announce => trivial
  | selectFailed => trivial
  | stop => trivial

lemma wp_exec_tallied {o : Option Link} {l : Label} (ho : l.Spares o) {s : Session} (hl : l.Enabled s) :
    wp (session.exec l) (fun _ t => Tallied o l.budget (l.received s) t)
      (fun _ t => Tallied o l.budget (l.received s) t) s := by
  cases l with
  | read i r x =>
    cases r with
    | error => exact costs_exceptionForRead i false s
    | closed => exact costs_exceptionForRead i true s
    | bytes n written => exact wp_handleBytes_tallied ho n written x hl.1
  | check x => exact costs_connCheck x s
  | setupRequest i connects => exact costs_setupRequest i connects s
  | setupResponse i reply => exact costs_setupResponse i reply s
  | announce => exact costs_updateLastDownloadedByte s
  | selectFailed => exact costs_fail s
  | stop =>
    exact ⟨rfl, rfl, rfl, rfl, rfl, .inl, .inl rfl, min_le_left _ _, ⟨[], rfl, by simp⟩, .refl o s.toGb,
      le_rfl, le_rfl⟩

/-! ### The start -/

section

variable {s : Session}

lemma costs_initSegment : Costs (tally none) 0 initSegment := by
  apply Costs.free .get
  intro s
  apply Costs.free (costs_signed _ _)
  intro fixedSegmentSizeBytes
  apply Costs.ite
  · intro _
    apply Costs.free (.ensure _)
    intro _
    apply Costs.free (costs_signed _ _)
    intro count
    refine .free (.modify fun s => ?_) fun _ => .pure _
    exact ⟨rfl, rfl, rfl, rfl, rfl, .inl, .inl rfl, min_le_left _ _, ⟨[], rfl, by simp⟩, nofun, le_rfl, le_rfl⟩
  · exact fun _ => .pure _

lemma costs_initConn (i : Link) : Costs (tally none) 0 (initConn i) := by
  apply Costs.free .get
  intro s
  apply Costs.free (.demand _ _)
  intro head
  apply Costs.free (.demand _ _)
  intro last
  refine .free (.whenever fun _ => costs_modifyConn fun _ => ⟨rfl, rfl, rfl⟩) fun _ => ?_
  cases head.subsegment i with
  | none => exact costs_modifyConn_other (by simp) fun _ => rfl
  | some p =>
    apply Costs.free (costs_point _ _)
    intro _
    apply Costs.free (.demand _ _)
    exact fun c => costs_modifyConn_other (by simp) fun _ => rfl

lemma costs_gbInitSegmentSetup : Costs (tally none) (1, 0) gbInitSegmentSetup := by
  refine .free (.modify fun s => ?_) fun _ => ?_
  · exact ⟨rfl, rfl, rfl, rfl, rfl, .inl, .inl rfl, min_le_left _ _, ⟨[], rfl, by simp⟩, nofun,
      Nat.zero_le _, le_rfl⟩
  apply Costs.free costs_initSegment
  intro size
  refine .free (costs_modifyOffsetInfo fun _ => ⟨fun _ _ => id, rfl⟩) fun _ => ?_
  apply Costs.bind_free (costs_addNewSegment _ _ _)
  intro _
  apply Costs.free .get
  intro s
  apply Costs.free (costs_addNewSubsegment _ _ _ _)
  intro _
  apply Costs.free (.each_free fun i => costs_initConn i)
  intro _
  apply Costs.free (costs_signed _ _)
  exact fun rate => .modify fun s => ⟨rfl, rfl, rfl, rfl, rfl, .inl, .inl rfl, min_le_left _ _,
    ⟨[], rfl, by simp⟩, nofun, le_rfl, le_rfl⟩

lemma costs_gbStart (created : Link → Bool) : Costs (tally none) 0 (gbStart created) := by
  apply Costs.free .get
  intro s
  apply Costs.free
  · apply Costs.each_free
    intro i
    apply Costs.free (costs_connAt _)
    intro c
    apply Costs.free (.whenever fun hi => .modify fun s => ?_)
    · exact fun _ => .whenever fun _ => costs_createSetupThread _ _
    · refine ⟨rfl, rfl, rfl, rfl, ?_, .inl, .inl rfl, min_le_left _ _, ⟨[], rfl, by simp⟩, nofun, le_rfl,
        le_rfl⟩
      simp only [Function.update_of_ne hi.symm]
  · exact fun _ => .modify fun s => ⟨rfl, rfl, rfl, rfl, rfl, nofun, .inl rfl, min_le_left _ _,
      ⟨[], rfl, by simp⟩, nofun, le_rfl, le_rfl⟩

/-- A session whose server supports ranges is opened with one segment. -/
lemma wp_gbOpen_tallied (hs : (s.conn .lte).supported) :
    wp gbOpen (fun _ t => Tallied none (1, 0) s t) (fun _ _ => True) s := by
  rw [gbOpen, wp_bind, wp_connAt]
  refine ⟨fun _ => ?_, fun _ => trivial⟩
  rw [wp_bind, wp_whenever]
  refine ⟨fun hn => absurd hs hn, fun _ => ?_⟩
  exact costs_gbInitSegmentSetup.wp (fun _ _ ht => ht) fun _ _ _ => trivial

lemma gbStart_ready (created : Link → Bool) :
    wp (gbStart created) (fun _ t => t.ready = .no) (fun _ _ => True) s := by
  simp only [gbStart, wp_bind, wp_get, wp_modify]
  exact wp_of_forall (fun _ _ => trivial) fun _ _ => trivial

/-- What a session has spent when its threads are started. -/
structure Unspent (s : Session) : Prop where
  ready : s.ready = .no
  supported : (s.conn .lte).supported
  segments : s.offsetInfo.segmentCount ≤ 1
  recoveries : s.numRecoveries = 0

lemma unspent_of_start (h : session.start s) : Unspent s := by
  obtain ⟨exact, statics, conf, size, status, created, hconf, hsize, hrun⟩ := h
  have hw : wp (gbOpen *> gbStart created) (fun _ t => Unspent t) (fun _ _ => True)
      { gbNew statics conf size true status with exact := exact } := by
    rw [wp_seqRight]
    refine wp_mono (wp_gbOpen_tallied (by rfl)) (fun _ t ht => ?_) fun _ _ h => h
    refine wp_mono (wp_and (costs_gbStart created t) (gbStart_ready created)) ?_ fun _ _ _ => trivial
    rintro _ u ⟨hu, hready⟩
    have htu : Tallied none (1, 0) _ u := (tally none).free_trans ht hu
    exact ⟨hready, htu.supported, htu.segments, Nat.le_zero.mp htu.recoveries⟩
  exact ((wp_iff _).mp hw).1 () s hrun

end

end GreenBag
