import GreenBag.Session
import GreenBag.Hidden

/-! The functions that neither look at the static variables nor measure the connections. -/

namespace GreenBag

open Programs

/-- What most functions do not depend on: the static variables, and how integers are read. -/
structure Hidden where
  statics : Statics
  exact : Bool

def putHidden (s : Session) (h : Hidden) : Session := { s with statics := h.statics, exact := h.exact }

def Session.hidden (s : Session) : Hidden := ⟨s.statics, s.exact⟩

def putStatics (s : Session) (statics : Statics) : Session := { s with statics := statics }

lemma putStatics_statics (s : Session) : putStatics s s.statics = s := rfl

lemma statics_putStatics (s : Session) (c : Statics) : (putStatics s c).statics = c := rfl

def putExact (s : Session) (exact : Bool) : Session := { s with exact := exact }

/-- Neither the receipt of bytes, nor the call behind a measurement, nor the one for a mode. -/
def Event.Silent : Event → Prop
  | .wrote _ _ _ => False
  | .called _ .nextSegmentSize _ => False
  | .called _ (.nextSubsegment _) _ => False
  | _ => True

/-- Some events were added to the trace, all of them silent. -/
def SilentlyLonger (s t : Session) : Prop := ∃ es, t.trace = es ++ s.trace ∧ ∀ e ∈ es, e.Silent

/-- What is measured of the connections did not change. -/
structure SameMeter (s t : Session) : Prop where
  conf : t.conf = s.conf
  size : t.size = s.size
  rate : t.qosBytesPerSecond = s.qosBytesPerSecond
  exact : t.exact = s.exact
  average : ∀ i, (t.conn i).ewmaBytesPerSecond = (s.conn i).ewmaBytesPerSecond
  bytesDone : ∀ i, (t.conn i).bytesDone = (s.conn i).bytesDone
  trace : SilentlyLonger s t

/-- The links that are used did not change either. -/
structure SameLinks (s t : Session) : Prop extends SameMeter s t where
  singleLinkModeFlag : t.offsetInfo.singleLinkModeFlag = s.offsetInfo.singleLinkModeFlag

/-- No segment was completed. -/
structure SameCount (s t : Session) : Prop extends SameLinks s t where
  count : t.offsetInfo.completedSegmentCount = s.offsetInfo.completedSegmentCount

/-- The connections and the segments did not change. -/
structure SameDownload (s t : Session) : Prop where
  conf : t.conf = s.conf
  size : t.size = s.size
  rate : t.qosBytesPerSecond = s.qosBytesPerSecond
  exact : t.exact = s.exact
  conn : t.conn = s.conn
  offsetInfo : t.offsetInfo = s.offsetInfo
  trace : SilentlyLonger s t

section

variable {s t u : Session}

lemma SilentlyLonger.refl (s : Session) : SilentlyLonger s s := ⟨[], rfl, by simp⟩

lemma SilentlyLonger.trans (h : SilentlyLonger s t) (h' : SilentlyLonger t u) :
    SilentlyLonger s u := by
  obtain ⟨es, he, hs⟩ := h
  obtain ⟨fs, hf, ht⟩ := h'
  refine ⟨fs ++ es, by rw [hf, he, List.append_assoc], fun e hm => ?_⟩
  exact (List.mem_append.mp hm).elim (ht e) (hs e)

lemma SilentlyLonger.all {P : Event → Prop} (h : SilentlyLonger s t) (hP : ∀ e : Event, e.Silent → P e)
    (hs : ∀ e ∈ s.trace, P e) : ∀ e ∈ t.trace, P e := by
  obtain ⟨es, he, hes⟩ := h
  intro e hm
  rw [he] at hm
  exact (List.mem_append.mp hm).elim (fun hm => hP e (hes e hm)) (hs e)

lemma SilentlyLonger.cons {e : Event} (h : t.trace = e :: s.trace) (he : e.Silent) :
    SilentlyLonger s t :=
  ⟨[e], h, by simpa using he⟩

namespace SameMeter

lemma of_conn (hc : t.conf = s.conf) (hs : t.size = s.size)
    (hr : t.qosBytesPerSecond = s.qosBytesPerSecond) (he : t.exact = s.exact) (h : t.conn = s.conn)
    (ht : SilentlyLonger s t) : SameMeter s t :=
  ⟨hc, hs, hr, he, fun i => by rw [h], fun i => by rw [h], ht⟩

lemma refl (s : Session) : SameMeter s s := .of_conn rfl rfl rfl rfl rfl (.refl s)

lemma trans (h : SameMeter s t) (h' : SameMeter t u) : SameMeter s u where
  conf := h'.conf.trans h.conf
  size := h'.size.trans h.size
  rate := h'.rate.trans h.rate
  exact := h'.exact.trans h.exact
  average i := (h'.average i).trans (h.average i)
  bytesDone i := (h'.bytesDone i).trans (h.bytesDone i)
  trace := h.trace.trans h'.trace

end SameMeter

lemma SameLinks.refl (s : Session) : SameLinks s s := ⟨.refl s, rfl⟩

lemma SameLinks.trans (h : SameLinks s t) (h' : SameLinks t u) : SameLinks s u :=
  ⟨h.toSameMeter.trans h'.toSameMeter, h'.singleLinkModeFlag.trans h.singleLinkModeFlag⟩

lemma SameCount.refl (s : Session) : SameCount s s := ⟨.refl s, rfl⟩

lemma SameCount.trans (h : SameCount s t) (h' : SameCount t u) : SameCount s u :=
  ⟨h.toSameLinks.trans h'.toSameLinks, h'.count.trans h.count⟩

lemma SameDownload.refl (s : Session) : SameDownload s s := ⟨rfl, rfl, rfl, rfl, rfl, rfl, .refl s⟩

lemma SameDownload.trans (h : SameDownload s t) (h' : SameDownload t u) : SameDownload s u where
  conf := h'.conf.trans h.conf
  size := h'.size.trans h.size
  rate := h'.rate.trans h.rate
  exact := h'.exact.trans h.exact
  conn := h'.conn.trans h.conn
  offsetInfo := h'.offsetInfo.trans h.offsetInfo
  trace := h.trace.trans h'.trace

lemma SameDownload.sameCount (h : SameDownload s t) : SameCount s t where
  toSameMeter := .of_conn h.conf h.size h.rate h.exact h.conn h.trace
  singleLinkModeFlag := by rw [h.offsetInfo]
  count := by rw [h.offsetInfo]

end

/-- Steps that only look. -/
def looking : Frame Fault Session where
  rel := SameDownload
  fault e _ := e ≠ .assertGoodput
  refl := .refl
  trans := .trans

/-- Steps that measure nothing and change no mode. -/
def silent : Frame Fault Session where
  rel := SameLinks
  fault e _ := e ≠ .assertGoodput
  refl := .refl
  trans := .trans

/-- Such steps that complete no segment. -/
def growing : Frame Fault Session where
  rel := SameCount
  fault e _ := e ≠ .assertGoodput
  refl := .refl
  trans := .trans

section

variable {α η : Type} {put : Session → η → Session} {F : Frame Fault Session} {x : Program α}

lemma silently (h : Blind put looking x) : Blind put silent x :=
  h.mono (fun _ _ ht => ht.sameCount.toSameLinks) fun _ _ he => he

lemma growingly (h : Blind put looking x) : Blind put growing x :=
  h.mono (fun _ _ ht => ht.sameCount) fun _ _ he => he

lemma silently_of_growing (h : Blind put growing x) : Blind put silent x :=
  h.mono (fun _ _ ht => ht.toSameLinks) fun _ _ he => he

lemma statically (h : Blind putHidden F x) : Blind putStatics F x :=
  h.part Session.hidden (fun d c => { d with statics := c }) (fun _ => rfl) (fun _ _ => rfl)
    fun _ _ => rfl

lemma exactly (h : Blind putHidden F x) : Blind putExact F x :=
  h.part Session.hidden (fun d c => { d with exact := c }) (fun _ => rfl) (fun _ _ => rfl) fun _ _ => rfl

lemma harmless {e : Fault} (he : e ≠ .assertGoodput) (_ : Session) : e ≠ .assertGoodput := he

end

/-! ### Steps -/

section

variable {c : Prop} [Decidable c] {i : Link} {e : Fault} {α : Type}

lemma blind_logEvent {f : Gb → Event} (hf : ∀ s, (f s).Silent) :
    Blind putHidden looking (logEvent f) :=
  .modify (fun _ _ => rfl) fun s => ⟨rfl, rfl, rfl, rfl, rfl, rfl, .cons rfl (hf s.toGb)⟩

lemma blind_modifyConn {f : Conn → Conn} (hf : ∀ c, (f c).ewmaBytesPerSecond = c.ewmaBytesPerSecond ∧
    (f c).bytesDone = c.bytesDone) : Blind putHidden silent (modifyConn i f) := by
  refine .modify (fun _ _ => rfl) fun s => ⟨⟨rfl, rfl, rfl, rfl, fun j => ?_, fun j => ?_, .refl s⟩, rfl⟩
  · obtain rfl | hj := eq_or_ne j i
    · simpa only [Function.update_self] using (hf _).1
    · simp only [Function.update_of_ne hj]
  · obtain rfl | hj := eq_or_ne j i
    · simpa only [Function.update_self] using (hf _).2
    · simp only [Function.update_of_ne hj]

lemma blind_modifyOffsetInfo {f : OffsetInfo → OffsetInfo}
    (hf : ∀ o, (f o).singleLinkModeFlag = o.singleLinkModeFlag) :
    Blind putHidden silent (modifyOffsetInfo f) :=
  .modify (fun _ _ => rfl) fun s => ⟨.of_conn rfl rfl rfl rfl rfl (.refl s), hf _⟩

lemma blind_modifyOffsetInfo_growing {f : OffsetInfo → OffsetInfo}
    (hf : ∀ o, (f o).singleLinkModeFlag = o.singleLinkModeFlag ∧
      (f o).completedSegmentCount = o.completedSegmentCount) :
    Blind putHidden growing (modifyOffsetInfo f) :=
  .modify (fun _ _ => rfl) fun s => ⟨⟨.of_conn rfl rfl rfl rfl rfl (.refl s), (hf _).1⟩, (hf _).2⟩

lemma blind_connAt (i : Link) : Blind putHidden looking (connAt i) := by
  refine .read (fun _ _ => rfl) fun s => ?_
  exact .bind (.ensure (harmless (by decide))) fun _ => .pure _

lemma blind_follow (pointer : Option ℕ) : Blind putHidden looking (follow pointer) := by
  refine .read (fun _ _ => rfl) fun s => ?_
  exact .bind (.demand (harmless (by decide)) _) fun _ => .demand (harmless (by decide)) _

lemma blind_getFastConnIndex : Blind putHidden looking getFastConnIndex := by
  refine .bind (blind_connAt _) fun _ => ?_
  exact .bind (blind_connAt _) fun _ => .pure _

lemma blind_getStartByteNextSegment : Blind putHidden looking getStartByteNextSegment := by
  refine .read (fun _ _ => rfl) fun s => ?_
  exact .bind (.ensure (harmless (by decide))) fun _ => .pure _

lemma blind_virtualShare (i j : Link) : Blind putHidden looking (virtualShare i j) := by
  refine .read (fun _ _ => rfl) fun s => ?_
  cases s.offsetInfo.connection j with
  | none => exact .pure _
  | some id =>
    refine .bind (blind_follow _) fun g => ?_
    refine .bind (.ite (fun _ => ?_) fun _ => .pure _) fun _ => .pure _
    exact .bind (blind_connAt _) fun _ => .pure _

lemma blind_getVirtualSegSize (i : Link) (size : ℤ) :
    Blind putHidden looking (getVirtualSegSize i size) := by
  refine .read (fun _ _ => rfl) fun s => .ite (fun _ => ?_) fun _ => ?_
  · exact .bind (.demand (harmless (by decide)) _) fun _ => .pure _
  · refine .bind (blind_virtualShare _ _) fun _ => ?_
    exact .bind (blind_virtualShare _ _) fun _ => .pure _

lemma blind_getBnChunkInfo (i : Link) : Blind putHidden looking (getBnChunkInfo i) := by
  refine .bind (blind_logEvent fun _ => trivial) fun _ => ?_
  refine .read (fun _ _ => rfl) fun s => .ite (fun _ => ?_) fun _ => ?_
  · exact .bind (.demand (harmless (by decide)) _) fun _ => .pure _
  · cases s.getChunkBeingDwndByConn i.other with
    | none => exact .bind (.demand (harmless (by decide)) _) fun _ => .pure _
    | some bn =>
      cases s.getNextChunkDwndByConn i with
      | none => exact .pure _
      | some c => exact .ite (fun _ => .pure _) fun _ => .pure _

lemma blind_updateLastDownloadedByte : Blind putHidden looking updateLastDownloadedByte := by
  refine .read (fun _ _ => rfl) fun s => ?_
  refine .bind (.ensure (harmless (by decide))) fun _ => ?_
  refine .bind (.modify (fun _ _ => rfl) fun s => ?_) fun _ => blind_logEvent fun _ => trivial
  exact ⟨rfl, rfl, rfl, rfl, rfl, rfl, .refl s⟩

lemma blind_getRemainingPlayableTime (x : Sample) :
    Blind putHidden looking (getRemainingPlayableTime x) := by
  refine .bind blind_updateLastDownloadedByte fun _ => ?_
  exact .read (fun _ _ => rfl) fun _ => .pure _

lemma blind_getRemainingFileSize : Blind putHidden looking getRemainingFileSize := by
  refine .bind blind_getStartByteNextSegment fun _ => ?_
  exact .read (fun _ _ => rfl) fun _ => .pure _

lemma blind_doesQosMissUntilBnChunk (i : Link) (x : Sample) :
    Blind putHidden looking (doesQosMissUntilBnChunk i x) := by
  refine .bind (blind_getBnChunkInfo i) fun bn => ?_
  refine .bind (blind_connAt _) fun c => ?_
  exact .bind (blind_getRemainingPlayableTime x) fun _ => .pure _

lemma blind_signed (width : ℕ) (n : ℤ) : Blind putStatics looking (signed width n) :=
  .read (fun _ _ => rfl) fun _ => .bind (.ensure (harmless (by decide))) fun _ => .pure _

lemma blind_portion (size r q : ℤ) : Blind putStatics looking (portion size r q) := by
  refine .bind (blind_signed _ _) fun product => .bind (blind_signed _ _) fun sum => ?_
  exact .bind (.ensure (harmless (by decide))) fun _ => blind_signed _ _

lemma blind_subsegSize (g : Segment) (i : Link) (r q : ℤ) (fixed : Bool) :
    Blind putStatics looking (subsegSize g i r q fixed) := by
  refine .read (fun _ _ => rfl) fun s => .ite (fun _ => blind_portion _ _ _) fun _ => ?_
  refine .bind (.ite (fun _ => .pure _) fun _ => statically (blind_getVirtualSegSize _ _)) fun size => ?_
  exact .bind (blind_portion _ _ _) fun _ => .pure _

lemma blind_connByte (i : Link) (current : Option ℕ) (gs : List Segment) (byte : ℤ) :
    Blind putHidden looking (connByte i current gs byte) := by
  induction gs generalizing byte with
  | nil => exact .pure _
  | cons g rest ih =>
    rw [connByte]
    refine .ite (fun _ => ih byte) fun _ => ?_
    cases g.subsegment i with
    | none => exact ih byte
    | some p => exact .bind (.demand (harmless (by decide)) _) fun _ => ih _

lemma blind_findInorderOffset : Blind putHidden looking findInorderOffset := by
  refine .read (fun _ _ => rfl) fun s => .ite (fun _ => ?_) fun _ => ?_
  · cases s.activeByte with
    | none => exact .pure _
    | some a => exact .bind (.ensure (harmless (by decide))) fun _ => .pure _
  · refine .ite (fun _ => .pure _) fun _ => ?_
    refine .bind (blind_connAt _) fun _ => .bind (blind_connAt _) fun _ => ?_
    refine .bind (blind_connByte _ _ _ _) fun _ => ?_
    exact .bind (blind_connByte _ _ _ _) fun _ => .pure _

lemma blind_segmentToRecover (i : Link) : Blind putHidden looking (segmentToRecover i) := by
  refine .read (fun _ _ => rfl) fun s => .ite (fun _ => .pure _) fun _ => ?_
  cases s.offsetInfo.connection i.other with
  | none => exact .pure _
  | some id => exact .bind (blind_follow _) fun _ => .pure _

lemma blind_recoveryPays (i : Link) (x : Inputs) (other : Segment) :
    Blind putHidden looking (recoveryPays i x other) := by
  refine .read (fun _ _ => rfl) fun s => ?_
  refine .bind blind_getFastConnIndex fun _ => .ite (fun _ => .pure _) fun _ => ?_
  refine .bind (blind_follow _) fun _ => .ite (fun _ => .pure _) fun _ => ?_
  refine .bind (blind_getBnChunkInfo i) fun _ => ?_
  exact .ite (fun _ => blind_doesQosMissUntilBnChunk _ _) fun _ => .pure _

end

/-! ### Segments -/

section

variable {i : Link}

lemma blind_addNewSegment (recovery : Bool) (cs : List Chunk) (size : ℤ) :
    Blind putHidden growing (addNewSegment recovery cs size) := by
  refine .read (fun _ _ => rfl) fun s => ?_
  refine .bind (.ite (fun _ => .pure _) fun _ => ?_) fun _ => ?_
  · exact .bind (growingly (blind_follow _)) fun _ => .pure _
  · refine .bind (.demand (harmless (by decide)) _) fun _ => ?_
    exact .bind (blind_modifyOffsetInfo_growing fun _ => ⟨rfl, rfl⟩) fun _ => .pure _

lemma blind_addNewSubsegment (i : Link) (r q : ℤ) (fixed : Bool) :
    Blind putStatics silent (addNewSubsegment i r q fixed) := by
  refine .bind (silently (statically blind_getFastConnIndex)) fun fast => ?_
  refine .read (fun _ _ => rfl) fun s => ?_
  refine .bind (silently (statically (blind_follow _))) fun g => ?_
  refine .bind (.ensure (harmless (by decide))) fun _ => ?_
  refine .bind (silently (blind_subsegSize _ _ _ _ _)) fun share => ?_
  refine .bind (.ensure (harmless (by decide))) fun _ => .bind (.ensure (harmless (by decide))) fun _ => ?_
  exact statically (blind_modifyOffsetInfo fun _ => rfl)

lemma blind_deleteSubsegment (id : ℕ) (i : Link) :
    Blind putHidden silent (deleteSubsegment id i) := by
  refine .bind (silently (blind_follow _)) fun _ => ?_
  exact .bind (.demand (harmless (by decide)) _) fun _ => blind_modifyOffsetInfo fun _ => rfl

lemma blind_updateInorderOffset (held : List Chunk) :
    Blind putHidden growing (updateInorderOffset held) := by
  refine .bind (.modify (fun _ _ => rfl) fun s => ?_) fun _ => ?_
  · exact ⟨⟨.of_conn rfl rfl rfl rfl rfl (.refl s), rfl⟩, rfl⟩
  refine .bind (growingly blind_findInorderOffset) fun found => ?_
  refine .bind (growingly (blind_logEvent fun _ => trivial)) fun _ => ?_
  refine .read (fun _ _ => rfl) fun s => .bind (.ensure (harmless (by decide))) fun _ => ?_
  exact .modify (fun _ _ => rfl) fun s => ⟨⟨.of_conn rfl rfl rfl rfl rfl (.refl s), rfl⟩, rfl⟩

lemma blind_gbDetermineNextSegmentPolicy (held : List Chunk) :
    Blind putHidden growing (gbDetermineNextSegmentPolicy held) := by
  refine .bind (growingly (blind_connAt _)) fun _ => ?_
  refine .bind (growingly (blind_connAt _)) fun _ => ?_
  refine .bind (blind_updateInorderOffset held) fun _ => ?_
  exact .read (fun _ _ => rfl) fun _ => .pure _

/-- What `gb_determine_next_segment_size` does once its call is recorded. -/
lemma blind_wantedSegment : Blind putHidden growing (do
    let s ← get
    let wanted ← (if s.conf.fixedSegmentMode then
        pure (if s.isUsingOnlyOneLink then s.offsetInfo.initSegSize.tdiv 2
          else s.offsetInfo.initSegSize)
      else gbDetermineNextSegmentPolicy [])
    let s ← get
    let newSegSize := s.clipSegSize wanted
    let remaining := s.offsetInfo.remainingChunks
    let size := newSegSize + (remaining.map Chunk.size).sum
    modifyOffsetInfo fun o => { o with remainingChunks := [] }
    if newSegSize ≠ 0 then do
      let start ← getStartByteNextSegment
      let _ ← addNewSegment false (addNewChunk remaining start newSegSize) size
      return size
    else do
      whenever (remaining ≠ []) (addNewSegment false remaining size *> pure ())
      return size) := by
  refine .read (fun _ _ => rfl) fun s => ?_
  refine .bind (.ite (fun _ => .pure _) fun _ => blind_gbDetermineNextSegmentPolicy _) fun wanted => ?_
  refine .read (fun _ _ => rfl) fun s => ?_
  refine .bind (blind_modifyOffsetInfo_growing fun _ => ⟨rfl, rfl⟩) fun _ => .ite (fun _ => ?_) fun _ => ?_
  · refine .bind (growingly blind_getStartByteNextSegment) fun _ => ?_
    exact .bind (blind_addNewSegment _ _ _) fun _ => .pure _
  · refine .bind (.whenever fun _ => ?_) fun _ => .pure _
    exact .bind (blind_addNewSegment _ _ _) fun _ => .pure _

/-- What `gb_determine_next_subsegment` does once its call is recorded. -/
lemma blind_nextSubsegment (i : Link) (mode : LinkMode) : Blind putStatics silent (do
    let s ← get
    match mode with
    | .single j => addNewSubsegment j 1 0 s.conf.fixedSubsegmentMode
    | .dual =>
      if s.conf.fixedSubsegmentMode then
        addNewSubsegment i (s.conf.initialChunkRate i) (s.conf.initialChunkRate i.other) true
      else do
        let c ← connAt i
        let d ← connAt i.other
        addNewSubsegment i c.bytesPerSecond d.bytesPerSecond false) := by
  refine .read (fun _ _ => rfl) fun s => ?_
  cases mode with
  | single j => exact blind_addNewSubsegment _ _ _ _
  | dual =>
    refine .ite (fun _ => blind_addNewSubsegment _ _ _ _) fun _ => ?_
    refine .bind (silently (statically (blind_connAt _))) fun _ => ?_
    exact .bind (silently (statically (blind_connAt _))) fun _ => blind_addNewSubsegment _ _ _ _

lemma flag_deleteFinishedHeadSegment (o : OffsetInfo) :
    (o.deleteFinishedHeadSegment.getD o).singleLinkModeFlag = o.singleLinkModeFlag := by
  rw [OffsetInfo.deleteFinishedHeadSegment]
  split
  · rfl
  · split_ifs <;> rfl

lemma flag_deleteFinishedHeadSegments (n : ℕ) (o : OffsetInfo) :
    (OffsetInfo.deleteFinishedHeadSegments n o).singleLinkModeFlag = o.singleLinkModeFlag := by
  induction n generalizing o with
  | zero => rfl
  | succ n ih =>
    have hone := flag_deleteFinishedHeadSegment o
    rw [OffsetInfo.deleteFinishedHeadSegments]
    cases hd : o.deleteFinishedHeadSegment with
    | none => rfl
    | some o' =>
      rw [hd] at hone
      exact (ih o').trans hone

lemma blind_gatherChunks (o : Link) (n : ℕ) (pointer : Option ℕ) (cs : List Chunk) :
    Blind putHidden silent (gatherChunks o n pointer cs) := by
  induction n generalizing pointer cs with
  | zero =>
    cases pointer with
    | none => exact .pure _
    | some id => exact .throw (harmless (by decide))
  | succ n ih =>
    cases pointer with
    | none => exact .pure _
    | some id =>
      refine .bind (silently (blind_follow _)) fun g => ?_
      refine .bind (.demand (harmless (by decide)) _) fun p => ?_
      refine .bind (blind_deleteSubsegment _ _) fun _ => .read (fun _ _ => rfl) fun s => ?_
      exact .bind (blind_modifyOffsetInfo flag_deleteFinishedHeadSegment) fun _ => ih _ _

lemma blind_detachChunks (o : Link) : Blind putHidden silent (detachChunks o) := by
  refine .read (fun _ _ => rfl) fun s => ?_
  refine .bind (silently (blind_follow _)) fun g => ?_
  refine .bind (.demand (harmless (by decide)) _) fun p => ?_
  refine .bind (.demand (harmless (by decide)) _) fun head => ?_
  refine .bind (blind_deleteSubsegment _ _) fun _ => .read (fun _ _ => rfl) fun s' => ?_
  refine .bind (blind_modifyOffsetInfo flag_deleteFinishedHeadSegment) fun _ => ?_
  exact blind_gatherChunks _ _ _ _

lemma blind_recoverOutorderPortionAndNextSegment (i : Link) :
    Blind putHidden silent (recoverOutorderPortionAndNextSegment i) := by
  refine .bind (blind_detachChunks _) fun cs => .read (fun _ _ => rfl) fun s => ?_
  refine .bind (.ite (fun _ => .pure _) fun _ => ?_) fun wanted => ?_
  · exact silently_of_growing (blind_gbDetermineNextSegmentPolicy _)
  refine .read (fun _ _ => rfl) fun s => .bind (.ite (fun _ => ?_) fun _ => .pure _) fun cs => ?_
  · exact .bind (silently blind_getStartByteNextSegment) fun _ => .pure _
  · exact .bind (silently_of_growing (blind_addNewSegment _ _ _)) fun _ => blind_modifyOffsetInfo fun _ => rfl

/-! ### Connections -/

lemma blind_connDisconnect (i : Link) : Blind putHidden silent (connDisconnect i) :=
  blind_modifyConn fun _ => ⟨rfl, rfl⟩

lemma blind_connInit (i : Link) (connects : Bool) : Blind putHidden silent (connInit i connects) := by
  refine .ite (fun _ => ?_) fun _ => .bind (blind_connDisconnect i) fun _ => .pure _
  exact .bind (blind_modifyConn fun _ => ⟨rfl, rfl⟩) fun _ => .pure _

lemma blind_sendGet (site : Site) (i : Link) (first last : ℤ) :
    Blind putHidden silent (sendGet site i first last) := by
  refine .bind (silently (blind_logEvent fun _ => trivial)) fun _ => ?_
  exact .read (fun _ _ => rfl) fun s => blind_modifyConn fun _ => ⟨rfl, rfl⟩

lemma blind_gbGetRequests (i : Link) (cs : List Chunk) :
    Blind putHidden silent (gbGetRequests i cs) := by
  induction cs with
  | nil => exact .pure _
  | cons c cs ih => exact .bind (blind_sendGet _ _ _ _) fun _ => ih

lemma blind_sendHttpRequestForSubsegment (i : Link) (p : Option Subsegment) (connects : Bool) :
    Blind putHidden silent (sendHttpRequestForSubsegment i p connects) := by
  cases p with
  | none => exact .pure _
  | some p =>
    refine .bind (silently (blind_connAt _)) fun c => ?_
    refine .bind (.whenever fun _ => .bind (blind_connInit _ _) fun _ => ?_) fun _ => ?_
    · exact .ensure (harmless (by decide))
    · refine .bind (blind_gbGetRequests _ _) fun _ => ?_
      exact .bind (blind_modifyConn fun _ => ⟨rfl, rfl⟩) fun _ => .pure _

lemma blind_gbReceiveHttpHeaderResponse (site : Site) (i : Link) (reply : List UInt8) :
    Blind putHidden silent (gbReceiveHttpHeaderResponse site i reply) := by
  refine .bind (silently (blind_logEvent fun _ => trivial)) fun _ => ?_
  cases readHeaderBlock 0 [] reply with
  | none => exact .pure _
  | some headers => exact .bind (blind_modifyConn fun _ => ⟨rfl, rfl⟩) fun _ => .pure _

lemma blind_httpExec (i : Link) (reply : List UInt8) : Blind putHidden silent (httpExec i reply) := by
  refine .read (fun _ _ => rfl) fun s => ?_
  refine .bind (silently (blind_logEvent fun _ => trivial)) fun _ => ?_
  generalize readHeaderBlock 0 [] _ = headers
  cases headers with
  | none => exact .pure _
  | some headers =>
    refine .bind (blind_modifyConn fun _ => ⟨rfl, rfl⟩) fun _ => ?_
    exact .bind (.ensure (harmless (by decide))) fun _ => .pure _

lemma blind_setupRequest (i : Link) (connects : Bool) :
    Blind putHidden silent (setupRequest i connects) := by
  refine .bind ?_ fun _ => .ite (fun _ => blind_modifyConn fun _ => ⟨rfl, rfl⟩) fun _ => ?_
  · refine .bind (silently (blind_connAt _)) fun c => ?_
    refine .bind (.ite (fun _ => .pure _) fun _ => blind_connInit _ _) fun _ => ?_
    exact .bind (.whenever fun _ => blind_sendGet _ _ _ _) fun _ => .pure _
  · exact .bind (blind_connDisconnect _) fun _ => blind_modifyConn fun _ => ⟨rfl, rfl⟩

lemma blind_setupResponse (i : Link) (reply : List UInt8) :
    Blind putHidden silent (setupResponse i reply) := by
  refine .bind ?_ fun _ => .ite (fun _ => blind_modifyConn fun _ => ⟨rfl, rfl⟩) fun _ => ?_
  · exact .bind (blind_httpExec _ _) fun _ => .read (fun _ _ => rfl) fun _ => .pure _
  · exact .bind (blind_connDisconnect _) fun _ => blind_modifyConn fun _ => ⟨rfl, rfl⟩

/-! ### Handling -/

lemma blind_ready (ready : Ready) :
    Blind putHidden silent (modify fun s : Session => { s with ready := ready }) :=
  .modify (fun _ _ => rfl) fun s => ⟨.of_conn rfl rfl rfl rfl rfl (.refl s), rfl⟩

lemma blind_exceptionForRead (i : Link) (closed : Bool) :
    Blind putHidden silent (exceptionForRead i closed) := by
  refine .bind (silently (blind_connAt _)) fun _ => ?_
  refine .bind (.whenever fun _ => blind_ready _) fun _ => ?_
  exact .bind (blind_modifyConn fun _ => ⟨rfl, rfl⟩) fun _ => blind_connDisconnect _

lemma blind_checkingLastSubseg (i : Link) : Blind putHidden silent (checkingLastSubseg i) := by
  refine .read (fun _ _ => rfl) fun s => ?_
  refine .bind (silently (blind_follow _)) fun g => ?_
  refine .bind (.demand (harmless (by decide)) _) fun p => ?_
  refine .bind (.demand (harmless (by decide)) _) fun last => ?_
  exact .whenever fun _ => blind_modifyConn fun _ => ⟨rfl, rfl⟩

lemma blind_checkingLastSegment : Blind putHidden silent checkingLastSegment := by
  refine .read (fun _ _ => rfl) fun s => .each fun i => .read (fun _ _ => rfl) fun s => ?_
  generalize (s.offsetInfo.connection i).bind _ = next
  cases next with
  | none => exact .pure _
  | some id =>
    refine .bind (silently (blind_follow _)) fun g => ?_
    refine .bind (.demand (harmless (by decide)) _) fun last => ?_
    exact .whenever fun _ => blind_modifyConn fun _ => ⟨rfl, rfl⟩

lemma blind_moveTo (i : Link) (id : ℕ) : Blind putHidden silent (moveTo i id) := by
  refine .bind (silently (blind_follow _)) fun g => ?_
  refine .bind (.demand (harmless (by decide)) _) fun p => ?_
  refine .bind (blind_modifyOffsetInfo fun _ => rfl) fun _ => ?_
  refine .bind (.demand (harmless (by decide)) _) fun c => ?_
  exact .bind (blind_modifyConn fun _ => ⟨rfl, rfl⟩) fun _ => blind_checkingLastSubseg _

lemma blind_returnDownloadingForIdleConn (i : Link) (reply : List UInt8) :
    Blind putHidden silent (returnDownloadingForIdleConn i reply) := by
  refine .read (fun _ _ => rfl) fun s => .whenever fun _ => ?_
  refine .bind (silently (blind_follow _)) fun tail => .bind (blind_moveTo _ _) fun _ => ?_
  refine .bind (blind_gbReceiveHttpHeaderResponse _ _ _) fun received => .whenever fun _ => ?_
  exact .bind (blind_modifyConn fun _ => ⟨rfl, rfl⟩) fun _ => blind_modifyOffsetInfo fun _ => rfl

lemma blind_returnDownloadingForRecoveredConn (i : Link) (connects : Bool) (reply : List UInt8) :
    Blind putHidden silent (returnDownloadingForRecoveredConn i connects reply) := by
  refine .read (fun _ _ => rfl) fun s => .bind (silently (blind_follow _)) fun tail => ?_
  cases tail.subsegment i with
  | none => exact .bind (blind_modifyOffsetInfo fun _ => rfl) fun _ => blind_modifyConn fun _ => ⟨rfl, rfl⟩
  | some p =>
    refine .bind (blind_connInit _ _) fun _ => .bind (.ensure (harmless (by decide))) fun _ => ?_
    refine .bind (blind_moveTo _ _) fun _ => ?_
    refine .bind (blind_sendHttpRequestForSubsegment _ _ _) fun _ => ?_
    refine .bind (blind_gbReceiveHttpHeaderResponse _ _ _) fun _ => .whenever fun _ => ?_
    exact blind_modifyConn fun _ => ⟨rfl, rfl⟩

lemma blind_finishLastChunkOfSubseg (i : Link) (reply : List UInt8) :
    Blind putHidden silent (finishLastChunkOfSubseg i reply) := by
  refine .read (fun _ _ => rfl) fun s => .bind (silently (blind_follow _)) fun g => ?_
  refine .bind (.demand (harmless (by decide)) _) fun p => ?_
  refine .bind (.ensure (harmless (by decide))) fun _ => ?_
  refine .bind (blind_modifyOffsetInfo fun _ => rfl) fun _ => ?_
  cases p.chunkList.tail with
  | nil => exact .pure _
  | cons c cs =>
    refine .bind (blind_modifyConn fun _ => ⟨rfl, rfl⟩) fun _ => ?_
    refine .bind (blind_gbReceiveHttpHeaderResponse _ _ _) fun _ => ?_
    exact .bind (.whenever fun _ => blind_modifyConn fun _ => ⟨rfl, rfl⟩) fun _ => .pure _

lemma blind_closesFinished (i : Link) : Blind putHidden looking (closesFinished i) := by
  refine .read (fun _ _ => rfl) fun s => .bind (blind_connAt _) fun c => ?_
  exact .ite (fun _ => .pure _) fun _ => .bind (blind_connAt _) fun _ => .pure _

lemma blind_finishDownloadingSubseg (i : Link) (reply : List UInt8) :
    Blind putHidden silent (finishDownloadingSubseg i reply) := by
  refine .read (fun _ _ => rfl) fun s => .bind (silently (blind_connAt _)) fun c => ?_
  refine .ite (fun _ => ?_) fun _ => ?_
  · refine .bind (blind_gbReceiveHttpHeaderResponse _ _ _) fun _ => ?_
    refine .bind (.whenever fun _ => blind_modifyConn fun _ => ⟨rfl, rfl⟩) fun _ => ?_
    refine .bind (silently (blind_follow _)) fun g => ?_
    refine .bind (.demand (harmless (by decide)) _) fun next => ?_
    refine .bind (blind_moveTo _ _) fun _ => ?_
    refine .bind (.whenever fun _ => blind_modifyConn fun _ => ⟨rfl, rfl⟩) fun _ => ?_
    exact blind_modifyOffsetInfo fun o => flag_deleteFinishedHeadSegments _ o
  · refine .bind (silently (blind_closesFinished _)) fun closes => ?_
    refine .bind (blind_modifyOffsetInfo fun _ => rfl) fun _ => ?_
    refine .bind (.whenever fun _ => blind_connDisconnect _) fun _ => ?_
    exact blind_modifyOffsetInfo fun o => flag_deleteFinishedHeadSegments _ o

lemma blind_finishChunk (i : Link) (x : Inputs) : Blind putHidden silent (finishChunk i x) := by
  refine .bind (blind_modifyConn fun _ => ⟨rfl, rfl⟩) fun _ => ?_
  refine .bind (blind_finishLastChunkOfSubseg _ _) fun finished => .whenever fun _ => ?_
  refine .read (fun _ _ => rfl) fun s => .bind (silently (blind_follow _)) fun g => ?_
  refine .bind (blind_deleteSubsegment _ _) fun _ => ?_
  exact .bind (blind_finishDownloadingSubseg _ _) fun _ => silently_of_growing (blind_updateInorderOffset _)

/-- What `plan_ahead` does behind `gb_setup_next_segment`. -/
lemma blind_sendPlanned (i : Link) (x : Inputs) : Blind putHidden silent (do
    let s ← get
    let tail ← follow s.offsetInfo.tail
    let _ ← sendHttpRequestForSubsegment i (tail.subsegment i) (x.connects i)
    if tail.recoverySegment then
      returnDownloadingForRecoveredConn i.other (x.connects i.other) (x.reply .recoveredConn)
    else do
      let sent ← sendHttpRequestForSubsegment i.other (tail.subsegment i.other) (x.connects i.other)
      whenever sent (returnDownloadingForIdleConn i.other (x.reply .idleConn))
    checkingLastSegment) := by
  refine .read (fun _ _ => rfl) fun s => .bind (silently (blind_follow _)) fun tail => ?_
  refine .bind (blind_sendHttpRequestForSubsegment _ _ _) fun _ => .ite (fun _ => ?_) fun _ => ?_
  · exact .bind (blind_returnDownloadingForRecoveredConn _ _ _) fun _ => blind_checkingLastSegment
  · refine .bind (blind_sendHttpRequestForSubsegment _ _ _) fun sent => ?_
    refine .bind (.whenever fun _ => ?_) fun _ => blind_checkingLastSegment
    exact blind_returnDownloadingForIdleConn _ _

lemma blind_joinSetupThread (i : Link) (connects : Bool) (reply : List UInt8) :
    Blind putHidden silent (joinSetupThread i connects reply) := by
  refine .bind (silently (blind_connAt _)) fun _ => ?_
  refine .bind (.whenever fun _ => blind_setupRequest _ _) fun _ => ?_
  refine .bind (silently (blind_connAt _)) fun _ => ?_
  exact .whenever fun _ => blind_setupResponse _ _

lemma blind_createSetupThread (i : Link) (created : Bool) :
    Blind putHidden silent (createSetupThread i created) := by
  refine .bind (blind_modifyConn fun _ => ⟨rfl, rfl⟩) fun _ => ?_
  exact .ite (fun _ => blind_modifyConn fun _ => ⟨rfl, rfl⟩) fun _ => blind_ready _

lemma blind_connCheck (x : CheckInputs) : Blind putHidden silent (connCheck x) := by
  refine .read (fun _ _ => rfl) fun s => .bind (.each fun i => ?_) fun _ => ?_
  · refine .bind (silently (blind_connAt _)) fun c => .whenever fun _ => .ite (fun _ => ?_) fun _ => ?_
    · refine .whenever fun _ => .bind (blind_joinSetupThread _ _ _) fun _ => ?_
      exact blind_modifyConn fun _ => ⟨rfl, rfl⟩
    · exact .bind (blind_joinSetupThread _ _ _) fun _ => blind_createSetupThread _ _
  · exact .read (fun _ _ => rfl) fun s => .whenever fun _ => blind_ready _

/-! ### Measuring -/

/-- The video and the options are the same, and events may have been added. -/
structure SameVideo (s t : Session) : Prop where
  conf : t.conf = s.conf
  size : t.size = s.size
  rate : t.qosBytesPerSecond = s.qosBytesPerSecond
  exact : t.exact = s.exact
  trace : s.trace <:+ t.trace

/-- Steps within one video. -/
def video : Frame Fault Session where
  rel := SameVideo
  fault _ _ := True
  refl _ := ⟨rfl, rfl, rfl, rfl, List.suffix_refl _⟩
  trans h h' := ⟨h'.conf.trans h.conf, h'.size.trans h.size, h'.rate.trans h.rate,
    h'.exact.trans h.exact, h.trace.trans h'.trace⟩

lemma onVideo {α η : Type} {put : Session → η → Session} {y : Program α} (h : Blind put silent y) :
    Blind put video y :=
  h.mono (fun _ _ ⟨hm, _⟩ => ⟨hm.conf, hm.size, hm.rate, hm.exact, hm.trace.imp fun _ he => he.1.symm⟩)
    fun _ _ _ => trivial

lemma video_logEvent (f : Gb → Event) : Blind putHidden video (logEvent f) :=
  .modify (fun _ _ => rfl) fun _ => ⟨rfl, rfl, rfl, rfl, List.suffix_cons _ _⟩

lemma video_gbUpdateGoodput (elapsed : Link → ℚ) : Blind putHidden video (gbUpdateGoodput elapsed) := by
  refine .bind (.modify (fun _ _ => rfl) fun _ => ⟨rfl, rfl, rfl, rfl, List.suffix_refl _⟩) fun _ => ?_
  refine .bind (onVideo (silently blind_getFastConnIndex)) fun fast => ?_
  exact .modify (fun _ _ => rfl) fun _ => ⟨rfl, rfl, rfl, rfl, List.suffix_refl _⟩

lemma video_gbDetermineNextSegmentSize (i : Link) :
    Blind putHidden video (gbDetermineNextSegmentSize i) :=
  .bind (video_logEvent _) fun _ => onVideo (silently_of_growing blind_wantedSegment)

lemma video_writeReceivedData (i : Link) (n : ℤ) (written : Bool) :
    Blind putHidden video (writeReceivedData i n written) := by
  refine .bind (onVideo (silently (blind_connAt i))) fun c => .ite (fun _ => ?_) fun _ => ?_
  · refine .bind (video_logEvent _) fun _ => ?_
    refine .bind (.modify (fun _ _ => rfl) fun _ => ⟨rfl, rfl, rfl, rfl, List.suffix_refl _⟩) fun _ => ?_
    exact .modify (fun _ _ => rfl) fun _ => ⟨rfl, rfl, rfl, rfl, List.suffix_refl _⟩
  · refine .bind (video_logEvent _) fun _ => ?_
    exact .modify (fun _ _ => rfl) fun _ => ⟨rfl, rfl, rfl, rfl, List.suffix_refl _⟩

end

end GreenBag
