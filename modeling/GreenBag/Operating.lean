import GreenBag.Listing
import GreenBag.Deciding
import GreenBag.Recovering

/-! Every step of a session changes the segment list by the operations on it. -/

namespace GreenBag

open Programs Ranges Machines Relation Schedules

/-- The trace got longer, and where the calls in it are sound, the list changed by its operations. -/
structure Operated (s t : Session) : Prop where
  trace : s.trace <:+ t.trace
  run : t.All Event.Sound → ∀ put, ∃ put', ListRun (s.offsetInfo, put) (t.offsetInfo, put')

section

variable {s t u : Session}

namespace Operated

lemma refl (s : Session) : Operated s s := ⟨List.suffix_refl _, fun _ put => ⟨put, .refl⟩⟩

lemma trans (h : Operated s t) (h' : Operated t u) : Operated s u := by
  refine ⟨h.trace.trans h'.trace, fun hu put => ?_⟩
  have ht : t.All Event.Sound := fun e he => hu e (h'.trace.subset he)
  obtain ⟨put', h₁⟩ := h.run ht put
  obtain ⟨put'', h₂⟩ := h'.run hu put'
  exact ⟨put'', h₁.trans h₂⟩

lemma same (ht : s.trace <:+ t.trace) (ho : t.offsetInfo = s.offsetInfo) : Operated s t :=
  ⟨ht, fun _ put => ⟨put, ho ▸ .refl⟩⟩

lemma step (ht : t.trace = s.trace) (hs : ∀ put, ∃ put', ListStep (s.offsetInfo, put) (t.offsetInfo, put')) :
    Operated s t := by
  refine ⟨ht ▸ List.suffix_refl _, fun _ put => ?_⟩
  obtain ⟨put', h⟩ := hs put
  exact ⟨put', .single h⟩

end Operated

lemma SilentlyLonger.suffix (h : SilentlyLonger s t) : s.trace <:+ t.trace := by
  obtain ⟨es, he, -⟩ := h
  exact ⟨es, he.symm⟩

end

/-- Steps that operate on the list. -/
def listing : Frame Fault Session where
  rel := Operated
  fault _ _ := True
  refl := .refl
  trans := .trans

section

variable {α : Type} {x : Program α} {i : Link} {s : Session}

lemma listed (h : Keeps looking x) : Keeps listing x :=
  h.mono (fun _ _ ht => .same ht.trace.suffix ht.offsetInfo) fun _ _ _ => trivial

lemma listed_blind {η : Type} {put : Session → η → Session} (h : Blind put looking x) : Keeps listing x :=
  listed h.keeps

lemma listed_deciding (h : Keeps deciding x) : Keeps listing x :=
  h.mono (fun _ _ ht => .same ht.trace.suffix ht.offsetInfo) fun _ _ _ => trivial

/-! ### Steps -/

lemma allowed (e : Fault) (s : Session) : listing.fault e s := trivial

lemma lists_modify {f : Session → Session} (ht : ∀ s, (f s).trace = s.trace)
    (ho : ∀ s, (f s).offsetInfo = s.offsetInfo) : Keeps listing (modify f) :=
  .modify fun s => .same (ht s ▸ List.suffix_refl _) (ho s)

lemma lists_modifyConn (f : Conn → Conn) : Keeps listing (modifyConn i f) :=
  lists_modify (fun _ => rfl) fun _ => rfl

lemma lists_logEvent (f : Gb → Event) : Keeps listing (logEvent f) :=
  .modify fun _ => .same (List.suffix_cons _ _) rfl

lemma lists_modifyOffsetInfo {f : OffsetInfo → OffsetInfo} (hf : ∀ o : OffsetInfo, o.SameList (f o)) :
    Keeps listing (modifyOffsetInfo f) :=
  .modify fun s => .step rfl fun put => ⟨put, .keep put (hf s.offsetInfo)⟩

lemma lists_modifySegment {id : ℕ} {h : Segment → Segment}
    (hh : h = fun g => { g with subsegment := (h g).subsegment }) :
    Keeps listing (modifyOffsetInfo (·.modifySegment id h)) := by
  rw [hh]
  exact .modify fun _ => .step rfl fun put => ⟨put, .setSubsegments _ put id _⟩

lemma lists_deleteFinishedHeadSegment :
    Keeps listing (modifyOffsetInfo fun o => o.deleteFinishedHeadSegment.getD o) := by
  refine .modify fun s => .step rfl fun put => ⟨put, ?_⟩
  show ListStep _ (s.offsetInfo.deleteFinishedHeadSegment.getD s.offsetInfo, put)
  cases hd : s.offsetInfo.deleteFinishedHeadSegment with
  | none => exact .keep put ⟨rfl, rfl, rfl, rfl, rfl, rfl⟩
  | some o' => exact .deleteFinishedHeadSegment put hd

lemma run_deleteFinishedHeadSegments (n : ℕ) (o : OffsetInfo) (put : List Chunk) :
    ListRun (o, put) (o.deleteFinishedHeadSegments n, put) := by
  induction n generalizing o with
  | zero => exact .refl
  | succ n ih =>
    rw [OffsetInfo.deleteFinishedHeadSegments]
    cases hd : o.deleteFinishedHeadSegment with
    | none => exact .refl
    | some o' => exact .head (.deleteFinishedHeadSegment put hd) (ih o')

lemma lists_deleteFinishedHeadSegments :
    Keeps listing (modifyOffsetInfo fun o => o.deleteFinishedHeadSegments o.segments.length) :=
  .modify fun _ => ⟨List.suffix_refl _, fun _ put => ⟨put, run_deleteFinishedHeadSegments _ _ put⟩⟩

lemma lists_addNewSegment {cs : List Chunk} (h : NewChunks cs) (recovery : Bool) (size : ℤ) :
    Keeps listing (addNewSegment recovery cs size) := by
  intro s
  have hgrow := (wp_iff _).mp ((blind_addNewSegment recovery cs size).keeps s)
  have hsame : wp (addNewSegment recovery cs size) (fun _ _ => True) (fun _ t => t = s) s := by
    simp only [addNewSegment, wp_bind, wp_get, wp_ite, wp_follow, wp_demand, wp_pure,
      wp_modifyOffsetInfo, implies_true, and_self]
  rw [wp_iff]
  refine ⟨fun id t hrun => ⟨(hgrow.1 id t hrun).trace.suffix, fun _ put => ?_⟩, fun e t hrun => ?_⟩
  · exact ⟨put ++ cs, .single (.addNewSegment put h hrun)⟩
  · rw [((wp_iff _).mp hsame).2 e t hrun]
    exact ⟨trivial, .refl s⟩

lemma lists_deleteSubsegment (id : ℕ) (i : Link) : Keeps listing (deleteSubsegment id i) := by
  refine .bind (listed_blind (blind_follow _)) fun _ => ?_
  exact .bind (.demand (allowed _) _) fun _ => lists_modifySegment rfl

lemma lists_updateInorderOffset (held : List Chunk) : Keeps listing (updateInorderOffset held) := by
  refine .bind (.modify fun s => .step rfl fun put => ⟨put, .keep put ⟨rfl, rfl, rfl, rfl, rfl, rfl⟩⟩)
    fun _ => ?_
  refine .bind (listed_blind blind_findInorderOffset) fun found => .bind (lists_logEvent _) fun _ => ?_
  refine .bind .get fun s => .bind (.ensure (allowed _)) fun _ => ?_
  exact lists_modify (fun _ => rfl) fun _ => rfl

lemma lists_addNewSubsegment (i : Link) (r q : ℤ) (fixed : Bool) :
    Keeps listing (addNewSubsegment i r q fixed) := by
  refine .bind (listed_blind blind_getFastConnIndex) fun fast => .bind .get fun s => ?_
  refine .bind (listed_blind (blind_follow _)) fun g => .bind (.ensure (allowed _)) fun _ => ?_
  refine .bind (listed_blind (blind_subsegSize _ _ _ _ _)) fun share => ?_
  refine .bind (.ensure (allowed _)) fun _ => .bind (.ensure (allowed _)) fun _ => ?_
  exact lists_modifySegment rfl

lemma lists_gbUpdateGoodput (elapsed : Link → ℚ) : Keeps listing (gbUpdateGoodput elapsed) := by
  refine .bind (lists_modify (fun _ => rfl) fun _ => rfl) fun _ => ?_
  refine .bind (listed_blind blind_getFastConnIndex) fun fast => ?_
  exact lists_modifyOffsetInfo fun _ => ⟨rfl, rfl, rfl, rfl, rfl, rfl⟩

lemma lists_gbDetermineNextSegmentPolicy (held : List Chunk) :
    Keeps listing (gbDetermineNextSegmentPolicy held) := by
  refine .bind (listed_blind (blind_connAt _)) fun _ => .bind (listed_blind (blind_connAt _)) fun _ => ?_
  refine .bind (lists_updateInorderOffset held) fun _ => ?_
  exact .bind .get fun _ => .pure _

lemma lists_gbDetermineNextSubsegment (i : Link) (mode : LinkMode) :
    Keeps listing (gbDetermineNextSubsegment i mode) := by
  refine .bind (lists_logEvent _) fun _ => .bind .get fun s => ?_
  cases mode with
  | single j => exact lists_addNewSubsegment _ _ _ _
  | dual =>
    refine .ite (fun _ => lists_addNewSubsegment _ _ _ _) fun _ => ?_
    refine .bind (listed_blind (blind_connAt _)) fun _ => ?_
    exact .bind (listed_blind (blind_connAt _)) fun _ => lists_addNewSubsegment _ _ _ _

lemma lists_gatherChunks (o : Link) (n : ℕ) (pointer : Option ℕ) (cs : List Chunk) :
    Keeps listing (gatherChunks o n pointer cs) := by
  induction n generalizing pointer cs with
  | zero =>
    cases pointer with
    | none => exact .pure _
    | some id => exact .throw (allowed _)
  | succ n ih =>
    cases pointer with
    | none => exact .pure _
    | some id =>
      refine .bind (listed_blind (blind_follow _)) fun g => .bind (.demand (allowed _) _) fun p => ?_
      refine .bind (lists_deleteSubsegment _ _) fun _ => .bind .get fun s => ?_
      exact .bind lists_deleteFinishedHeadSegment fun _ => ih _ _

lemma lists_detachChunks (o : Link) : Keeps listing (detachChunks o) := by
  refine .bind .get fun s => .bind (listed_blind (blind_follow _)) fun g => ?_
  refine .bind (.demand (allowed _) _) fun p => .bind (.demand (allowed _) _) fun head => ?_
  refine .bind (lists_deleteSubsegment _ _) fun _ => .bind .get fun s' => ?_
  exact .bind lists_deleteFinishedHeadSegment fun _ => lists_gatherChunks _ _ _ _

/-! ### Adding a segment -/

/-- What a session has planned and the next bytes of the file make a segment. -/
lemma NewChunks.fresh {s : Gb} {held : List Chunk} {n : ℤ} (hf : 0 ≤ s.offsetInfo.lastSegOffset)
    (hn : 0 ≤ n) (hne : held ++ freshChunks s.frontier n ≠ []) (hin : ∀ c ∈ held, c.Inside s.frontier)
    (hc : ∀ b, cover ((held ++ freshChunks s.frontier n).map Chunk.range) b ≤ 1) :
    NewChunks (held ++ freshChunks s.frontier n) := by
  have hv : ∀ c ∈ held ++ freshChunks s.frontier n, c.Valid ∧ 0 ≤ c.startByte := by
    intro c hc
    rcases List.mem_append.mp hc with hm | hm
    · exact ⟨(hin c hm).1, (hin c hm).2.1⟩
    · have hi := freshChunks_inside (by simp only [Gb.frontier]; omega) hn c hm
      exact ⟨hi.1, hi.2.1⟩
  refine ⟨hne, hv, ?_⟩
  refine (List.pairwise_map.mp (disjoint_of_cover hc)).imp_of_mem fun {c d} hmc hmd hd => ?_
  have hvc := (hv c hmc).1
  have hvd := (hv d hmd).1
  simp only [Chunk.Valid] at hvc hvd
  by_contra hn
  refine hd (max c.startByte d.startByte) ⟨le_max_left .., ?_⟩ ⟨le_max_right .., ?_⟩
  all_goals
    simp only [Chunk.range]
    omega

lemma lists_logged {e : Gb → Event} (hx : ∀ s : Session,
      wp x (fun _ t => s.trace <:+ t.trace) (fun _ t => s.trace <:+ t.trace) s)
    (h : ∀ s : Session, (e s.toGb).Sound →
      wp x (fun _ t => Operated { s with trace := e s.toGb :: s.trace } t)
        (fun _ t => Operated { s with trace := e s.toGb :: s.trace } t)
        { s with trace := e s.toGb :: s.trace }) :
    Keeps listing (logEvent e >>= fun _ => x) := by
  intro s
  rw [wp_bind, wp_logEvent]
  have hlog : Operated s { s with trace := e s.toGb :: s.trace } := .same (List.suffix_cons _ _) rfl
  by_cases hs : (e s.toGb).Sound
  · exact wp_mono (h s hs) (fun _ _ ht => hlog.trans ht) fun _ _ ht => ⟨trivial, hlog.trans ht⟩
  · have hall : ∀ t : Session, e s.toGb :: s.trace <:+ t.trace → Operated s t := fun t ht =>
      ⟨hlog.trace.trans ht, fun ha => absurd (ha _ (ht.subset List.mem_cons_self)) hs⟩
    exact wp_mono (hx _) (fun _ t ht => hall t ht) fun _ t ht => ⟨trivial, hall t ht⟩

/-- The end of `gb_determine_next_segment_size`, where the size is known and nothing is left over. -/
lemma wp_addSized {u : Session} {n : ℤ} {remaining : List Chunk} (hnone : remaining = [])
    (hf : 0 ≤ u.offsetInfo.lastSegOffset) (hn : 0 ≤ n) (size : ℤ) :
    wp (do
      modifyOffsetInfo fun o => { o with remainingChunks := [] }
      if n ≠ 0 then do
        let start ← getStartByteNextSegment
        let _ ← addNewSegment false (addNewChunk remaining start n) size
        return size
      else do
        whenever (remaining ≠ []) (addNewSegment false remaining size *> pure ())
        return size) (fun _ t => Operated u t) (fun _ t => Operated u t) u := by
  subst hnone
  have hkeep : Operated u { u with offsetInfo := { u.offsetInfo with remainingChunks := [] } } :=
    .step rfl fun put => ⟨put, .keep put ⟨rfl, rfl, rfl, rfl, rfl, rfl⟩⟩
  rw [wp_bind, wp_modifyOffsetInfo, wp_ite]
  refine ⟨fun hne => ?_, fun _ => ?_⟩
  · rw [wp_bind]
    refine wp_getStartByteNextSegment (fun _ => hkeep) ?_
    have hnew : NewChunks (addNewChunk [] u.frontier n) := by
      have hfresh : freshChunks u.frontier n = addNewChunk [] u.frontier n := by
        rw [freshChunks, if_neg hne]
        rfl
      have hcs : NewChunks ([] ++ freshChunks u.frontier n) := by
        refine NewChunks.fresh (s := u.toGb) hf hn (by simp [hfresh, addNewChunk]) (by simp) fun b => ?_
        rw [List.nil_append, cover_freshChunks, cover_singleton]
        split_ifs <;> omega
      rwa [List.nil_append, hfresh] at hcs
    exact (Keeps.bind (lists_addNewSegment hnew false size) fun _ => .pure _).wp
      (fun _ _ ht => hkeep.trans ht) fun _ _ _ ht => hkeep.trans ht
  · simp only [wp_bind, wp_whenever, wp_pure]
    exact ⟨fun hn => absurd rfl hn, fun _ => hkeep⟩

lemma lists_gbDetermineNextSegmentSize (i : Link) : Keeps listing (gbDetermineNextSegmentSize i) := by
  refine lists_logged (fun s => ?_) fun s hs => ?_
  · exact blind_wantedSegment.keeps.wp (fun _ _ ht => ht.trace.suffix) fun _ _ _ ht => ht.trace.suffix
  have hplan : Planning i s.toGb := hs
  have hr : Rep (.reading i) ({ s with trace := .called s.toGb .nextSegmentSize i :: s.trace } :
    Session).toGb := hplan.rep
  generalize ({ s with trace := .called s.toGb .nextSegmentSize i :: s.trace } : Session) = t at hr ⊢
  have hfinish : ∀ (u : Session) wanted, 0 ≤ wanted → Operated t u → u.size = t.size →
      u.offsetInfo = { t.offsetInfo with connIdle := u.offsetInfo.connIdle } →
      wp (do
        let s ← get
        let newSegSize := s.clipSegSize wanted
        let remaining := s.offsetInfo.remainingChunks
        let size := newSegSize + (remaining.map Chunk.size).sum
        modifyOffsetInfo fun o => { o with remainingChunks := [] }
        if newSegSize ≠ 0 then do
          let start ← getStartByteNextSegment
          let _ ← addNewSegment false (addNewChunk remaining start newSegSize) size
          return size
        else do
          whenever (remaining ≠ []) (addNewSegment false remaining size *> pure ())
          return size) (fun _ t' => Operated t t') (fun _ t' => Operated t t') u := by
    intro u wanted hw ht hsize ho
    have hclip : u.clipSegSize wanted = t.clipSegSize wanted := by
      rw [Gb.clipSegSize, Gb.clipSegSize, hsize, ho]
    have hnone : u.offsetInfo.remainingChunks = [] := by
      rw [ho]
      exact hr.remaining
    have hf : 0 ≤ u.offsetInfo.lastSegOffset := by
      rw [ho]
      exact hr.frontier.1
    rw [wp_bind, wp_get]
    exact wp_mono (wp_addSized hnone hf (hclip ▸ (Gb.clipSegSize_fits hr hw).1) _) (fun _ _ h => ht.trans h)
      fun _ _ h => ht.trans h
  have hinit := hr.initSegSize
  rw [wp_bind, wp_get, wp_bind, wp_ite]
  refine ⟨fun hfix => ?_, fun hvar => ?_⟩
  · rw [wp_pure]
    refine hfinish t _ ?_ (.refl t) rfl rfl
    split_ifs
    · exact Int.tdiv_nonneg (by omega) (by omega)
    · omega
  · have hpolicy : wp (gbDetermineNextSegmentPolicy []) (fun wanted u => t.offsetInfo.initSegSize ≤ wanted ∧
        u.size = t.size ∧ u.offsetInfo = { t.offsetInfo with connIdle := u.offsetInfo.connIdle })
        (fun _ _ => True) t :=
      wp_gbDetermineNextSegmentPolicy_found hr [] (fun _ _ _ _ => trivial) fun _ _ hle _ hsize _ ho =>
        ⟨hle, hsize, ho⟩
    refine wp_mono (wp_and hpolicy (lists_gbDetermineNextSegmentPolicy [] t)) ?_ fun _ _ h => h.2.2
    rintro wanted u ⟨⟨hle, hsize, ho⟩, ht⟩
    exact hfinish u wanted (by omega) ht hsize ho

/-- The end of a recovery: the chunks held and the next bytes of the file make a segment. -/
lemma wp_addRobbed {u v : Session} {held : List Chunk} {wanted : ℤ} (hr : Rep (.robbing i held) u.toGb)
    (hne : held ≠ []) (hw : 0 ≤ wanted) (hop : Operated u v) (hsize : v.size = u.size)
    (ho : v.offsetInfo = { u.offsetInfo with connIdle := v.offsetInfo.connIdle }) :
    wp (do
      let s ← get
      let additive := s.clipSegSize wanted
      let chunkList ← (if additive ≠ 0 then do
          let start ← getStartByteNextSegment
          pure (addNewChunk held start additive)
        else pure held)
      let id ← addNewSegment true chunkList (chunkList.map Chunk.size).sum
      modifyOffsetInfo fun o =>
        { o with connection := Function.update o.connection i.other (some id) })
      (fun _ t => Operated u t) (fun _ t => Operated u t) v := by
  have hclip : v.clipSegSize wanted = u.clipSegSize wanted := by
    rw [Gb.clipSegSize, Gb.clipSegSize, hsize, ho]
  have hfront : v.frontier = u.frontier := by
    rw [Gb.frontier, Gb.frontier, ho]
  obtain ⟨h₀, hfit⟩ := Gb.clipSegSize_fits hr hw
  have hnew : NewChunks (held ++ freshChunks u.frontier (u.clipSegSize wanted)) := by
    refine NewChunks.fresh hr.frontier.1 h₀ ?_ hr.held_inside (hr.cover_held_fresh hfit)
    simp [hne]
  have hadd : ∀ cs, cs = held ++ freshChunks u.frontier (u.clipSegSize wanted) →
      wp (addNewSegment true cs (cs.map Chunk.size).sum >>= fun id => modifyOffsetInfo fun o =>
        { o with connection := Function.update o.connection i.other (some id) })
        (fun _ t => Operated u t) (fun _ t => Operated u t) v := by
    rintro _ rfl
    refine (Keeps.bind (lists_addNewSegment hnew true _) fun id => ?_).wp
      (fun _ _ ht => hop.trans ht) fun _ _ _ ht => hop.trans ht
    exact lists_modifyOffsetInfo fun _ => ⟨rfl, rfl, rfl, rfl, rfl, rfl⟩
  rw [wp_bind, wp_get, hclip, wp_bind, wp_ite]
  refine ⟨fun hn => ?_, fun hz => hadd held ?_⟩
  · rw [wp_bind]
    refine wp_getStartByteNextSegment (fun _ => hop) (hadd _ ?_)
    rw [freshChunks, if_neg hn, hfront]
    rfl
  · rw [freshChunks, if_pos (by simpa using hz), List.append_nil]

lemma wp_recover_listed {t : Session} (hplan : Planning i t.toGb) (hparts : t.parts i.other ≠ []) :
    wp (recoverOutorderPortionAndNextSegment i) (fun _ u => Operated (t.halted i.other) u)
      (fun _ u => Operated (t.halted i.other) u) (t.halted i.other) := by
  have hr := hplan.rep
  obtain ⟨d, ds, ps, hcur⟩ := hr.cursor hparts
  simp only [recoverOutorderPortionAndNextSegment]
  rw [wp_bind]
  refine wp_mono (wp_and (wp_detachChunks (s := t.halted i.other) hr.linked hcur.halted
    (hr.pointer i.other rfl)) (lists_detachChunks i.other _)) ?_ fun _ _ h => h.1.elim
  rintro held u ⟨⟨hheld, q, rfl, hq, hnil⟩, hop⟩
  have hmiss : ((t.halted i.other).conn i.other).missingOf d = (t.conn i.other).missingOf d := by
    rw [halted_conn]
    rfl
  rw [hmiss] at hheld
  have hrob := hheld ▸ hr.robbed hcur hq hnil
  have hne : held ≠ [] := by
    rw [hheld]
    exact List.cons_ne_nil _ _
  generalize ({ t.halted i.other with offsetInfo := q } : Session) = u at hop hrob ⊢
  have hinit := hrob.initSegSize
  rw [wp_bind, wp_get, wp_bind, wp_ite]
  have hall : ∀ v : Session, Operated u v → Operated (t.halted i.other) v := fun _ h => hop.trans h
  refine ⟨fun _ => ?_, fun _ => ?_⟩
  · rw [wp_pure]
    exact wp_mono (wp_addRobbed hrob hne (by omega) (.refl u) rfl rfl) (fun _ v h => hall v h)
      fun _ v h => hall v h
  · have hpolicy : wp (gbDetermineNextSegmentPolicy held) (fun wanted v => u.offsetInfo.initSegSize ≤ wanted ∧
        v.size = u.size ∧ v.offsetInfo = { u.offsetInfo with connIdle := v.offsetInfo.connIdle })
        (fun _ _ => True) u :=
      wp_gbDetermineNextSegmentPolicy_found hrob held (fun _ _ _ _ => trivial) fun _ _ hle _ hsize _ ho =>
        ⟨hle, hsize, ho⟩
    refine wp_mono (wp_and hpolicy (lists_gbDetermineNextSegmentPolicy held u)) ?_ fun _ v h => hall v h.2.2
    rintro wanted v ⟨⟨hle, hsize, ho⟩, hv⟩
    exact wp_mono (wp_addRobbed hrob hne (by omega) hv hsize ho) (fun _ v h => hall v h)
      fun _ v h => hall v h

lemma lists_performRecovery (i : Link) (x : Inputs) : Keeps listing (performRecovery i x) := by
  refine .bind .get fun s => .ite (fun _ => ?_) fun _ => .pure _
  refine .bind (listed (blind_decideRecoveryMode i x).keeps) fun recover => .ite (fun _ => ?_) fun _ => .pure _
  have hsteal : Keeps listing (logEvent (.stolen · i.other) >>= fun _ =>
      modifyConn i.other (fun c => { c with enabled := false }) >>= fun _ =>
        connDisconnect i.other >>= fun _ => recoverOutorderPortionAndNextSegment i) := by
    refine lists_logged (fun s => ?_) fun s hs => ?_
    · have hb : Blind putHidden silent (modifyConn i.other (fun c => { c with enabled := false }) >>=
          fun _ => connDisconnect i.other >>= fun _ => recoverOutorderPortionAndNextSegment i) := by
        refine .bind (blind_modifyConn fun _ => ⟨rfl, rfl⟩) fun _ => ?_
        exact .bind (blind_connDisconnect _) fun _ => blind_recoverOutorderPortionAndNextSegment i
      exact hb.keeps.wp (fun _ _ ht => ht.trace.suffix) fun _ _ _ ht => ht.trace.suffix
    · obtain ⟨hplan, hparts⟩ : Planning i.other.other s.toGb ∧ s.parts i.other ≠ [] := hs
      rw [Link.other_other] at hplan
      have hhalt : ({ s with
          trace := .stolen s.toGb i.other :: s.trace
          conn := Function.update (Function.update s.conn i.other
            { s.conn i.other with enabled := false }) i.other
            { Function.update s.conn i.other { s.conn i.other with enabled := false } i.other with
              fd := .closed, outstanding := [], response := none } } : Session) = s.halted i.other := by
        simp [Session.halted]
      have hop : Operated { s with trace := .stolen s.toGb i.other :: s.trace } (s.halted i.other) :=
        .same (List.suffix_refl _) rfl
      simp only [wp_bind, wp_modifyConn, connDisconnect, hhalt]
      exact wp_mono (wp_recover_listed hplan hparts) (fun _ _ h => hop.trans h) fun _ _ h => hop.trans h
  have hrest : Keeps listing (gbDetermineNextSubsegment i .dual >>= fun _ =>
      modify (fun s : Session => { s with numRecoveries := s.numRecoveries + 1 }) >>= fun _ =>
        (pure true : Program Bool)) :=
    .bind (lists_gbDetermineNextSubsegment _ _) fun _ =>
      .bind (lists_modify (fun _ => rfl) fun _ => rfl) fun _ => .pure _
  have h := Keeps.bind hsteal fun _ => hrest
  simpa only [bind_assoc] using h

/-! ### Planning -/

lemma lists_chooseLinkMode (i : Link) (x : Inputs) : Keeps listing (chooseLinkMode i x) := by
  refine .bind (listed_blind blind_getRemainingFileSize) fun size => .bind .get fun s => ?_
  refine .ite (fun _ => .pure _) fun _ => .bind (listed (blind_getPlayerState _).keeps) fun player => ?_
  refine .bind .get fun s => ?_
  have hlast : ∀ y : Program Unit, Keeps listing y → Keeps listing (do
      y
      let s ← get
      modifyOffsetInfo fun o => { o with singleLinkModeFlag := s.statics.currentLinkMode ≠ .dual }
      return s.statics.currentLinkMode) := by
    refine fun y hy => .bind hy fun _ => .bind .get fun s => .bind ?_ fun _ => .pure _
    exact lists_modifyOffsetInfo fun _ => ⟨rfl, rfl, rfl, rfl, rfl, rfl⟩
  refine .ite (fun _ => ?_) fun _ => hlast _ (listed (blind_modifyStatics _).keeps)
  cases s.statics.currentLinkMode with
  | dual => exact hlast _ (listed_deciding (keeps_reconsiderDualMode _ _ _))
  | single j => exact hlast _ (listed_deciding (keeps_reconsiderSingleMode _ _ _))

lemma lists_setupFreshSegment (i : Link) (x : Inputs) : Keeps listing (setupFreshSegment i x) := by
  refine .bind (lists_gbUpdateGoodput _) fun _ => ?_
  refine .bind (lists_gbDetermineNextSegmentSize i) fun size => .ite (fun _ => .pure _) fun _ => ?_
  refine .bind .get fun s => .bind (.ite (fun _ => lists_chooseLinkMode i x) fun _ => .pure _) fun mode => ?_
  exact .bind (lists_gbDetermineNextSubsegment _ _) fun _ => .pure _

lemma lists_gbSetupNextSegment (i : Link) (x : Inputs) : Keeps listing (gbSetupNextSegment i x) := by
  refine .bind .get fun s => .bind (listed_blind (blind_connAt _)) fun c => ?_
  refine .ite (fun _ => .pure _) fun _ => ?_
  cases s.offsetInfo.getConnOrderCase i with
  | behind =>
    refine .ite (fun _ => ?_) fun _ => lists_setupFreshSegment i x
    exact .bind (lists_modifyOffsetInfo fun _ => ⟨rfl, rfl, rfl, rfl, rfl, rfl⟩) fun _ => .pure _
  | ahead =>
    refine .bind (lists_gbUpdateGoodput _) fun _ => .bind (lists_performRecovery i x) fun recovered => ?_
    refine .ite (fun _ => .pure _) fun _ => .bind .get fun s => ?_
    refine .bind (listed_blind (blind_follow _)) fun tail => .bind (.ensure (allowed _)) fun _ => ?_
    exact .ite (fun _ => .pure _) fun _ => lists_setupFreshSegment i x
  | oneSeg =>
    refine .bind (lists_gbUpdateGoodput _) fun _ => .bind (listed_blind (blind_connAt _)) fun d => ?_
    refine .bind (.ite (fun _ => lists_performRecovery i x) fun _ => .pure _) fun recovered => ?_
    exact .ite (fun _ => .pure _) fun _ => lists_setupFreshSegment i x

/-! ### Connections -/

lemma lists_connDisconnect (i : Link) : Keeps listing (connDisconnect i) := lists_modifyConn _

lemma lists_connInit (i : Link) (connects : Bool) : Keeps listing (connInit i connects) := by
  refine .ite (fun _ => ?_) fun _ => .bind (lists_connDisconnect i) fun _ => .pure _
  exact .bind (lists_modifyConn _) fun _ => .pure _

lemma lists_sendGet (site : Site) (i : Link) (first last : ℤ) : Keeps listing (sendGet site i first last) :=
  .bind (lists_logEvent _) fun _ => .bind .get fun _ => lists_modifyConn _

lemma lists_gbGetRequests (i : Link) (cs : List Chunk) : Keeps listing (gbGetRequests i cs) := by
  induction cs with
  | nil => exact .pure _
  | cons c cs ih => exact .bind (lists_sendGet _ _ _ _) fun _ => ih

lemma lists_sendHttpRequestForSubsegment (i : Link) (p : Option Subsegment) (connects : Bool) :
    Keeps listing (sendHttpRequestForSubsegment i p connects) := by
  cases p with
  | none => exact .pure _
  | some p =>
    refine .bind (listed_blind (blind_connAt _)) fun c => ?_
    refine .bind (.whenever fun _ => .bind (lists_connInit _ _) fun _ => .ensure (allowed _)) fun _ => ?_
    exact .bind (lists_gbGetRequests _ _) fun _ => .bind (lists_modifyConn _) fun _ => .pure _

lemma lists_gbReceiveHttpHeaderResponse (site : Site) (i : Link) (reply : List UInt8) :
    Keeps listing (gbReceiveHttpHeaderResponse site i reply) := by
  refine .bind (lists_logEvent _) fun _ => ?_
  cases readHeaderBlock 0 [] reply with
  | none => exact .pure _
  | some headers => exact .bind (lists_modifyConn _) fun _ => .pure _

lemma lists_httpExec (i : Link) (reply : List UInt8) : Keeps listing (httpExec i reply) := by
  refine .bind .get fun s => .bind (lists_logEvent _) fun _ => ?_
  generalize readHeaderBlock 0 [] _ = headers
  cases headers with
  | none => exact .pure _
  | some headers => exact .bind (lists_modifyConn _) fun _ => .bind (.ensure (allowed _)) fun _ => .pure _

lemma lists_setupRequest (i : Link) (connects : Bool) : Keeps listing (setupRequest i connects) := by
  refine .bind ?_ fun _ => .ite (fun _ => lists_modifyConn _) fun _ => ?_
  · refine .bind (listed_blind (blind_connAt _)) fun c => ?_
    refine .bind (.ite (fun _ => .pure _) fun _ => lists_connInit _ _) fun _ => ?_
    exact .bind (.whenever fun _ => lists_sendGet _ _ _ _) fun _ => .pure _
  · exact .bind (lists_connDisconnect _) fun _ => lists_modifyConn _

lemma lists_setupResponse (i : Link) (reply : List UInt8) : Keeps listing (setupResponse i reply) := by
  refine .bind ?_ fun _ => .ite (fun _ => lists_modifyConn _) fun _ => ?_
  · exact .bind (lists_httpExec _ _) fun _ => .bind .get fun _ => .pure _
  · exact .bind (lists_connDisconnect _) fun _ => lists_modifyConn _

/-! ### Handling -/

lemma lists_exceptionForRead (i : Link) (closed : Bool) : Keeps listing (exceptionForRead i closed) := by
  refine .bind (listed_blind (blind_connAt _)) fun _ => ?_
  refine .bind (.whenever fun _ => lists_modify (fun _ => rfl) fun _ => rfl) fun _ => ?_
  exact .bind (lists_modifyConn _) fun _ => lists_connDisconnect _

lemma lists_writeReceivedData (i : Link) (n : ℤ) (written : Bool) :
    Keeps listing (writeReceivedData i n written) := by
  refine .bind (listed_blind (blind_connAt _)) fun c => .ite (fun _ => ?_) fun _ => ?_
  · refine .bind (lists_logEvent _) fun _ => ?_
    exact .bind (lists_modify (fun _ => rfl) fun _ => rfl) fun _ => lists_modifyConn _
  · exact .bind (lists_logEvent _) fun _ => lists_modify (fun _ => rfl) fun _ => rfl

lemma lists_checkingLastSubseg (i : Link) : Keeps listing (checkingLastSubseg i) := by
  refine .bind .get fun s => .bind (listed_blind (blind_follow _)) fun g => ?_
  refine .bind (.demand (allowed _) _) fun p => .bind (.demand (allowed _) _) fun last => ?_
  exact .whenever fun _ => lists_modifyConn _

lemma lists_checkingLastSegment : Keeps listing checkingLastSegment := by
  refine .bind .get fun s => .each fun i => .bind .get fun s => ?_
  generalize (s.offsetInfo.connection i).bind _ = next
  cases next with
  | none => exact .pure _
  | some id =>
    refine .bind (listed_blind (blind_follow _)) fun g => .bind (.demand (allowed _) _) fun last => ?_
    exact .whenever fun _ => lists_modifyConn _

lemma lists_point (i : Link) (pointer : Option ℕ) : Keeps listing (modifyOffsetInfo fun o =>
    { o with connection := Function.update o.connection i pointer }) :=
  lists_modifyOffsetInfo fun _ => ⟨rfl, rfl, rfl, rfl, rfl, rfl⟩

lemma lists_moveTo (i : Link) (id : ℕ) : Keeps listing (moveTo i id) := by
  refine .bind (listed_blind (blind_follow _)) fun g => .bind (.demand (allowed _) _) fun p => ?_
  refine .bind (lists_point _ _) fun _ => .bind (.demand (allowed _) _) fun c => ?_
  exact .bind (lists_modifyConn _) fun _ => lists_checkingLastSubseg _

lemma lists_returnDownloadingForIdleConn (i : Link) (reply : List UInt8) :
    Keeps listing (returnDownloadingForIdleConn i reply) := by
  refine .bind .get fun s => .whenever fun _ => ?_
  refine .bind (listed_blind (blind_follow _)) fun tail => .bind (lists_moveTo _ _) fun _ => ?_
  refine .bind (lists_gbReceiveHttpHeaderResponse _ _ _) fun received => .whenever fun _ => ?_
  refine .bind (lists_modifyConn _) fun _ => ?_
  exact lists_modifyOffsetInfo fun _ => ⟨rfl, rfl, rfl, rfl, rfl, rfl⟩

lemma lists_returnDownloadingForRecoveredConn (i : Link) (connects : Bool) (reply : List UInt8) :
    Keeps listing (returnDownloadingForRecoveredConn i connects reply) := by
  refine .bind .get fun s => .bind (listed_blind (blind_follow _)) fun tail => ?_
  cases tail.subsegment i with
  | none => exact .bind (lists_point _ _) fun _ => lists_modifyConn _
  | some p =>
    refine .bind (lists_connInit _ _) fun _ => .bind (.ensure (allowed _)) fun _ => ?_
    refine .bind (lists_moveTo _ _) fun _ => ?_
    refine .bind (lists_sendHttpRequestForSubsegment _ _ _) fun _ => ?_
    refine .bind (lists_gbReceiveHttpHeaderResponse _ _ _) fun _ => ?_
    exact .whenever fun _ => lists_modifyConn _

lemma lists_planAhead (i : Link) (x : Inputs) : Keeps listing (planAhead i x) := by
  refine .bind (lists_gbSetupNextSegment i x) fun planned => .whenever fun _ => .bind .get fun s => ?_
  refine .bind (listed_blind (blind_follow _)) fun tail => ?_
  refine .bind (lists_sendHttpRequestForSubsegment _ _ _) fun _ => .ite (fun _ => ?_) fun _ => ?_
  · exact .bind (lists_returnDownloadingForRecoveredConn _ _ _) fun _ => lists_checkingLastSegment
  · refine .bind (lists_sendHttpRequestForSubsegment _ _ _) fun sent => ?_
    refine .bind (.whenever fun _ => ?_) fun _ => lists_checkingLastSegment
    exact lists_returnDownloadingForIdleConn _ _

lemma lists_finishLastChunkOfSubseg (i : Link) (reply : List UInt8) :
    Keeps listing (finishLastChunkOfSubseg i reply) := by
  refine .bind .get fun s => .bind (listed_blind (blind_follow _)) fun g => ?_
  refine .bind (.demand (allowed _) _) fun p => .bind (.ensure (allowed _)) fun _ => ?_
  refine .bind (lists_modifySegment rfl) fun _ => ?_
  cases p.chunkList.tail with
  | nil => exact .pure _
  | cons c cs =>
    refine .bind (lists_modifyConn _) fun _ => ?_
    refine .bind (lists_gbReceiveHttpHeaderResponse _ _ _) fun _ => ?_
    exact .bind (.whenever fun _ => lists_modifyConn _) fun _ => .pure _

lemma lists_finishDownloadingSubseg (i : Link) (reply : List UInt8) :
    Keeps listing (finishDownloadingSubseg i reply) := by
  refine .bind .get fun s => .bind (listed_blind (blind_connAt _)) fun c => .ite (fun _ => ?_) fun _ => ?_
  · refine .bind (lists_gbReceiveHttpHeaderResponse _ _ _) fun _ => ?_
    refine .bind (.whenever fun _ => lists_modifyConn _) fun _ => ?_
    refine .bind (listed_blind (blind_follow _)) fun g => .bind (.demand (allowed _) _) fun next => ?_
    refine .bind (lists_moveTo _ _) fun _ => .bind (.whenever fun _ => lists_modifyConn _) fun _ => ?_
    exact lists_deleteFinishedHeadSegments
  · refine .bind (listed_blind (blind_closesFinished _)) fun closes => .bind (lists_point _ _) fun _ => ?_
    refine .bind (.whenever fun _ => lists_connDisconnect _) fun _ => ?_
    exact lists_deleteFinishedHeadSegments

lemma lists_finishChunk (i : Link) (x : Inputs) : Keeps listing (finishChunk i x) := by
  refine .bind (lists_modifyConn _) fun _ => ?_
  refine .bind (lists_finishLastChunkOfSubseg _ _) fun finished => .whenever fun _ => ?_
  refine .bind .get fun s => .bind (listed_blind (blind_follow _)) fun g => ?_
  refine .bind (lists_deleteSubsegment _ _) fun _ => ?_
  exact .bind (lists_finishDownloadingSubseg _ _) fun _ => lists_updateInorderOffset _

lemma lists_handleBytes (i : Link) (n : ℤ) (written : Bool) (x : Inputs) :
    Keeps listing (handleBytes i n written x) := by
  refine .bind (listed_blind (blind_connAt _)) fun c => .bind (lists_modifyConn _) fun _ => ?_
  refine .bind (lists_writeReceivedData _ _ _) fun _ => .bind .get fun s => ?_
  refine .bind (listed_blind (blind_follow _)) fun g => .bind (.demand (allowed _) _) fun p => ?_
  refine .bind (.whenever fun _ => lists_planAhead i x) fun _ => ?_
  exact .ite (fun _ => lists_finishChunk i x) fun _ => lists_updateInorderOffset _

lemma lists_handle (i : Link) (x : Inputs) (r : Received) : Keeps listing (handle i x r) := by
  cases r with
  | error => exact lists_exceptionForRead i false
  | closed => exact lists_exceptionForRead i true
  | bytes n written => exact lists_handleBytes i n written x

lemma lists_joinSetupThread (i : Link) (connects : Bool) (reply : List UInt8) :
    Keeps listing (joinSetupThread i connects reply) := by
  refine .bind (listed_blind (blind_connAt _)) fun _ => ?_
  refine .bind (.whenever fun _ => lists_setupRequest _ _) fun _ => ?_
  refine .bind (listed_blind (blind_connAt _)) fun _ => ?_
  exact .whenever fun _ => lists_setupResponse _ _

lemma lists_createSetupThread (i : Link) (created : Bool) : Keeps listing (createSetupThread i created) := by
  refine .bind (lists_modifyConn _) fun _ => .ite (fun _ => lists_modifyConn _) fun _ => ?_
  exact lists_modify (fun _ => rfl) fun _ => rfl

lemma lists_checkConn (x : CheckInputs) (i : Link) : Keeps listing (checkConn x i) := by
  refine .bind (listed_blind (blind_connAt _)) fun c => .whenever fun _ => .ite (fun _ => ?_) fun _ => ?_
  · refine .whenever fun _ => .bind (lists_joinSetupThread _ _ _) fun _ => lists_modifyConn _
  · exact .bind (lists_joinSetupThread _ _ _) fun _ => lists_createSetupThread _ _

lemma lists_exec (l : Label) : Keeps listing (session.exec l) := by
  cases l with
  | read i r x => exact lists_handle i x r
  | check x =>
    refine .bind .get fun s => .bind (.each fun i => lists_checkConn x i) fun _ => .bind .get fun s => ?_
    exact .whenever fun _ => lists_modify (fun _ => rfl) fun _ => rfl
  | setupRequest i connects => exact lists_setupRequest i connects
  | setupResponse i reply => exact lists_setupResponse i reply
  | announce => exact listed_blind blind_updateLastDownloadedByte
  | selectFailed => exact lists_modify (fun _ => rfl) fun _ => rfl
  | stop => exact lists_modify (fun _ => rfl) fun _ => rfl

/-! ### The start -/

lemma lists_initConn (i : Link) : Keeps listing (initConn i) := by
  refine .bind .get fun s => .bind (.demand (allowed _) _) fun head => ?_
  refine .bind (.demand (allowed _) _) fun last => .bind (.whenever fun _ => lists_modifyConn _) fun _ => ?_
  cases head.subsegment i with
  | none => exact lists_modifyConn _
  | some p =>
    exact .bind (lists_point _ _) fun _ => .bind (.demand (allowed _) _) fun c => lists_modifyConn _

lemma lists_gbStart (created : Link → Bool) : Keeps listing (gbStart created) := by
  refine .bind .get fun s => .bind (.each fun i => ?_) fun _ => lists_modify (fun _ => rfl) fun _ => rfl
  refine .bind (listed_blind (blind_connAt _)) fun c => .bind (.whenever fun _ => lists_modifyConn _) fun _ => ?_
  exact .whenever fun _ => lists_createSetupThread _ _

lemma wp_gbInitSegmentSetup_listed (h : Blank s) (hnum : 0 ≤ s.conf.numOfSegments)
    (hkb : 0 ≤ s.conf.fixedSegmentSizeKB) : wp gbInitSegmentSetup
    (fun _ t => ∃ u : Session, u.offsetInfo = emptyOffsetInfo ∧ Operated u t) (fun _ _ => True) s := by
  simp only [gbInitSegmentSetup]
  rw [wp_bind, wp_modify, wp_bind]
  refine wp_mono (wp_initSegment (fun _ _ => trivial) fun _ => trivial) ?_ fun _ _ h => h
  rintro n t ⟨rfl, hgiven, -, rfl⟩
  obtain ⟨h₀, -, -⟩ := Conf.firstSize_bounds h.size hnum hkb hgiven
  obtain ⟨n, hn⟩ : ∃ n, n = s.conf.firstSize s.size := ⟨_, rfl⟩
  obtain ⟨u, hu⟩ : ∃ u : Session, u = { s with conf := s.conf.counted s.size } := ⟨_, rfl⟩
  rw [wp_bind, wp_modifyOffsetInfo, ← hn]
  by_cases hz : n = 0
  · have hblank : Blank u := hu ▸ ⟨h.two, h.rates, h.ints, h.size, h.unused, h.trace, h.outfile, h.bytesDone,
      h.offsets⟩
    rw [hz, wp_bind]
    refine wp_addFirst { s with conf := s.conf.counted s.size } 0 ?_
    rw [← hu, wp_bind, wp_get, wp_bind]
    exact wp_mono (hblank.wp_addNewSubsegment_empty (fun _ => trivial) (fun _ => trivial) trivial _)
      (fun _ _ h => h.elim) fun _ _ h => h
  · have hnew : NewChunks (addNewChunk [] 0 n) := by
      refine ⟨by simp [addNewChunk], fun c hc => ?_, List.pairwise_singleton _ _⟩
      obtain rfl : c = newChunk 0 n := by simpa [addNewChunk] using hc
      exact ⟨newChunk_valid (by omega), le_rfl⟩
    have hsized : Operated { u with offsetInfo := emptyOffsetInfo }
        { u with offsetInfo := { emptyOffsetInfo with initSegSize := n } } :=
      .step rfl fun put => ⟨put, .keep put ⟨rfl, rfl, rfl, rfl, rfl, rfl⟩⟩
    subst hu
    refine (Keeps.bind (lists_addNewSegment hnew false n) fun _ => .bind .get fun s => ?_).wp
      (fun _ t ht => ⟨_, rfl, hsized.trans ht⟩) fun _ _ _ _ => trivial
    refine .bind (lists_addNewSubsegment _ _ _ _) fun _ => .bind (.each fun i => lists_initConn i) fun _ => ?_
    exact .bind (listed_blind (blind_signed _ _)) fun _ => lists_modify (fun _ => rfl) fun _ => rfl

lemma listed_of_start (h : session.start s) :
    ∃ u : Session, u.offsetInfo = emptyOffsetInfo ∧ Operated u s := by
  obtain ⟨exact, statics, conf, size, status, created, hconf, hsize, hrun⟩ := h
  have hblank := gbNew_blank exact statics conf size true status hsize hconf.numConnections hconf.rates
    hconf.ints
  have hw : wp (gbOpen *> gbStart created)
      (fun _ t => ∃ u : Session, u.offsetInfo = emptyOffsetInfo ∧ Operated u t) (fun _ _ => True)
      { gbNew statics conf size true status with exact := exact } := by
    rw [wp_seqRight]
    simp only [gbOpen, wp_bind, wp_connAt, wp_whenever]
    refine ⟨fun _ => ⟨fun hn => absurd rfl hn, fun _ => ?_⟩, fun _ => trivial⟩
    refine wp_mono (wp_gbInitSegmentSetup_listed hblank hconf.numOfSegments hconf.fixedSegmentSizeKB) ?_
      fun _ _ h => h
    rintro _ t ⟨u, hu, ht⟩
    exact (lists_gbStart created).wp (fun _ _ hv => ⟨u, hu, ht.trans hv⟩) fun _ _ _ _ => trivial
  exact ((wp_iff _).mp hw).1 () s hrun

/-- What was put in the list of a reachable session. -/
lemma Session.Reached.listed (h : s.Reached) (hf : s.Fits) :
    ∃ put, ListRun (emptyOffsetInfo, []) (s.offsetInfo, put) := by
  have hstart : ∃ u : Session, u.offsetInfo = emptyOffsetInfo ∧ Operated u s := by
    refine Reachable.invariant (I := fun s => ∃ u : Session, u.offsetInfo = emptyOffsetInfo ∧ Operated u s)
      h (fun s hs => listed_of_start hs) fun s l hs _ _ => ?_
    obtain ⟨u, hu, hop⟩ := hs
    exact (lists_exec l).wp (fun _ t ht => ⟨u, hu, hop.trans ht⟩) fun _ _ _ _ => trivial
  obtain ⟨u, hu, hop⟩ := hstart
  obtain ⟨put, hrun⟩ := hop.run (h.inv hf).told.sound []
  exact ⟨put, hu ▸ hrun⟩

/-- Each further step operates on the list. -/
lemma Session.Reached.step_listed (h : s.Reached) {l : Label} {t : Session} (hl : session.enabled s l)
    (ht : session.exec l s = .ok () t) (hf : t.Fits) (put : List Chunk) :
    ∃ put', ListRun (s.offsetInfo, put) (t.offsetInfo, put') := by
  have hop : Operated s t := ((wp_iff _).mp (lists_exec l s)).1 () t ht
  have hreached : t.Reached := .step l h hl trivial ht
  exact hop.run (hreached.inv hf).told.sound put

end

/-- Every sequence of operations keeps the representation of the list and never lowers the offset, and
as long as no share overflows, a session gets to its list, and from each step to the next, by such a
sequence. -/
theorem list_represented (s : Session) :
    (∀ o put, ListRun (emptyOffsetInfo, []) (o, put) → o.Represented put ∧
      ∀ o' put', ListRun (o, put) (o', put') → o.lastSegOffset ≤ o'.lastSegOffset) ∧
    (s.Reached → s.Fits → ∃ put, ListRun (emptyOffsetInfo, []) (s.offsetInfo, put) ∧
      ∀ l t, session.enabled s l → session.exec l s = .ok () t → t.Fits →
        ∃ put', ListRun (s.offsetInfo, put) (t.offsetInfo, put')) := by
  refine ⟨fun o put h => ?_, fun hs hf => ?_⟩
  · have hr := OffsetInfo.Represented.empty.run h
    exact ⟨hr.1, fun o' put' h' => (hr.1.run h').2⟩
  · obtain ⟨put, hput⟩ := hs.listed hf
    exact ⟨put, hput, fun l t hl ht hft => hs.step_listed hl ht hft put⟩

theorem list_represented_of_recovery : ∃ s : Session, s.numRecoveries = 1 ∧
    ∃ put, s.offsetInfo.Represented put := by
  obtain ⟨s, hs, hn, hf⟩ := exists_of_reaches recoveringConf 3600 retakingSteps
    (P := fun s => s.numRecoveries = 1 ∧ s.Fits) (by decide +kernel) (by decide) (by decide +kernel)
  obtain ⟨put, hput, -⟩ := (list_represented s).2 hs hf
  exact ⟨s, hn, put, ((list_represented s).1 _ _ hput).1⟩

/-- Once a share has overflowed, a segment may hold chunks out of order. -/
theorem list_disordered : ∃ s : Session, s.Reached ∧ s.exact = false ∧
    ∀ put, ¬ s.offsetInfo.Represented put := by
  obtain ⟨s, hs, hex, hc⟩ := exists_of_reaches lopsidedConf 30000 overflowingSteps
    (P := fun s => s.exact = false ∧ ∃ g ∈ s.offsetInfo.segments, ¬ Ascending g.chunkList)
    (by decide +kernel) (by decide) (by decide +kernel)
  obtain ⟨g, hg, hasc⟩ := hc
  exact ⟨s, hs, hex, fun put hr => hasc (hr.sorted g hg).2.2⟩

end GreenBag
