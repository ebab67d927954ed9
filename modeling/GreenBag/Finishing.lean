import GreenBag.Telling

/-! The end of a chunk: the connection goes on to its next chunk, or has nothing left to do. -/

namespace GreenBag

open Programs Ranges Schedules Function

section

variable {i : Link} {s t : Session} {d e : Chunk} {ds es : List Chunk} {ps qs : List Subsegment}
  {q : Subsegment} {ev : List Event} {w : Gb} {site : Site} {reply : List UInt8}

lemma Apart.schedule_drop (h : Apart i ev s t)
    (hq : t.queue i = (ds ++ ps.flatMap Subsegment.chunkList).map Chunk.range) :
    t.schedule .rest = { s.schedule (.reading i) with
      queue := update (s.schedule (.reading i)).queue i
        ((ds ++ ps.flatMap Subsegment.chunkList).map Chunk.range) } := by
  simp only [Gb.schedule, h.size, h.outfile, h.frontier, Schedule.mk.injEq, true_and, and_true]
  funext k
  by_cases hk : k = i
  · rw [hk, update_self, hq]
    exact List.append_nil _
  · rw [update_of_ne hk, h.queue hk]
    rfl

lemma Cursor.schedule_queue (hcur : Cursor (.reading i) s.toGb i d ds ps) :
    (s.schedule (.reading i)).queue i = ⟨(s.conn i).currentbyte, (s.conn i).lastbyte⟩ ::
      (ds ++ ps.flatMap Subsegment.chunkList).map Chunk.range := by
  simp [Gb.schedule, hcur.queue, Phase.heldFrom]

lemma Apart.load_drop (h : Apart i ev s t) (hr : Rep (.reading i) s.toGb)
    (hcur : Cursor (.reading i) s.toGb i d ds ps)
    (hq : t.queue i = (ds ++ ps.flatMap Subsegment.chunkList).map Chunk.range) (b : ℤ) :
    (t.schedule .rest).load b ≤ 1 := by
  rw [h.schedule_drop hq]
  exact (Schedule.load_drop i hcur.schedule_queue b).trans (hr.load b)

lemma Apart.balanced_drop (h : Apart i ev s t) (hw : Whole (.reading i) s.toGb)
    (hcur : Cursor (.reading i) s.toGb i d ds ps)
    (hq : t.queue i = (ds ++ ps.flatMap Subsegment.chunkList).map Chunk.range)
    (hpast : (s.conn i).lastbyte < (s.conn i).currentbyte) : (t.schedule .rest).Balanced := by
  rw [h.schedule_drop hq]
  exact Schedule.Step.balanced (.retire i hcur.schedule_queue hpast) hw.balanced

/-- What a connection is like once it was pointed to its next chunk and the response was awaited. -/
structure Advanced (c c' : Conn) (e : Chunk) (reply : List UInt8) : Prop where
  cursor : c'.currentbyte = e.startByte ∧ c'.lastbyte = e.lastByte
  thread : c'.setupThread = c.setupThread
  fd : c'.fd = c.fd
  outstanding : c'.outstanding = c.outstanding
  goodput : c'.bytesPerSecond = c.bytesPerSecond ∧ c'.bytesDone = c.bytesDone
  missed : readHeaderBlock 0 [] reply = none → c'.enabled = false
  received : ∀ headers, readHeaderBlock 0 [] reply = some headers →
    c'.response = some ⟨c.status, headers⟩

lemma Inv.advance (q : Subsegment) (qs : List Subsegment) (h : Inv (.reading i) s)
    (hcur : Cursor (.reading i) s.toGb i d ds ps)
    (hpast : s.All Event.WritesAll → (s.conn i).lastbyte < (s.conn i).currentbyte)
    (hap : Apart i [.header w site i reply] s t) (hsite : site = .nextChunk ∨ site = .nextSubsegment)
    (hw : (w.conn i).outstanding = (s.conn i).outstanding ∧ (w.conn i).status = (s.conn i).status)
    (hparts : t.parts i = q :: qs) (hq : q.chunkList = e :: es)
    (hrest : ds ++ ps.flatMap Subsegment.chunkList =
      e :: (es ++ qs.flatMap Subsegment.chunkList))
    (hgood : ∀ p ∈ q :: qs, p.Good s.frontier) (hc : Advanced (s.conn i) (t.conn i) e reply)
    (hlong : 2 ≤ (q :: qs).length → (t.conn i).pipelineRequestsSent)
    (hflag : s.All Event.Served → (t.conn i).pipelineRequestsSent → 2 ≤ (q :: qs).length)
    (hsized : ∀ p ∈ qs, p.size = sizeSum p.chunkList)
    (hpointer : t.offsetInfo.connection i = firstWith i t.offsetInfo.segments) : Inv .rest t := by
  have hr := h.rep
  have hne : t.parts i ≠ [] := by
    rw [hparts]
    exact List.cons_ne_nil _ _
  have hnes : s.parts i ≠ [] := hr.fits
  have hqueue : t.queue i = (ds ++ ps.flatMap Subsegment.chunkList).map Chunk.range := by
    rw [Gb.queue, hparts, queueOf, hq, hc.cursor.1, hc.cursor.2, hrest]
    rfl
  have he := (hgood q List.mem_cons_self).inside e (by rw [hq]; exact List.mem_cons_self)
  have hv := he.1.1
  have hv' := he.1.2
  have hev : ∀ {P : Event → Prop}, t.All P → P (.header w site i reply) ∧ s.All P := fun ha => by
    obtain ⟨h₁, h₂⟩ := (all_append_iff hap.trace).mp ha
    exact ⟨h₁ _ List.mem_cons_self, h₂⟩
  have hcalm : t.All Event.Alone → (t.conn i).setupThread = .none ∧ (t.conn i).fd ≠ .closed :=
    fun ha => by
      rw [hc.thread, hc.fd]
      exact (h.wire i).calm (hev ha).2 (.inr rfl)
  have hout : t.All Event.InOrder → (s.conn i).outstanding =
      (ds ++ ps.flatMap Subsegment.chunkList).map Chunk.range := fun ha => by
    have hs := (hev ha).2
    have hgone : ¬ (s.conn i).currentbyte ≤ (s.conn i).lastbyte := by
      have := hpast (hs.imp fun _ he => he.1)
      omega
    rw [(h.wire i).aligned hs (.inl (.inr rfl)), hcur.wanted, if_neg hgone, hcur.queue,
      List.tail_cons]
  have hwire : Wire .rest t i := by
    refine ⟨fun ha _ hf => ?_, fun ha _ => hcalm ha, fun ha hth => absurd (hcalm ha).1 hth,
      fun ha hth => ?_, fun ha _ => ?_, fun _ hn => absurd hn hne, fun ha hi => ?_⟩
    · rw [hparts]
      exact hflag (hev ha).2 hf
    · rw [(hcalm (ha.imp fun _ he => he.2.2.1)).1] at hth
      cases hth
    · rw [hc.outstanding, hout ha, Gb.wanted, hqueue,
        dropWhile_empty fun c hc => (hcur.inside c hc).1]
    · have hen : (t.conn i).enabled := hi.resolve_right id
      have hacc := (hev ha).1.2
      cases hh : readHeaderBlock 0 [] reply with
      | none =>
        rw [hc.missed hh] at hen
        cases hen
      | some headers =>
        refine ⟨_, hc.received headers hh, ?_⟩
        rcases hsite with rfl | rfl <;> exact hw.2 ▸ hacc headers hh
  refine ⟨hap.rep hr (fun k hk => ⟨(if_neg hk).symm, rfl⟩) ?_ hpointer trivial
    (hap.load_drop hr hcur hqueue), hap.goodput h.goodput hc.goodput.1 hc.goodput.2, fun ha => ?_,
    hap.log h.log ?_, h.told.extend hap.trace (by simp) (fun ha s' site' j r hm => ?_) (by simp)
      (by simp [Event.Sound]),
    hap.wire h.wire (fun _ _ => False.elim) hwire⟩
  · rw [hparts, hap.frontier]
    refine ⟨hgood, fun p' qs' d' ds' hp' hd' => ?_, hlong, hsized⟩
    obtain ⟨rfl, rfl⟩ := List.cons.inj hp'
    obtain ⟨rfl, rfl⟩ := List.cons.inj (hq.symm.trans hd')
    rw [hc.cursor.1, hc.cursor.2]
    exact ⟨rfl, le_rfl, by simp only [Phase.slack]; omega, fun b h₁ h₂ => by omega⟩
  · have hs := h.whole (hev ha).2
    refine ⟨hap.balanced_drop hs hcur hqueue (hpast (hev ha).2), fun k _ hk => ?_, fun hpl => ?_⟩
    · have hki : k ≠ i := fun hki => hne (hki ▸ hk)
      rw [hap.conn k hki, hap.placeholder hki]
      exact hs.idle k rfl (hap.parts k hki ▸ hk)
    · exact hne (firstWith_eq_none.mp (hpointer.symm.trans (hpl i).1))
  · rintro ⟨k, hk⟩ -
    have hki : k ≠ i := fun hki => hr.not_placeholder hnes (hki ▸ hk)
    exact ⟨k, (hap.placeholder hki).mpr hk⟩
  · obtain ⟨rfl, rfl, rfl, rfl⟩ := Event.header.inj (List.mem_singleton.mp hm)
    rw [hw.1, hout ha, hrest]
    simp

lemma Inv.exhaust (h : Inv (.reading i) s) (hcur : Cursor (.reading i) s.toGb i d [] [])
    (hpast : s.All Event.WritesAll → (s.conn i).lastbyte < (s.conn i).currentbyte)
    (hap : Apart i [] s t) (hparts : t.parts i = []) (hen : (t.conn i).enabled = false)
    (hcursor : (t.conn i).currentbyte = (s.conn i).currentbyte ∧
      (t.conn i).lastbyte = (s.conn i).lastbyte)
    (hthread : (t.conn i).setupThread = (s.conn i).setupThread)
    (hout : (t.conn i).outstanding = (s.conn i).outstanding ∨ (t.conn i).outstanding = [])
    (hgood : (t.conn i).bytesPerSecond = (s.conn i).bytesPerSecond ∧
      (t.conn i).bytesDone = (s.conn i).bytesDone)
    (hpointer : t.offsetInfo.connection i = none) : Inv .rest t := by
  have hr := h.rep
  have hnes : s.parts i ≠ [] := hr.fits
  have hqueue : t.queue i = (([] : List Chunk) ++ [].flatMap Subsegment.chunkList).map Chunk.range := by
    rw [Gb.queue, hparts]
    rfl
  have hact : ¬ Active .rest t.toGb i := by
    rintro (he | hb)
    · rw [hen] at he
      cases he
    · exact hb
  have hnone : t.All Event.Alone → (t.conn i).setupThread = .none := fun ha => by
    rw [hthread]
    exact ((h.wire i).calm (hap.all ha) (.inr rfl)).1
  have hlast := hcur.last
  have hslack := hcur.slack
  simp only [Phase.slack, if_true] at hslack
  have hwire : Wire .rest t i := by
    refine ⟨fun _ hn => absurd hparts hn, fun _ hi => absurd hi hact,
      fun ha hth => absurd (hnone ha) hth, fun ha hth => ?_, fun ha hi => ?_, fun ha _ => ?_,
      fun _ hi => absurd hi hact⟩
    · rw [hnone (ha.imp fun _ he => he.2.2.1)] at hth
      cases hth
    · rcases hi with hi | hth
      · exact absurd hi hact
      · rw [hnone (ha.imp fun _ he => he.2.2.1)] at hth
        cases hth
    · rcases hout with ho | ho
      · have hs := hap.all ha
        have hgone : ¬ (s.conn i).currentbyte ≤ (s.conn i).lastbyte := by
          have := hpast (hs.imp fun _ he => he.1)
          omega
        rw [ho, (h.wire i).aligned hs (.inl (.inr rfl)), hcur.wanted, if_neg hgone, hcur.queue]
        rfl
      · exact ho
  refine ⟨hap.rep hr (fun k hk => ⟨(if_neg hk).symm, rfl⟩) ?_ ?_ trivial
    (hap.load_drop hr hcur hqueue), hap.goodput h.goodput hgood.1 hgood.2, fun ha => ?_,
    hap.log h.log ?_, h.told.extend hap.trace (by simp) (fun _ => by simp) (fun _ => by simp)
      (by simp),
    hap.wire h.wire (fun _ _ => False.elim) hwire⟩
  · rw [hparts]
    exact ⟨by simp, by simp, by simp, by simp⟩
  · rw [hpointer]
    exact (firstWith_eq_none.mpr hparts).symm
  · have hs := h.whole (hap.all ha)
    have hgone := hpast (hap.all ha)
    refine ⟨hap.balanced_drop hs hcur hqueue hgone, fun k _ hk => ?_, fun hpl => ?_⟩
    · by_cases hki : k = i
      · left
        rw [hki, Conn.looksIdle, hcursor.1, hcursor.2, decide_eq_true_eq]
        omega
      · rw [hap.conn k hki, hap.placeholder hki]
        exact hs.idle k rfl (hap.parts k hki ▸ hk)
    · have hp := (hpl i).2
      rw [hcursor.1, hcursor.2] at hp
      omega
  · rintro ⟨k, hk⟩ -
    have hki : k ≠ i := fun hki => hr.not_placeholder hnes (hki ▸ hk)
    exact ⟨k, (hap.placeholder hki).mpr hk⟩

end

section

variable {i : Link} {s : Session} {d : Chunk} {ds : List Chunk} {ps : List Subsegment}
  {p : Subsegment} {pre post : List Segment} {g : Segment}

/-- The session once the connection was taken out of the round of reads. -/
def Session.paused (s : Session) (i : Link) : Session :=
  { s with conn := update s.conn i { s.conn i with enabled := false } }

lemma Inv.nextChunk (h : Inv (.reading i) s) {c : Chunk} {cs : List Chunk}
    (hcur : Cursor (.reading i) s.toGb i d (c :: cs) ps)
    (hpast : s.All Event.WritesAll → (s.conn i).lastbyte < (s.conn i).currentbyte)
    (hs : s.offsetInfo.segments = pre ++ g :: post) (hpre : parts i pre = [])
    (hp : g.subsegment i = some p) (hpost : parts i post = ps) (hds : p.chunkList = d :: c :: cs)
    {c' : Conn} {w : Gb} {reply : List UInt8}
    (hw : (w.conn i).outstanding = (s.conn i).outstanding ∧ (w.conn i).status = (s.conn i).status)
    (hc : Advanced (s.conn i) c' c reply)
    (hflag : c'.pipelineRequestsSent = (s.conn i).pipelineRequestsSent) :
    Inv .rest { s with
      trace := .header w .nextChunk i reply :: s.trace
      conn := update s.conn i c'
      offsetInfo := s.offsetInfo.modifySegment g.id
        (·.setSubsegment i (some { p with chunkList := c :: cs })) } := by
  have hr := h.rep
  obtain ⟨hb, hm⟩ := hr.linked.set (i := i) hs (some { p with chunkList := c :: cs })
  have hset : (g.setSubsegment i (some { p with chunkList := c :: cs })).subsegment i =
      some { p with chunkList := c :: cs } := update_self ..
  have hsp : s.parts i = p :: ps := by
    rw [Gb.parts, hs, parts_append, parts_cons, hpre, hp, hpost]
    rfl
  have hgood := (hr.lane i).good
  rw [hsp] at hgood
  have hpg := hgood p List.mem_cons_self
  have hfirst : ∀ g' : Segment, (g'.subsegment i).isSome → g'.id = g.id →
      firstWith i (pre ++ g' :: post) = some g.id := by
    intro g' hg' hid
    obtain ⟨p', hp'⟩ := Option.isSome_iff_exists.mp hg'
    rw [firstWith_split hpre hp', hid]
  refine h.advance { p with chunkList := c :: cs } ps hcur hpast
    (.of_besides [_] hb rfl (by simp [Event.Quiet, Event.WritesAll])) (.inl rfl) hw ?_ rfl rfl ?_ ?_ ?_ ?_ ?_ ?_
  · show parts i _ = _
    rw [hm, parts_append, parts_cons, hpre, hset, hpost]
    rfl
  · intro p' hp'
    rcases List.mem_cons.mp hp' with rfl | hp'
    · refine ⟨List.cons_ne_nil _ _, fun e he => hpg.inside e ?_, ?_, hpg.size_nonneg⟩
      · rw [hds]
        exact List.mem_cons_of_mem _ he
      · have hasc := hpg.ascending
        rw [hds] at hasc
        exact (List.pairwise_cons.mp hasc).2
    · exact hgood p' (List.mem_cons_of_mem _ hp')
  · simpa only [update_self] using hc
  · simp only [update_self, hflag]
    have hf := (hr.lane i).flag
    rw [hsp] at hf
    exact hf
  · simp only [update_self, hflag]
    intro ha hf
    have hlen := (h.wire i).flag ha hr.fits hf
    rw [hsp] at hlen
    exact hlen
  · have hz := (hr.lane i).sized
    rw [hsp] at hz
    exact hz
  · show s.offsetInfo.connection i = firstWith i _
    have hnow := hfirst (g.setSubsegment i (some { p with chunkList := c :: cs }))
      (by rw [hset]; rfl) rfl
    have hold := hr.pointer i rfl
    rw [hs, hfirst g (by rw [hp]; rfl) rfl] at hold
    rw [hm, hnow, hold]

lemma wp_finishLastChunkOfSubseg (h : Inv (.reading i) s)
    (hcur : Cursor (.reading i) s.toGb i d ds ps)
    (hpast : s.All Event.WritesAll → (s.conn i).lastbyte < (s.conn i).currentbyte)
    (hs : s.offsetInfo.segments = pre ++ g :: post) (hpre : parts i pre = [])
    (hp : g.subsegment i = some p) (hpost : parts i post = ps) (hds : p.chunkList = d :: ds)
    (reply : List UInt8) :
    wp (finishLastChunkOfSubseg i reply) (fun finished t =>
      if finished then ds = [] ∧ t = { s.paused i with
        offsetInfo := s.offsetInfo.modifySegment g.id
          (·.setSubsegment i (some { p with chunkList := [] })) }
      else Inv .rest t) Sane (s.paused i) := by
  have hconn : s.offsetInfo.connection i = some g.id := by
    rw [h.rep.pointer i rfl, hs, firstWith_split hpre hp]
  have hderef := h.rep.linked.deref_eq hs
  simp only [finishLastChunkOfSubseg, Session.paused, wp_bind, wp_get, wp_follow, hconn,
    Option.some.injEq, forall_eq', hderef, reduceCtorEq, false_implies, and_true, wp_demand, hp,
    wp_ensure, hds, ne_eq, not_false_eq_true, not_true_eq_false, true_implies, wp_modifyOffsetInfo,
    List.tail_cons]
  cases ds with
  | nil => exact ⟨rfl, rfl⟩
  | cons c cs =>
    simp only [wp_bind, wp_modifyConn, wp_gbReceiveHttpHeaderResponse, wp_whenever, wp_pure,
      Bool.false_eq_true, if_false, false_implies, true_implies, not_false_eq_true,
      not_true_eq_false, and_true, true_and, update_self, update_idem]
    refine ⟨fun hh => ?_, fun headers hh => ?_⟩
    · refine h.nextChunk hcur hpast hs hpre hp hpost hds (by simp) ?_ rfl
      exact ⟨⟨rfl, rfl⟩, rfl, rfl, rfl, ⟨rfl, rfl⟩, fun _ => rfl, fun _ hn => by simp [hh] at hn⟩
    · refine h.nextChunk hcur hpast hs hpre hp hpost hds (by simp) ?_ rfl
      refine ⟨⟨rfl, rfl⟩, rfl, rfl, rfl, ⟨rfl, rfl⟩, fun hn => by simp [hh] at hn, fun _ hn => ?_⟩
      rw [← Option.some.inj (hh.symm.trans hn)]

/-- A connection whose next response was awaited: with the header it goes on. -/
def Conn.answered (c : Conn) (reply : List UInt8) : Conn :=
  match readHeaderBlock 0 [] reply with
  | none => { c with enabled := false }
  | some headers => { c with response := some ⟨c.status, headers⟩, enabled := true, state := false }

lemma Conn.answered_advanced (c : Conn) (e : Chunk) (reply : List UInt8) (flag sent : Bool) :
    Advanced c { (c.answered reply).pointedTo e flag with pipelineRequestsSent := sent } e reply := by
  unfold Conn.answered Conn.pointedTo
  cases hh : readHeaderBlock 0 [] reply with
  | none => exact ⟨⟨rfl, rfl⟩, rfl, rfl, rfl, ⟨rfl, rfl⟩, fun _ => rfl, fun _ hn => by simp [hh] at hn⟩
  | some headers =>
    refine ⟨⟨rfl, rfl⟩, rfl, rfl, rfl, ⟨rfl, rfl⟩, fun hn => by simp [hh] at hn, fun _ hn => ?_⟩
    rw [← Option.some.inj (hh.symm.trans hn)]

/-- The session without the subsegment that was read to its end. -/
def Session.cleared (s : Session) (i : Link) (g : Segment) : Session := { s.paused i with
  offsetInfo := s.offsetInfo.modifySegment g.id (·.setSubsegment i none) }

lemma Inv.nextSubsegment (h : Inv (.reading i) s) (hcur : Cursor (.reading i) s.toGb i d [] ps)
    (hpast : s.All Event.WritesAll → (s.conn i).lastbyte < (s.conn i).currentbyte)
    (hs : s.offsetInfo.segments = pre ++ g :: post) (hpre : parts i pre = [])
    {q : Subsegment} {qs : List Subsegment} {e : Chunk} {es : List Chunk} (hps : ps = q :: qs)
    (hq : q.chunkList = e :: es) (hpost : parts i post = ps) (hp : g.subsegment i = some p)
    {next : ℕ} (hnext : firstWith i post = some next) (flag sent : Bool) (n : ℕ)
    (reply : List UInt8) (hsent : sent = true ↔ qs ≠ []) {w : Gb}
    (hw : (w.conn i).outstanding = (s.conn i).outstanding ∧ (w.conn i).status = (s.conn i).status) :
    Inv .rest { s with
      trace := .header w .nextSubsegment i reply :: s.trace
      conn := update s.conn i { ((s.conn i).answered reply).pointedTo e flag with
        pipelineRequestsSent := sent }
      offsetInfo := ({ (s.cleared i g).offsetInfo with
        connection := update s.offsetInfo.connection i (some next) } :
          OffsetInfo).deleteFinishedHeadSegments n } := by
  have hr := h.rep
  obtain ⟨hb, hparts, hfirst, -⟩ := hr.linked.clear hs hpre
  have hpoint := OffsetInfo.Besides.point (i := i) hb.linked (some next)
  obtain ⟨htrim, hsame⟩ := hpoint.linked.trims n i
  have hconn := (hpoint.linked.trims n i.other).1.connection i (Link.other_ne i).symm
  have hsp : s.parts i = p :: ps := by
    rw [Gb.parts, hs, parts_append, parts_cons, hpre, hp, hpost]
    rfl
  have hlane := hr.lane i
  rw [hsp] at hlane
  refine h.advance q qs hcur hpast (.of_besides [_] ((hb.trans hpoint).trans htrim) rfl
    (by simp [Event.Quiet, Event.WritesAll])) (.inr rfl) hw ?_ hq ?_ ?_ ?_ ?_ ?_ ?_ ?_
  · exact (hsame i).1.trans (hparts.trans (hpost.trans hps))
  · rw [hps, List.flatMap_cons, hq]
    rfl
  · exact fun p' hp' => hlane.good p' (List.mem_cons_of_mem _ (hps ▸ hp'))
  · simp only [update_self]
    exact Conn.answered_advanced ..
  · simp only [update_self, hsent]
    rintro hlen rfl
    simp at hlen
  · simp only [update_self, hsent]
    intro _ hne
    have := List.length_pos_iff.mpr hne
    simp only [List.length_cons]
    omega
  · exact fun p' hp' => hlane.sized p' (by rw [hps]; exact List.mem_cons_of_mem _ hp')
  · refine (hconn.trans (update_self ..)).trans ?_
    exact ((hsame i).2.trans (hfirst.trans hnext)).symm

lemma wp_finishDownloadingSubseg (h : Inv (.reading i) s)
    (hcur : Cursor (.reading i) s.toGb i d [] ps)
    (hpast : s.All Event.WritesAll → (s.conn i).lastbyte < (s.conn i).currentbyte)
    (hs : s.offsetInfo.segments = pre ++ g :: post) (hpre : parts i pre = [])
    (hp : g.subsegment i = some p) (hpost : parts i post = ps) (reply : List UInt8) :
    wp (finishDownloadingSubseg i reply) (fun _ t => Inv .rest t) Sane (s.cleared i g) := by
  have hr := h.rep
  obtain ⟨hb, hparts, hfirst, hbehind⟩ := hr.linked.clear hs hpre
  have hseg := hr.linked.modifySegment_eq hs (·.setSubsegment i none)
  have hsp : s.parts i = p :: ps := by
    rw [Gb.parts, hs, parts_append, parts_cons, hpre, hp, hpost]
    rfl
  have hconn : (s.cleared i g).offsetInfo.connection i = some g.id := by
    show s.offsetInfo.connection i = _
    rw [hr.pointer i rfl, hs, firstWith_split hpre hp]
  have hderef : (s.cleared i g).offsetInfo.deref g.id = some (g.setSubsegment i none) :=
    hb.linked.deref_eq (g := g.setSubsegment i none) hseg
  have hid : (g.setSubsegment i none).id = g.id := rfl
  have hnext : (s.cleared i g).offsetInfo.getFirstNextSegmentAssignedToConn g.id i =
      firstWith i post := hbehind
  have hpaused : (s.cleared i g).conn i = { s.conn i with enabled := false } := update_self ..
  simp only [finishDownloadingSubseg]
  rw [wp_bind, wp_get, wp_bind, wp_connAt]
  refine ⟨fun _ => ?_, fun _ => (sane_connOutOfBounds _).mpr h.sincere⟩
  rw [wp_ite]
  refine ⟨fun hflag => ?_, fun hflag => ?_⟩
  · have hmove : ∀ v : Session, v = { s with
          trace := .header (s.cleared i g).toGb .nextSubsegment i reply :: s.trace
          conn := update s.conn i ((s.conn i).answered reply)
          offsetInfo := (s.cleared i g).offsetInfo } →
        wp (do
          let k ← follow ((s.cleared i g).offsetInfo.connection i)
          let next ← demand .nullNextSegment
            ((s.cleared i g).offsetInfo.getFirstNextSegmentAssignedToConn k.id i)
          moveTo i next
          whenever ((s.cleared i g).offsetInfo.getFirstNextSegmentAssignedToConn next i = none)
            (modifyConn i fun c => { c with pipelineRequestsSent := false })
          modifyOffsetInfo fun o => o.deleteFinishedHeadSegments o.segments.length)
          (fun _ t => Inv .rest t) Sane v := by
      rintro v rfl
      have hsin : Sincere (.header (s.cleared i g).toGb .nextSubsegment i reply :: s.trace) :=
        h.sincere.cons trivial (by simp)
      simp only [wp_bind, wp_follow, wp_demand, hconn, Option.some.injEq, forall_eq', hderef,
        reduceCtorEq, false_implies, and_true, hid, hnext]
      refine ⟨fun next hn => ?_, fun hn => ⟨hsin, fun ha => ?_⟩⟩
      · cases hps : ps with
        | nil =>
          rw [firstWith_eq_none.mpr (hpost.trans hps)] at hn
          cases hn
        | cons q qs =>
          obtain ⟨pre', g', post', hpost', hpre', hq, hqs⟩ := exists_split (hpost.trans hps)
          have hg' : firstWith i post = some g'.id := by rw [hpost', firstWith_split hpre' hq]
          obtain rfl : g'.id = next := Option.some.inj (hg'.symm.trans hn)
          have hlane := (hr.lane i).good q (by rw [hsp, hps]; simp)
          obtain ⟨e, es, hes⟩ := List.exists_cons_of_ne_nil hlane.nonempty
          have hseg' : (s.cleared i g).offsetInfo.segments =
              (pre ++ g.setSubsegment i none :: pre') ++ g' :: post' := by
            show (s.offsetInfo.modifySegment _ _).segments = _
            rw [hseg, hpost']
            simp
          have hlater : (s.cleared i g).offsetInfo.getFirstNextSegmentAssignedToConn g'.id i = none ↔
              qs = [] := by
            have hlast : firstWith i ((s.cleared i g).offsetInfo.behind g'.id) = firstWith i post' :=
              congrArg (firstWith i) (hb.linked.behind_eq hseg')
            show firstWith i ((s.cleared i g).offsetInfo.behind g'.id) = none ↔ _
            rw [hlast, firstWith_eq_none, hqs]
          refine wp_moveTo hsin (hb.linked.deref_eq hseg') hq hes fun flag => ?_
          simp only [Session.movedTo, wp_whenever, wp_modifyConn, wp_modifyOffsetInfo, update_self,
            update_idem, hlater]
          refine ⟨fun hnil => ?_, fun hne => ?_⟩
          · exact h.nextSubsegment hcur hpast hs hpre hps hes hpost hp hn _ _ _ _ (by simp [hnil])
              (by simp [hpaused])
          · have hsent : ((s.conn i).answered reply).pipelineRequestsSent = true := by
              rw [hpaused] at hflag
              unfold Conn.answered
              cases readHeaderBlock 0 [] reply <;> exact hflag
            have hinv := h.nextSubsegment hcur hpast hs hpre hps hes hpost hp hn flag true
              (s.cleared i g).offsetInfo.segments.length reply (by simp [hne])
              (w := (s.cleared i g).toGb) (by simp [hpaused])
            have hsame : { ((s.conn i).answered reply).pointedTo e flag with
                pipelineRequestsSent := true } = ((s.conn i).answered reply).pointedTo e flag := by
              simp only [Conn.pointedTo, hsent]
            rwa [hsame] at hinv
      · have hnil := hpost.symm.trans (firstWith_eq_none.mp hn)
        have hlen := (h.wire i).flag (fun e he => ha e (List.mem_cons_of_mem _ he)) hr.fits
          (by rw [hpaused] at hflag; exact hflag)
        rw [hsp, hnil] at hlen
        simp at hlen
    rw [wp_bind, wp_gbReceiveHttpHeaderResponse]
    refine ⟨fun hh => ?_, fun headers hh => ?_⟩
    · rw [wp_bind, wp_whenever]
      refine ⟨fun hn => absurd hn (by simp), fun _ => hmove _ ?_⟩
      simp [Session.cleared, Session.paused, Conn.answered, hh]
    · rw [wp_bind, wp_whenever]
      refine ⟨fun _ => hmove _ ?_, fun hn => absurd rfl hn⟩
      simp [Session.cleared, Session.paused, Conn.answered, hh]
  · have hnil : ps = [] := by
      by_contra hne
      have hlen := List.length_pos_iff.mpr hne
      have hf := (hr.lane i).flag (by rw [hsp, List.length_cons]; omega)
      rw [hpaused] at hflag
      exact hflag hf
    subst hnil
    have hpoint := OffsetInfo.Besides.point (i := i) hb.linked none
    obtain ⟨htrim, hsame⟩ := hpoint.linked.trims
      (s.cleared i g).offsetInfo.segments.length i
    have hnone := (hpoint.linked.trims (s.cleared i g).offsetInfo.segments.length i.other).1.connection
      i (Link.other_ne i).symm
    have hdone : ∀ c : Conn, c.enabled = false →
        (c.currentbyte = (s.conn i).currentbyte ∧ c.lastbyte = (s.conn i).lastbyte) →
        c.setupThread = (s.conn i).setupThread →
        (c.outstanding = (s.conn i).outstanding ∨ c.outstanding = []) →
        (c.bytesPerSecond = (s.conn i).bytesPerSecond ∧ c.bytesDone = (s.conn i).bytesDone) →
        Inv .rest { s with
          conn := update s.conn i c
          offsetInfo := ({ (s.cleared i g).offsetInfo with
            connection := update s.offsetInfo.connection i none } :
              OffsetInfo).deleteFinishedHeadSegments (s.cleared i g).offsetInfo.segments.length } := by
      intro c h₁ h₂ h₃ h₄ h₅
      refine h.exhaust hcur hpast (.of_besides [] ((hb.trans hpoint).trans htrim) rfl
        (by simp)) ((hsame i).1.trans (hparts.trans hpost)) ?_ ?_ ?_ ?_ ?_
        (hnone.trans (update_self ..)) <;> simp only [update_self]
      · exact h₁
      · exact h₂
      · exact h₃
      · exact h₄
      · exact h₅
    have hcloses : ∀ {f : Bool → Program Unit} {post : Unit → Session → Prop},
        (∀ closes, wp (f closes) post Sane (s.cleared i g)) →
        wp (closesFinished i >>= f) post Sane (s.cleared i g) := by
      intro f post hf
      have hsin : Sincere (s.cleared i g).trace := h.sincere
      simp only [closesFinished, wp_bind, wp_get, wp_connAt, sane_connOutOfBounds, hsin,
        implies_true, and_true, wp_ite, wp_pure]
      exact fun _ => ⟨fun _ => hf _, fun _ _ => hf _⟩
    refine hcloses fun closes => ?_
    simp only [wp_bind, wp_modifyOffsetInfo, wp_whenever, connDisconnect, wp_modifyConn]
    refine ⟨fun _ => ?_, fun _ => ?_⟩
    · simp only [Session.cleared, Session.paused, update_self, update_idem]
      exact hdone { s.conn i with
        enabled := false, fd := .closed, outstanding := [], response := none } rfl ⟨rfl, rfl⟩ rfl
        (.inr rfl) ⟨rfl, rfl⟩
    · exact hdone { s.conn i with enabled := false } rfl ⟨rfl, rfl⟩ rfl (.inl rfl) ⟨rfl, rfl⟩

lemma wp_finishChunk {x : Inputs} (h : Inv (.reading i) s)
    (hpast : s.All Event.WritesAll → (s.conn i).lastbyte < (s.conn i).currentbyte) :
    wp (finishChunk i x) (fun _ t => Inv .rest t) Sane s := by
  obtain ⟨d, ds, ps, hcur⟩ := h.rep.cursor h.rep.fits
  obtain ⟨p, hparts, hds⟩ := hcur.parts
  obtain ⟨pre, g, post, hs, hpre, hp, hpost⟩ := exists_split hparts
  simp only [finishChunk]
  rw [wp_bind, wp_modifyConn, wp_bind]
  refine wp_mono (wp_finishLastChunkOfSubseg h hcur hpast hs hpre hp hpost hds _) ?_
    (fun _ _ h => h)
  intro finished t ht
  rw [wp_whenever]
  refine ⟨fun hf => ?_, fun hf => ?_⟩
  · rw [if_pos hf] at ht
    obtain ⟨rfl, rfl⟩ := ht
    have hconn : s.offsetInfo.connection i = some g.id := by
      rw [h.rep.pointer i rfl, hs, firstWith_split hpre hp]
    have hset : (g.setSubsegment i (some { p with chunkList := [] })).subsegment i =
        some { p with chunkList := [] } := update_self ..
    have hderef := (h.rep.linked.set (i := i) hs (some { p with chunkList := [] })).1.linked.deref_eq
      (g := g.setSubsegment i (some { p with chunkList := [] }))
      (h.rep.linked.modifySegment_eq hs _)
    have hid : (g.setSubsegment i (some { p with chunkList := [] })).id = g.id := rfl
    rw [hid] at hderef
    have hpoint : (s.offsetInfo.modifySegment g.id
        (·.setSubsegment i (some { p with chunkList := [] }))).connection i = some g.id := hconn
    simp only [deleteSubsegment, wp_bind, wp_get, wp_follow, hpoint, Option.some.injEq, forall_eq',
      hderef, hid, hset, reduceCtorEq, false_implies, and_true, wp_demand, wp_modifyOffsetInfo,
      OffsetInfo.modifySegment_twice]
    refine wp_mono (wp_finishDownloadingSubseg h hcur hpast hs hpre hp hpost _) ?_ (fun _ _ h => h)
    intro _ u hu
    exact wp_mono (wp_updateInorderOffset hu) (fun _ _ h => h.1) (fun _ _ h => h)
  · rw [if_neg hf] at ht
    exact ht

end

end GreenBag
