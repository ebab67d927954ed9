import GreenBag.Receiving

/-! Recovery: one connection takes over all the other one has left. -/

namespace GreenBag

open Programs Ranges Schedules Function

/-- Clearing the first part of a connection and deleting the head if it is finished. -/
lemma OffsetInfo.Linked.takePart {o : OffsetInfo} (h : o.Linked) {i : Link} {p : Subsegment}
    {ps : List Subsegment} (hp : parts i o.segments = p :: ps) :
    ∃ g, firstWith i o.segments = some g.id ∧ o.deref g.id = some g ∧ g.subsegment i = some p ∧
      let cleared := o.modifySegment g.id (·.setSubsegment i none)
      let o' := cleared.deleteFinishedHeadSegment.getD cleared
      Besides i o o' ∧ parts i o'.segments = ps ∧
        cleared.getFirstNextSegmentAssignedToConn g.id i = firstWith i o'.segments := by
  obtain ⟨pre, g, post, hs, hpre, hg, hpost⟩ := exists_split hp
  obtain ⟨hb, hps, hf, hn⟩ := h.clear hs hpre
  obtain ⟨hb', ht⟩ := hb.linked.trim i
  refine ⟨g, by rw [hs, firstWith_split hpre hg], h.deref_eq hs, hg, hb.trans hb', ?_, ?_⟩
  · rw [(ht i).1, hps, hpost]
  · rw [(ht i).2, hf]
    exact hn

/-- The loop finds all the parts in the order of the list, and as many steps are enough as there
are parts. -/
lemma wp_gatherChunks {o : Link} {n : ℕ} {ps : List Subsegment} {s : Session} (cs : List Chunk)
    (hl : s.offsetInfo.Linked) (hp : s.parts o = ps) (hn : ps.length ≤ n) :
    wp (gatherChunks o n (firstWith o s.offsetInfo.segments) cs) (fun held t =>
      held = cs ++ ps.flatMap Subsegment.chunkList ∧ ∃ q, t = { s with offsetInfo := q } ∧
        s.offsetInfo.Besides o q ∧ parts o q.segments = []) (fun _ _ => False) s := by
  induction n generalizing ps s cs with
  | zero =>
    obtain rfl := List.length_eq_zero_iff.mp (Nat.le_zero.mp hn)
    rw [firstWith_eq_none.mpr hp]
    exact ⟨by simp, s.offsetInfo, rfl, .refl hl, hp⟩
  | succ n ih =>
    cases ps with
    | nil =>
      rw [firstWith_eq_none.mpr hp]
      exact ⟨by simp, s.offsetInfo, rfl, .refl hl, hp⟩
    | cons p ps =>
      obtain ⟨g, hf, hd, hg, hb, hps, hnext⟩ := hl.takePart hp
      rw [hf, gatherChunks]
      simp only [deleteSubsegment, wp_bind, wp_follow, wp_demand, Option.some.injEq, forall_eq', hd,
        hg, reduceCtorEq, false_implies, and_true, wp_get, wp_modifyOffsetInfo, hnext]
      refine wp_mono (ih (s := { s with offsetInfo := _ }) (cs ++ p.chunkList) hb.linked hps
        (Nat.le_of_succ_le_succ hn)) ?_ (fun _ _ h => h)
      rintro held t ⟨rfl, q, rfl, hq, hnil⟩
      exact ⟨by simp, q, rfl, hb.trans hq, hnil⟩

/-- What is missing of a chunk, from the cursor of its connection on. -/
def Conn.missingOf (c : Conn) (d : Chunk) : Chunk :=
  ⟨c.currentbyte, d.lastByte, d.lastByte - c.currentbyte + 1⟩

lemma wp_detachChunks {φ : Phase} {o : Link} {s : Session} {d : Chunk} {ds : List Chunk}
    {ps : List Subsegment} (hl : s.offsetInfo.Linked) (h : Cursor φ s.toGb o d ds ps)
    (hc : s.offsetInfo.connection o = firstWith o s.offsetInfo.segments) :
    wp (detachChunks o) (fun held t =>
      held = (s.conn o).missingOf d :: (ds ++ ps.flatMap Subsegment.chunkList) ∧
        ∃ q, t = { s with offsetInfo := q } ∧ s.offsetInfo.Besides o q ∧ parts o q.segments = [])
      (fun _ _ => False) s := by
  obtain ⟨p, hp, hds⟩ := h.parts
  obtain ⟨g, hf, hd, hg, hb, hps, hnext⟩ := hl.takePart hp
  have hlen : ps.length ≤ s.offsetInfo.segments.length := by
    have := List.length_filterMap_le (·.subsegment o) s.offsetInfo.segments
    have hp' : (s.offsetInfo.segments.filterMap (·.subsegment o)).length = ps.length + 1 :=
      congrArg List.length hp
    omega
  simp only [detachChunks, deleteSubsegment, wp_bind, wp_get, wp_follow, wp_demand, hc, hf, hd, hg,
    hds, Option.some.injEq, forall_eq', reduceCtorEq, false_implies, and_true, List.head?_cons,
    wp_modifyOffsetInfo, hnext, List.tail_cons]
  refine wp_mono (wp_gatherChunks (s := { s with offsetInfo := _ }) _ hb.linked hps hlen) ?_
    (fun _ _ h => h)
  rintro held t ⟨rfl, q, rfl, hq, hnil⟩
  exact ⟨rfl, q, rfl, hb.trans hq, hnil⟩

/-- The session once the other connection is closed for a recovery. -/
def Session.halted (s : Session) (o : Link) : Session := { s with
  trace := .stolen s.toGb o :: s.trace
  conn := update s.conn o { s.conn o with
    enabled := false, fd := .closed, outstanding := [], response := none } }

section

variable {s : Session} {i : Link} {d : Chunk} {ds : List Chunk} {ps : List Subsegment}
  {q : OffsetInfo}

lemma halted_conn (s : Session) (o : Link) : (s.halted o).conn o = { s.conn o with
    enabled := false, fd := .closed, outstanding := [], response := none } :=
  update_self ..

lemma Cursor.halted {φ : Phase} {o : Link} (h : Cursor φ s.toGb o d ds ps) :
    Cursor φ (s.halted o).toGb o d ds ps := by
  have hc := halted_conn s o
  refine ⟨h.parts, ?_, ?_, ?_, ?_, h.head, h.ascending, h.inside, ?_⟩
  · rw [hc]
    exact h.last
  · rw [hc]
    exact h.start
  · rw [hc]
    exact h.slack
  · rw [hc]
    exact h.before
  · have hqueue : (s.halted o).queue o = s.queue o := queueOf_congr (by rw [hc]) (by rw [hc]) _
    rw [hqueue, hc]
    exact h.queue

lemma schedule_robbed (h : Cursor (.reading i) s.toGb i.other d ds ps)
    (hq : s.offsetInfo.Besides i.other q) (hnil : parts i.other q.segments = []) :
    ({ s.halted i.other with offsetInfo := q } : Session).schedule
        (.robbing i ((s.conn i.other).missingOf d :: (ds ++ ps.flatMap Subsegment.chunkList))) =
      s.schedule (.reading i) := by
  simp only [Gb.schedule, Schedule.mk.injEq]
  refine ⟨rfl, rfl, ?_, by simp only [Gb.frontier, hq.lastSegOffset]⟩
  funext j
  obtain rfl | rfl := i.eq_or_other j
  · have hp := (hq.others j (Link.other_ne j).symm).1
    simp only [Gb.queue, Gb.parts, hp, Session.halted, update_of_ne (Link.other_ne j).symm,
      Phase.heldFrom, (Link.other_ne j).symm, if_false]
  · have hp : ({ s.halted i.other with offsetInfo := q } : Session).parts i.other = [] := hnil
    have hnone : ({ s.halted i.other with offsetInfo := q } : Session).queue i.other = [] := by
      rw [Gb.queue, hp]
      rfl
    rw [hnone, h.queue, Phase.heldFrom, if_pos rfl, h.last]
    exact (List.append_nil _).symm

lemma Rep.robbed (hr : Rep (.reading i) s.toGb) (hcur : Cursor (.reading i) s.toGb i.other d ds ps)
    (hq : s.offsetInfo.Besides i.other q) (hnil : parts i.other q.segments = []) :
    Rep (.robbing i ((s.conn i.other).missingOf d :: (ds ++ ps.flatMap Subsegment.chunkList)))
      ({ s.halted i.other with offsetInfo := q } : Session).toGb := by
  have hsch := schedule_robbed hcur hq hnil
  generalize hheld : (s.conn i.other).missingOf d :: (ds ++ ps.flatMap Subsegment.chunkList) = held
    at hsch ⊢
  generalize ht : ({ s.halted i.other with offsetInfo := q } : Session) = t at hsch ⊢
  have hne := Link.other_ne i
  have hpi : t.parts i = s.parts i := ht ▸ (hq.others i hne.symm).1
  have hpo : t.parts i.other = [] := ht ▸ hnil
  have hci : t.conn i = s.conn i := ht ▸ update_of_ne hne.symm ..
  have hco : t.conn i.other = { s.conn i.other with
    enabled := false, fd := .closed, outstanding := [], response := none } := ht ▸ update_self ..
  have hfront : t.frontier = s.frontier := by
    rw [← ht]
    simp only [Gb.frontier, hq.lastSegOffset]
  have hslack : (Phase.reading i).slack i.other = 0 := if_neg hne
  have hle := hcur.slack
  have hlast := hcur.last
  have hstart := hcur.start
  rw [hslack] at hle
  refine ⟨?_, ?_, ?_, ?_, ?_, ?_, fun j => ?_, fun j hj => ?_, ⟨?_, hpo, fun c hc => ?_, ?_⟩, ?_, ?_, ?_⟩
  · exact ht ▸ hr.two
  · exact ht ▸ hr.rates
  · rw [← ht]
    exact hq.initSegSize ▸ hr.initSegSize
  · exact ht ▸ hq.linked
  · rw [← ht]
    exact hq.remaining.trans hr.remaining
  · rw [hfront, ← ht]
    exact hq.lastSegOffset ▸ hr.frontier
  · obtain rfl | rfl := i.eq_or_other j
    · have hlane := hr.lane j
      rw [hpi, hci, hfront, ← ht]
      exact hlane
    · rw [hpo]
      exact ⟨by simp, by simp, by simp, by simp⟩
  · obtain rfl | rfl := i.eq_or_other j
    · rw [← ht]
      exact (hq.connection j hne.symm).trans ((hr.pointer j rfl).trans (hq.others j hne.symm).2.symm)
    · rw [Phase.heldFrom, if_pos rfl, ← hheld] at hj
      cases hj
  · rw [hpi]
    exact hr.fits
  · rw [hfront]
    rw [← hheld] at hc
    obtain ⟨hv, h₀, h₁⟩ := hcur.head
    rcases List.mem_cons.mp hc with rfl | hc
    · exact ⟨⟨rfl, by simp only [Conn.missingOf]; omega⟩, by simp only [Conn.missingOf]; omega, h₁⟩
    · exact hcur.inside c hc
  · rw [hco]
    exact ⟨_, _, hheld.symm, rfl, hlast.symm⟩
  · rw [hsch]
    exact hr.load
  · exact ht ▸ hr.written
  · exact ht ▸ hr.bytesDone

lemma Inv.robbed (h : Inv (.reading i) s) (hun : (s.conn i).pipelineRequestsSent = false)
    (hcur : Cursor (.reading i) s.toGb i.other d ds ps)
    (hq : s.offsetInfo.Besides i.other q) (hnil : parts i.other q.segments = []) :
    Inv (.robbing i ((s.conn i.other).missingOf d :: (ds ++ ps.flatMap Subsegment.chunkList)))
      { s.halted i.other with offsetInfo := q } := by
  have hr := h.rep
  have hsch := schedule_robbed hcur hq hnil
  have hrob := hr.robbed hcur hq hnil
  generalize hheld : (s.conn i.other).missingOf d :: (ds ++ ps.flatMap Subsegment.chunkList) = held
    at hsch hrob ⊢
  generalize ht : ({ s.halted i.other with offsetInfo := q } : Session) = t at hsch hrob ⊢
  have hne := Link.other_ne i
  have hpi : t.parts i = s.parts i := ht ▸ (hq.others i hne.symm).1
  have hpo : t.parts i.other = [] := ht ▸ hnil
  have hci : t.conn i = s.conn i := ht ▸ update_of_ne hne.symm ..
  have hco : t.conn i.other = { s.conn i.other with
    enabled := false, fd := .closed, outstanding := [], response := none } := ht ▸ update_self ..
  have htrace : t.trace = [.stolen s.toGb i.other] ++ s.trace := ht ▸ rfl
  have hparts : s.parts i.other ≠ [] := by
    obtain ⟨p, hp, -⟩ := hcur.parts
    rw [hp]
    exact List.cons_ne_nil _ _
  have hhe : ∀ j, (Phase.robbing i held).heldFrom j = [] → j = i := by
    intro j hj
    obtain rfl | rfl := i.eq_or_other j
    · rfl
    · rw [Phase.heldFrom, if_pos rfl, ← hheld] at hj
      cases hj
  have hall : ∀ {P : Event → Prop}, t.All P → s.All P := fun ha => ((all_append_iff htrace).mp ha).2
  refine ⟨hrob, fun j => ?_, fun ha => ?_, ?_, ?_, fun j => ?_⟩
  · obtain rfl | rfl := i.eq_or_other j
    · rw [hci]
      exact h.goodput j
    · rw [hco]
      exact h.goodput i.other
  · have hw := h.whole (hall ha)
    refine ⟨hsch ▸ hw.balanced, fun j hj hp => ?_, fun hpl => ?_⟩
    · obtain rfl := hhe j hj
      exact absurd (hpi ▸ hp) hr.fits
    · refine hr.not_placeholder hr.fits ⟨?_, ?_⟩
      · rw [← (hpl i).1, ← ht]
        exact (hq.connection i hne.symm).symm
      · have hpl' := (hpl i).2
        rw [hci, ← ht] at hpl'
        exact hpl'
  · refine h.log.extend htrace (by simp [Event.Quiet]) (fun hn => ⟨by rw [← hn, ← ht]; rfl,
      by simp [Event.WritesAll]⟩) (fun hu => by rw [← hu, ← ht]; rfl) (ht ▸ rfl) (ht ▸ rfl) (ht ▸ rfl)
      (fun value hc => ht ▸ hc) ?_
    rintro ⟨j, hj⟩ -
    obtain rfl | rfl := i.eq_or_other j
    · exact absurd hj (hr.not_placeholder hr.fits)
    · exact absurd hj (hr.not_placeholder hparts)
  · refine h.told.extend htrace (by simp) (by simp) (by simp) ?_
    simpa [Event.Sound] using And.intro (h.planning hun) hparts
  · obtain rfl | rfl := i.eq_or_other j
    · exact (h.wire j).frame htrace hci hpi id
    · have hact : ¬ Active (.robbing i held) t.toGb i.other := by
        rintro (he | hb)
        · rw [hco] at he
          cases he
        · exact hne hb
      have hthread : t.All Event.InOrder → (s.conn i.other).setupThread = .none := fun ha =>
        (((all_append_iff htrace).mp ha).1 _ List.mem_cons_self).2.2.2
      refine ⟨fun _ hn => absurd hpo hn, fun _ ha => absurd ha hact, fun ha hth => ?_,
        fun ha hth => ?_, fun ha hth => ?_, fun _ _ => by rw [hco], fun _ ha => absurd ha hact⟩
      · rw [hco] at hth ⊢
        exact (h.wire i.other).state (hall ha) hth
      · rw [hco] at hth
        rw [hthread ha] at hth
        cases hth
      · rcases hth with he | hth
        · exact absurd he hact
        · rw [hco] at hth
          rw [hthread ha] at hth
          cases hth

end

end GreenBag
