import GreenBag.Starting

/-! What a recovery moves: all the other connection has left, and the next bytes of the file. -/

namespace GreenBag

open Programs Ranges Schedules Function

/-- The new part of the file a recovery adds: a segment of the initial size or more, fitted to the
file. -/
def Gb.Extends (s : Gb) (additive : ℤ) : Prop :=
  ∃ wanted, (s.conf.fixedSegmentMode → wanted = s.offsetInfo.initSegSize) ∧
    s.offsetInfo.initSegSize ≤ wanted ∧ additive = s.clipSegSize wanted

/-- All that was pending on the other connection is moved to the tail segment `g`, and the next bytes
of the file are added to it. -/
structure Recovered (s : Gb) (i : Link) (additive : ℤ) (front : List Segment) (g : Segment) (t : Gb) :
    Prop where
  segments : t.offsetInfo.segments = front ++ [g]
  recovery : g.recoverySegment
  moved : ∃ held, g.chunkList = held ++ freshChunks s.frontier additive ∧
    (held.map Chunk.range).Perm (s.plan i.other)
  ascending : Ascending g.chunkList
  valid : ∀ c ∈ g.chunkList, c.Valid
  size : g.size = sizeSum g.chunkList
  bare : ∀ j, g.subsegment j = none
  /-- The other segments are those from before without the parts of the other connection; only
  finished ones are freed. -/
  kept : ∃ gone, s.offsetInfo.segments.map (·.setSubsegment i.other none) = gone ++ front ∧
    ∀ k ∈ gone, k.Finished
  cleared : ∀ k ∈ front, k.subsegment i.other = none
  parts : t.parts i = s.parts i
  conn : t.conn i = s.conn i
  connection : t.offsetInfo.connection i = s.offsetInfo.connection i
  pointed : t.offsetInfo.connection i.other = some g.id
  live : ∃ id k, t.offsetInfo.connection i = some id ∧ t.offsetInfo.deref id = some k ∧
    k.subsegment i ≠ none
  offset : t.offsetInfo.lastSegOffset = s.offsetInfo.lastSegOffset + additive
  inside : t.offsetInfo.lastSegOffset ≤ s.size - 1

section

variable {i : Link} {s t : Session} {held : List Chunk} {n : ℤ}

lemma Rep.cover_held_fresh {s : Gb} (h : Rep (.robbing i held) s) (hn : s.frontier + n ≤ s.size)
    (b : ℤ) : cover ((held ++ freshChunks s.frontier n).map Chunk.range) b ≤ 1 := by
  have hl := h.load b
  simp only [Schedule.load, Gb.schedule, Schedule.unassigned, cover_append, sum_link] at hl
  have hheld : cover (((Phase.robbing i held).heldFrom .lte).map Chunk.range) b +
      cover (((Phase.robbing i held).heldFrom .wifi).map Chunk.range) b =
        cover (held.map Chunk.range) b := by
    cases i <;> simp [Phase.heldFrom, Link.other]
  have hfresh : cover [⟨s.frontier, s.frontier + n - 1⟩] b ≤ cover [⟨s.frontier, s.size - 1⟩] b := by
    simp only [cover_singleton, Ranges.Range.mem_iff]
    split_ifs <;> omega
  rw [List.map_append, cover_append, cover_freshChunks]
  omega

/-- A sorted list that has the next bytes of the file in it ends with them. -/
lemma eq_append_fresh {cs : List Chunk} {frontier : ℤ} (hn : 0 ≤ n) (ha : Ascending cs)
    (hin : ∀ c ∈ held, c.Inside frontier) (hp : cs.Perm (held ++ freshChunks frontier n)) :
    ∃ held', cs = held' ++ freshChunks frontier n ∧ held'.Perm held := by
  rw [freshChunks] at hp ⊢
  split_ifs at hp ⊢ with h₀
  · rw [List.append_nil] at hp
    exact ⟨cs, by simp, hp⟩
  · have hm : newChunk frontier n ∈ cs := hp.mem_iff.mpr (by simp)
    obtain ⟨pre, post, rfl⟩ := List.append_of_mem hm
    have hpost : post = [] := by
      refine List.eq_nil_iff_forall_not_mem.mpr fun c hc => ?_
      have hlt := (List.pairwise_cons.mp (List.pairwise_append.mp ha).2.1).1 c hc
      have hmem : c ∈ held ++ [newChunk frontier n] := hp.mem_iff.mp (by simp [hc])
      simp only [newChunk] at hlt
      rcases List.mem_append.mp hmem with hc | hc
      · obtain ⟨hv, -, hlast⟩ := hin c hc
        have h₁ := hv.1
        have h₂ := hv.2
        omega
      · rw [List.mem_singleton.mp hc] at hlt
        simp only [newChunk] at hlt
        omega
    rw [hpost] at hp ⊢
    exact ⟨pre, rfl, (List.perm_append_right_iff _).mp hp⟩

lemma Cursor.held_range {o : Link} {d : Chunk} {ds : List Chunk} {ps : List Subsegment}
    (h : Cursor (.reading i) s.toGb o d ds ps) (hr : Rep (.reading i) s.toGb) :
    ((s.conn o).missingOf d :: (ds ++ ps.flatMap Subsegment.chunkList)).map Chunk.range = s.plan o := by
  rw [hr.plan_eq, h.queue, h.last]
  rfl

lemma recovered_of_push {q : OffsetInfo} {d : Chunk} {ds : List Chunk} {ps : List Subsegment}
    {idle : Link → Bool} {cs : List Chunk} {g : Segment} {last : Chunk}
    (hr : Rep (.reading i) s.toGb) (hcur : Cursor (.reading i) s.toGb i.other d ds ps)
    (hq : s.offsetInfo.Besides i.other q) (hnil : parts i.other q.segments = [])
    (hheld : held = (s.conn i.other).missingOf d :: (ds ++ ps.flatMap Subsegment.chunkList))
    (hn : 0 ≤ n) (hfit : s.frontier + n ≤ s.size) (hcs : cs = held ++ freshChunks s.frontier n)
    (hg : bareSegment (q.segmentCount + 1) true (sortingChunks cs) (cs.map Chunk.size).sum = g)
    (hlast : g.chunkList.getLast? = some last) (hconn : t.conn = (s.halted i.other).conn)
    (ht : t.offsetInfo = { ({ q with connIdle := idle }).push g last.lastByte with
      connection := update q.connection i.other (some (q.segmentCount + 1)) }) :
    Recovered s.toGb i n q.segments g t.toGb := by
  have hne := i.other_ne
  have hsegs : t.offsetInfo.segments = q.segments ++ [g] := by
    rw [ht]
    rfl
  have hperm : g.chunkList.Perm (held ++ freshChunks s.frontier n) := hcs ▸ hg ▸ sortingChunks_perm cs
  have hsorted : ByStart g.chunkList := hg ▸ sortingChunks_byStart cs
  have hbare : ∀ j, g.subsegment j = none := fun _ => hg ▸ rfl
  have hrob := hheld ▸ hr.robbed hcur hq hnil
  have hfront : ({ s.halted i.other with offsetInfo := q } : Session).frontier = s.frontier := by
    simp only [Gb.frontier, hq.lastSegOffset]
  have hin : ∀ c ∈ held, c.Inside s.frontier := hfront ▸ hrob.held_inside
  have hf := hr.frontier.1
  have hvalid : ∀ c ∈ g.chunkList, c.Valid := by
    intro c hc
    rcases List.mem_append.mp (hperm.mem_iff.mp hc) with hm | hm
    · exact (hin c hm).1
    · exact (freshChunks_inside (by simp only [Gb.frontier]; omega) hn c hm).1
  have hasc : Ascending g.chunkList := by
    refine ascending_of_byStart hsorted hvalid fun b => ?_
    rw [cover_perm (hperm.map Chunk.range), ← hfront]
    exact hrob.cover_held_fresh (hfront ▸ hfit) b
  have hoffset : t.offsetInfo.lastSegOffset = s.offsetInfo.lastSegOffset + n := by
    rw [ht, OffsetInfo.push, hq.lastSegOffset]
    exact last_of_sorted hn hperm hsorted hin hlast
  have hlinked : t.offsetInfo.Linked := by
    have hp := (OffsetInfo.Linked.push (o := { q with connIdle := idle }) ⟨hq.linked.1, hq.linked.2,
      hq.linked.3, hq.linked.4⟩ (g := g) (hg ▸ rfl) last.lastByte)
    rw [ht]
    exact ⟨hp.1, hp.2, hp.3, hp.4⟩
  have hparts : t.parts i = s.parts i := by
    rw [Gb.parts, hsegs, (parts_bare (hbare i) _).1]
    exact (hq.others i hne.symm).1
  have hpoint : t.offsetInfo.connection i = s.offsetInfo.connection i := by
    rw [ht]
    exact (update_of_ne hne.symm ..).trans (hq.connection i hne.symm)
  obtain ⟨gone, hgone, hfin⟩ := hq.kept
  have hclear : ∀ k ∈ q.segments, k.subsegment i.other = none := parts_eq_nil.mp hnil
  refine
    { segments := hsegs, recovery := hg ▸ rfl, moved := ?_, ascending := hasc, valid := hvalid
      size := ?_, bare := hbare, kept := ⟨gone, ?_, hfin⟩, cleared := hclear, parts := hparts
      conn := ?_, connection := hpoint, pointed := ?_, live := ?_, offset := hoffset, inside := ?_ }
  · obtain ⟨held', hsort, hp⟩ := eq_append_fresh hn hasc hin hperm
    refine ⟨held', hsort, ?_⟩
    rw [← hcur.held_range hr, ← hheld]
    exact hp.map Chunk.range
  · rw [← hg]
    exact ((sortingChunks_perm cs).map Chunk.size).sum_eq.symm
  · have hid : q.segments.map (·.setSubsegment i.other none) = q.segments := by
      refine (List.map_congr_left fun k hk => ?_).trans (List.map_id _)
      rw [Segment.setSubsegment, ← hclear k hk, update_eq_self]
      rfl
    rw [hgone, hid]
  · rw [hconn]
    exact update_of_ne hne.symm ..
  · rw [ht, ← hg]
    exact update_self ..
  · obtain ⟨p, ps, hp⟩ := List.exists_cons_of_ne_nil (show t.parts i ≠ [] from hparts ▸ hr.fits)
    obtain ⟨pre, k, post, hs, hpre, hk, -⟩ := exists_split hp
    refine ⟨k.id, k, ?_, hlinked.deref_eq hs, by simp [hk]⟩
    rw [hpoint, hr.pointer i rfl, ← (hq.others i hne.symm).2, ← (parts_bare (hbare i) _).2, ← hsegs, hs]
    exact firstWith_split hpre hk
  · rw [hoffset]
    simp only [Gb.frontier] at hfit
    omega

/-- The rest of a recovery, once the chunks are held: whatever the policy did to the marks of idle
connections, the new segment is added and the other connection is pointed to it. -/
lemma wp_addRecovered {crash : Fault → Session → Prop} {q : OffsetInfo} {d : Chunk} {ds : List Chunk}
    {ps : List Subsegment} {idle : Link → Bool} {wanted : ℤ} (hr : Rep (.reading i) s.toGb)
    (hcur : Cursor (.reading i) s.toGb i.other d ds ps) (hq : s.offsetInfo.Besides i.other q)
    (hnil : parts i.other q.segments = [])
    (hheld : held = (s.conn i.other).missingOf d :: (ds ++ ps.flatMap Subsegment.chunkList))
    (hle : s.offsetInfo.initSegSize ≤ wanted)
    (hfix : s.conf.fixedSegmentMode → wanted = s.offsetInfo.initSegSize) (hsize : t.size = s.size)
    (hconn : t.conn = (s.halted i.other).conn) (ho : t.offsetInfo = { q with connIdle := idle }) :
    wp (do
      let s ← get
      let additive := s.clipSegSize wanted
      let chunkList ← (if additive ≠ 0 then do
          let start ← getStartByteNextSegment
          pure (addNewChunk held start additive)
        else pure held)
      let id ← addNewSegment true chunkList (chunkList.map Chunk.size).sum
      modifyOffsetInfo fun o => { o with connection := update o.connection i.other (some id) })
      (fun _ u => ∃ additive front g, s.Extends additive ∧ Recovered s.toGb i additive front g u.toGb)
      crash t := by
  have hinit := hr.initSegSize
  obtain ⟨h₀, hfit⟩ := Gb.clipSegSize_fits hr (show 0 ≤ wanted by omega)
  have hclip : t.clipSegSize wanted = s.clipSegSize wanted := by
    rw [Gb.clipSegSize, Gb.clipSegSize, ho, hsize, hq.lastSegOffset, hq.initSegSize]
  have hfront : t.frontier = s.frontier := by
    rw [Gb.frontier, Gb.frontier, ho, hq.lastSegOffset]
  have hlinked : t.offsetInfo.Linked := by
    rw [ho]
    exact ⟨hq.linked.1, hq.linked.2, hq.linked.3, hq.linked.4⟩
  have hpush : ∀ cs, cs = held ++ freshChunks s.frontier (s.clipSegSize wanted) →
      wp (addNewSegment true cs (cs.map Chunk.size).sum >>= fun id => modifyOffsetInfo fun o =>
        { o with connection := update o.connection i.other (some id) })
        (fun _ u => ∃ additive front g, s.Extends additive ∧
          Recovered s.toGb i additive front g u.toGb) crash t := by
    intro cs hcs
    rw [wp_bind]
    refine wp_addNewSegment hlinked (fun hn => ?_) fun last hlast => ?_
    · rw [hcs, hheld] at hn
      cases hn
    · rw [wp_modifyOffsetInfo, ho]
      exact ⟨_, _, _, ⟨wanted, hfix, hle, rfl⟩,
        recovered_of_push hr hcur hq hnil hheld h₀ hfit hcs rfl hlast hconn rfl⟩
  rw [wp_bind, wp_get, hclip, wp_bind, wp_ite]
  refine ⟨fun hne => ?_, fun hz => hpush held ?_⟩
  · rw [wp_bind]
    refine wp_getStartByteNextSegment (fun hn => ?_) (hpush _ ?_)
    · rw [hlinked.tail_eq, ho] at hn
      have hempty : parts i q.segments = [] := by
        rw [List.getLast?_eq_none_iff.mp (Option.map_eq_none_iff.mp hn)]
        rfl
      exact absurd ((hq.others i i.other_ne.symm).1.symm.trans hempty) hr.fits
    · rw [freshChunks, if_neg hne, hfront]
      rfl
  · rw [freshChunks, if_pos (by simpa using hz), List.append_nil]

/-- In each state in which connection `i` recovers from the other one, and before which no share
overflows, exactly what the other one had to fetch is moved, with the next bytes of the file. Nothing but
the assertion of the policy for variable segment sizes can fail. -/
theorem recovery_moves {s : Session} (h : s.Seen) : ∀ s' i, s.FitsTo (.stolen s' (Link.other i)) →
    ∀ t : Session, t.toGb = s' → wp (recoverOutorderPortionAndNextSegment i)
      (fun _ u => ∃ additive front g, s'.Extends additive ∧ Recovered s' i additive front g u.toGb)
      (fun e _ => e = .assertInorder ∧ s'.conf.fixedSegmentMode = false) (t.halted i.other) := by
  intro s' i hm t ht
  subst ht
  obtain ⟨hplan, hparts⟩ : Planning i.other.other t.toGb ∧ t.parts i.other ≠ [] := h.sound hm
  rw [Link.other_other] at hplan
  have hr := hplan.rep
  obtain ⟨d, ds, ps, hcur⟩ := hr.cursor hparts
  simp only [recoverOutorderPortionAndNextSegment]
  rw [wp_bind]
  refine wp_mono (wp_detachChunks (s := t.halted i.other) hr.linked hcur.halted (hr.pointer i.other rfl))
    ?_ (fun _ _ h => h.elim)
  rintro held u ⟨hheld, q, rfl, hq, hnil⟩
  have hmiss : ((t.halted i.other).conn i.other).missingOf d = (t.conn i.other).missingOf d := by
    rw [halted_conn]
    rfl
  rw [hmiss] at hheld
  have hq : t.offsetInfo.Besides i.other q := hq
  have hrob := hheld ▸ hr.robbed hcur hq hnil
  rw [wp_bind, wp_get, wp_bind, wp_ite]
  refine ⟨fun hfix => ?_, fun hvar => ?_⟩
  · exact wp_addRecovered hr hcur hq hnil hheld hq.initSegSize.ge (fun _ => hq.initSegSize) rfl rfl rfl
  · refine wp_gbDetermineNextSegmentPolicy_found hrob held 
      (fun _ _ _ _ => ⟨rfl, Bool.eq_false_of_not_eq_true hvar⟩) ?_
    exact fun v wanted hle _ hs hc ho => wp_addRecovered hr hcur hq hnil hheld
      (hq.initSegSize.ge.trans hle) (fun hf => absurd hf hvar) hs hc ho

end

theorem recovery_moves_of_two : ∃ s : Session, s.numRecoveries = 1 ∧
    ∀ s' i, .stolen s' (Link.other i) ∈ s.trace → ∀ t : Session, t.toGb = s' →
      wp (recoverOutorderPortionAndNextSegment i)
        (fun _ u => ∃ additive front g, s'.Extends additive ∧ Recovered s' i additive front g u.toGb)
        (fun e _ => e = .assertInorder ∧ s'.conf.fixedSegmentMode = false) (t.halted i.other) := by
  obtain ⟨s, hs, hn⟩ := exists_of_reaches recoveringConf 3600 retakingSteps
    (P := fun s => s.numRecoveries = 1 ∧ s.Fits) (by decide +kernel) (by decide) (by decide +kernel)
  exact ⟨s, hn.1, fun s' i hm => recovery_moves (.inl hs) s' i (hn.2.fitsTo hm)⟩

/-- Ten times as much for the first connection at the start; from then on goodputs decide. -/
def lopsidedConf : Conf := { recoveringConf with
  bufferSize := 100000
  numOfSegments := 5
  initialChunkRate := fun i => if i = .lte then 10 else 1
  fixedSubsegmentMode := false }

/-- As `lateInputs`, but with other times. -/
def timedInputs (lte wifi : ℚ) : Inputs := { lateInputs with
  elapsed := fun i => if i = .lte then lte else wifi }

/-- At its first recovery the first connection has a goodput of `2 ^ 32 - 1`, which is -1 as an `int`. -/
def overflowingSteps : List Label :=
  upSteps .lte ++ upSteps .wifi ++ [readStep .wifi 1, readStep .lte 4914,
    .read .lte (.bytes 1 true) (timedInputs (4915 / (2 ^ 32 - 1)) (1 / 66)), readStep .lte 1,
    .read .wifi (.bytes 1 true) (timedInputs 1 (1 / 300)), readStep .lte 22,
    .read .lte (.bytes 892 true) lateInputs]

/-- A recovery leaves a tail with chunks out of order. -/
def Event.overlaps : Event → Bool
  | .stolen s' .wifi => LeadsTo (recoverOutorderPortionAndNextSegment .lte)
      (fun u => u.offsetInfo.segments.getLast?.any fun g => ¬ Ascending g.chunkList)
      (({ s' with statics := freshStatics, trace := [] } : Session).halted .wifi)
  | _ => false

/-- A share of -100 bytes made chunks overlap, which the next recovery gathers. -/
theorem recovery_overlaps : ∃ s : Session, s.Reached ∧ s.exact = false ∧
    ∃ s', .stolen s' .wifi ∈ s.trace ∧ ∃ t u : Session, t.toGb = s' ∧ t.exact = false ∧
      recoverOutorderPortionAndNextSegment .lte (t.halted .wifi) = .ok () u ∧
      ∃ g, u.offsetInfo.segments.getLast? = some g ∧ ¬ Ascending g.chunkList := by
  obtain ⟨s, hs, hex, hc⟩ := exists_of_reaches lopsidedConf 30000 overflowingSteps
    (P := fun s => s.exact = false ∧ s.trace.any Event.overlaps) (by decide +kernel) (by decide)
    (by decide +kernel)
  obtain ⟨e, he, hz⟩ := List.any_eq_true.mp hc
  unfold Event.overlaps at hz
  split at hz
  · rename_i s'
    obtain ⟨u, hu, hlast⟩ := exists_of_ok (of_decide_eq_true hz)
    obtain ⟨g, hg, hasc⟩ := (Option.any_eq_true ..).mp hlast
    exact ⟨s, hs, hex, s', he, _, u, rfl, rfl, hu, g, hg, of_decide_eq_true hasc⟩
  · cases hz

end GreenBag
