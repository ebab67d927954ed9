import GreenBag.Counting
import GreenBag.Starting

/-! When a session is complete, and how much it may have planned and taken over until then. -/

namespace GreenBag

open Programs Ranges Machines

instance : DecidablePred Event.Receipt
  | .wrote _ _ _ => isTrue trivial
  | .writeFailed _ _ => isTrue trivial
  | .inorder _ _ _ => isFalse id
  | .announced _ _ => isFalse id
  | .get _ _ _ _ _ => isFalse id
  | .header _ _ _ _ => isFalse id
  | .stolen _ _ => isFalse id
  | .called _ _ _ => isFalse id

/-- How often bytes came in. -/
def Session.receipts (s : Session) : ℕ := s.trace.countP (fun e => e.Receipt)

/-- A session is complete only when all bytes are done, each write adds to them, and nothing is planned
or taken over but when bytes came in. -/
structure Thrifty (s : Session) : Prop where
  supported : (s.conn .lte).supported
  complete : s.ready = .complete → s.bytesDone = s.size
  writes : (s.outfile.length : ℤ) ≤ s.bytesDone
  segments : s.offsetInfo.segmentCount ≤ s.receipts + 1
  recoveries : s.numRecoveries ≤ s.receipts
  receipts : s.All Event.WritesAll → s.receipts = s.outfile.length

section

variable {s t : Session} {o : Option Link} {n : ℕ × ℕ}

lemma Tallied.receipts (h : Tallied o n s t) : t.receipts = s.receipts := by
  obtain ⟨es, he, hes⟩ := h.trace
  have hnone : es.countP (fun e => e.Receipt) = 0 := List.countP_eq_zero.mpr (by simpa using hes)
  rw [Session.receipts, he, List.countP_append, hnone, Nat.zero_add]
  rfl

lemma Tallied.all {P : Event → Prop} (h : Tallied o n s t) (ha : t.All P) : s.All P := by
  obtain ⟨es, he, -⟩ := h.trace
  exact fun e hm => ha e (he ▸ List.mem_append_right es hm)

lemma Rep.bytesDone_le {φ : Phase} {s : Gb} (h : Rep φ s) : s.bytesDone ≤ s.size := by
  have hsize : 0 ≤ s.size := by
    have h₁ := h.frontier
    simp only [Gb.frontier] at h₁
    omega
  have honce : ∀ b, cover s.outfile b ≤ 1 := by
    intro b
    have hl := h.load b
    rw [h.load_eq] at hl
    omega
  calc s.bytesDone = ∑ b ∈ Finset.Ico 0 s.size, (cover s.outfile b : ℤ) := by
        rw [sum_cover s.outfile s.size h.written, h.bytesDone]
    _ ≤ ∑ _b ∈ Finset.Ico 0 s.size, (1 : ℤ) :=
        Finset.sum_le_sum fun b _ => by exact_mod_cast honce b
    _ = s.size := by simp [hsize]

/-- Where a read was written or lost, the amounts that one planning may spend are paid for. -/
lemma Thrifty.received (h : Thrifty s) (i : Link) {k : ℤ} (hk : 1 ≤ k) (written : Bool)
    (ht : Tallied o (1, 1) (s.received i k written) t) (hle : t.bytesDone ≤ t.size) : Thrifty t := by
  have hcount : (s.received i k written).receipts = s.receipts + 1 := by
    cases written with
    | false => exact List.countP_cons_of_pos (decide_eq_true trivial)
    | true => exact List.countP_cons_of_pos (decide_eq_true trivial)
  have hsup : ((s.received i k written).conn .lte).supported := by
    have hs := h.supported
    by_cases hi : Link.lte = i
    · subst hi
      cases written <;> simpa [Session.received] using hs
    · rwa [conn_received_ne hi]
  have hreceipts := ht.receipts.trans hcount
  refine ⟨ht.supported.trans hsup, fun hc => ?_, ?_, ?_, ?_, fun ha => ?_⟩
  · rcases ht.complete hc with hr | hd | hs
    · cases written with
      | false => exact absurd hr (by simp [Session.received])
      | true =>
        have hdone := h.complete (by simpa [Session.received] using hr)
        rw [ht.bytesDone, ht.size] at hle
        simp only [Session.received, if_true] at hle
        omega
    · rw [ht.bytesDone, ht.size]
      exact hd
    · rw [hsup] at hs
      cases hs
  · rw [ht.outfile, ht.bytesDone]
    have hw := h.writes
    cases written with
    | false => exact hw
    | true =>
      simp only [Session.received, if_true, List.length_cons]
      omega
  · have hs := ht.segments
    have hp := h.segments
    have he : (s.received i k written).offsetInfo = s.offsetInfo := by cases written <;> rfl
    rw [he] at hs
    omega
  · have hs := ht.recoveries
    have hp := h.recoveries
    have he : (s.received i k written).numRecoveries = s.numRecoveries := by cases written <;> rfl
    rw [he] at hs
    omega
  · rw [hreceipts, ht.outfile]
    have hall := ht.all ha
    cases written with
    | false =>
      exact absurd (hall _ List.mem_cons_self) id
    | true =>
      have hs := h.receipts fun e he => hall e (List.mem_cons_of_mem _ he)
      rw [hs]
      rfl

lemma Thrifty.quiet (h : Thrifty s) (ht : Tallied o 0 s t) : Thrifty t := by
  have hsup := h.supported
  refine ⟨ht.supported.trans hsup, fun hc => ?_, ?_, ?_, ?_, fun ha => ?_⟩
  · rw [ht.bytesDone, ht.size]
    rcases ht.complete hc with hr | hd | hs
    · exact h.complete hr
    · exact hd
    · rw [hsup] at hs
      cases hs
  · rw [ht.outfile, ht.bytesDone]
    exact h.writes
  · exact ht.receipts ▸ ht.segments.trans h.segments
  · exact ht.receipts ▸ ht.recoveries.trans h.recoveries
  · rw [ht.receipts, ht.outfile]
    exact h.receipts (ht.all ha)

lemma Thrifty.step (h : Thrifty s) {l : Label} (hl : session.enabled s l)
    (ht : session.exec l s = .ok () t) (hle : t.bytesDone ≤ t.size) : Thrifty t := by
  have htally := ((wp_iff _).mp (wp_exec_tallied l.spares_none hl)).1 () t ht
  cases l with
  | read i r x =>
    cases r with
    | error => exact h.quiet htally
    | closed => exact h.quiet htally
    | bytes k written => exact h.received i hl.2.2.2.2.1 written htally hle
  | check x => exact h.quiet htally
  | setupRequest i connects => exact h.quiet htally
  | setupResponse i reply => exact h.quiet htally
  | announce => exact h.quiet htally
  | selectFailed => exact h.quiet htally
  | stop => exact h.quiet htally

lemma thrifty_of_start (h : session.start s) : Thrifty s := by
  obtain ⟨n, g, ho⟩ := opened_of_start h
  have hu := unspent_of_start h
  have hnone : s.receipts = 0 := by rw [Session.receipts, ho.trace, List.countP_nil]
  refine ⟨hu.supported, fun hc => ?_, ?_, ?_, ?_, fun _ => ?_⟩
  · rw [hu.ready] at hc
    cases hc
  · rw [ho.outfile, ho.bytesDone]
    rfl
  · rw [hnone]
    exact hu.segments
  · rw [hu.recoveries]
    exact Nat.zero_le _
  · rw [hnone, ho.outfile]
    rfl

lemma Session.Reached.thrifty (h : s.Reached) (hf : s.Fits) : Thrifty s := by
  induction h with
  | start hs => exact thrifty_of_start hs
  | step l hr hl _ ht ih =>
    have hinv := Session.Reached.inv (.step l hr hl trivial ht) hf
    exact (ih (hf.before ht)).step hl ht hinv.rep.bytesDone_le

lemma Rep.plan_empty {s : Gb} (h : Rep .rest s) (hc : s.CompleteTo s.size) (i : Link) :
    ∀ r ∈ s.plan i, r.last < r.first := by
  intro r hr
  by_contra hn
  rw [h.plan_eq] at hr
  have hzero := h.not_written (h.mem_ahead_of_queue hr) ⟨le_rfl, not_lt.mp hn⟩
  have hin : 0 ≤ r.first ∧ r.first < s.size := by
    have hp : s.parts i ≠ [] := by
      intro hp
      rw [Gb.queue, hp] at hr
      cases hr
    obtain ⟨d, ds, ps, hcur⟩ := h.cursor hp
    have hf := h.frontier.2
    rw [hcur.queue] at hr
    rcases List.mem_cons.mp hr with rfl | hr
    · have hd := hcur.head
      have hs := hcur.start
      have hl := hcur.last
      simp only [Chunk.Inside] at hd
      simp only at hn ⊢
      omega
    · obtain ⟨c, hc, rfl⟩ := List.mem_map.mp hr
      have hi := hcur.inside c hc
      simp only [Chunk.Inside, Chunk.Valid] at hi
      simp only [Chunk.range] at hn ⊢
      omega
  have hpos := hc r.first hin.1 hin.2 hin.2
  omega

lemma Rep.tiles {s : Gb} (h : Rep .rest s) (hd : s.bytesDone = s.size) : Tiles s.outfile 0 s.size := by
  have hwhole := h.completeTo_size hd
  apply tiles_of_cover
  intro b
  have hl := h.load b
  rw [h.load_eq] at hl
  split_ifs with hb
  · have hp := hwhole b hb.1 hb.2 hb.2
    omega
  · apply cover_eq_zero_iff.mpr
    intro r hr hm
    have hw := h.written r hr
    have hm := Range.mem_iff.mp hm
    omega

end

/-- A session that calls itself complete, and in which no share overflowed, has written each byte of the
file once and nothing else, and no connection has anything left to fetch. -/
theorem complete_whole {s : Session} (h : s.Reached) (hf : s.Fits) (hc : s.ready = .complete) :
    Tiles s.outfile 0 s.size ∧ s.bytesDone = s.size ∧ (∀ i, ∀ r ∈ s.plan i, r.last < r.first) ∧
      s.unassigned.last < s.unassigned.first := by
  have hrep := (h.inv hf).rep
  have hdone := (h.thrifty hf).complete hc
  have hwhole := hrep.completeTo_size hdone
  refine ⟨hrep.tiles hdone, hdone, hrep.plan_empty hwhole, ?_⟩
  by_contra hn
  have hmem : s.unassigned ∈ s.ahead [] := by simp [Gb.ahead]
  have hzero := hrep.not_written hmem ⟨le_rfl, not_lt.mp hn⟩
  have hf := hrep.frontier
  simp only [Gb.unassigned] at hn hzero
  have hpos := hwhole (s.offsetInfo.lastSegOffset + 1) (by omega) (by omega) (by omega)
  omega

/-- Two connections that are read in turn, to the last byte. -/
def wholeSteps : List Label :=
  upSteps .lte ++ upSteps .wifi ++ [readStep .wifi 4, readStep .lte 4, readStep .lte 4, readStep .wifi 4,
    .check againInputs]

theorem complete_whole_of_two : ∃ s : Session, s.size = 16 ∧
    Tiles s.outfile 0 s.size ∧ s.bytesDone = s.size ∧ (∀ i, ∀ r ∈ s.plan i, r.last < r.first) ∧
      s.unassigned.last < s.unassigned.first := by
  obtain ⟨s, hs, hf, hc, hsize⟩ := exists_of_reaches plainConf 16 wholeSteps
    (P := fun s => s.Fits ∧ s.ready = .complete ∧ s.size = 16) (by decide +kernel) (by decide)
    (by decide +kernel)
  exact ⟨s, hsize, complete_whole hs hf hc⟩

end GreenBag
