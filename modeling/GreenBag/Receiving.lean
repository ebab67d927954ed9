import GreenBag.Frames

/-! Bytes received and written: the cursor moves on, and what was asked for is less. -/

namespace GreenBag

open Programs Ranges Schedules Function

lemma Chunk.Inside.mono {m n : ℤ} {c : Chunk} (h : c.Inside m) (hmn : m ≤ n) : c.Inside n :=
  ⟨h.1, h.2.1, lt_of_lt_of_le h.2.2 hmn⟩

lemma Subsegment.Good.mono {m n : ℤ} {p : Subsegment} (h : p.Good m) (hmn : m ≤ n) : p.Good n :=
  ⟨h.nonempty, fun c hc => (h.inside c hc).mono hmn, h.ascending, h.size_nonneg⟩

lemma Lane.mono {m n slack : ℤ} {done done' : List Range} {c : Conn} {ps : List Subsegment}
    (h : Lane m slack done c ps) (hmn : m ≤ n) (hd : ∀ b, 0 < cover done b → 0 < cover done' b) :
    Lane n slack done' c ps := by
  refine ⟨fun p hp => (h.good p hp).mono hmn, fun p qs d ds hp hds => ?_, h.flag, h.sized⟩
  obtain ⟨h₁, h₂, h₃, h₄⟩ := h.cursor p qs d ds hp hds
  exact ⟨h₁, h₂, h₃, fun b hb hc => hd b (h₄ b hb hc)⟩

section Cursor

variable {φ : Phase} {s : Gb} {i : Link}

/-- Where the cursor of a connection with something left stands. -/
structure Cursor (φ : Phase) (s : Gb) (i : Link) (d : Chunk) (ds : List Chunk)
    (ps : List Subsegment) : Prop where
  parts : ∃ p, s.parts i = p :: ps ∧ p.chunkList = d :: ds
  last : (s.conn i).lastbyte = d.lastByte
  start : d.startByte ≤ (s.conn i).currentbyte
  slack : (s.conn i).currentbyte ≤ (s.conn i).lastbyte + φ.slack i
  before : ∀ b, d.startByte ≤ b → b < (s.conn i).currentbyte → 0 < cover s.outfile b
  head : d.Inside s.frontier
  ascending : Ascending (d :: ds)
  inside : ∀ c ∈ ds ++ ps.flatMap Subsegment.chunkList, c.Inside s.frontier
  queue : s.queue i = ⟨(s.conn i).currentbyte, (s.conn i).lastbyte⟩ ::
    (ds ++ ps.flatMap Subsegment.chunkList).map Chunk.range

lemma Rep.cursor (h : Rep φ s) (hp : s.parts i ≠ []) : ∃ d ds ps, Cursor φ s i d ds ps := by
  obtain ⟨p, ps, hp⟩ := List.exists_cons_of_ne_nil hp
  have hlane := h.lane i
  rw [hp] at hlane
  have hgood := hlane.good p List.mem_cons_self
  obtain ⟨d, ds, hds⟩ := List.exists_cons_of_ne_nil hgood.nonempty
  obtain ⟨h₁, h₂, h₃, h₄⟩ := hlane.cursor p ps d ds rfl hds
  refine ⟨d, ds, ps, ⟨p, hp, hds⟩, h₁, h₂, h₃, h₄, hgood.inside d (by simp [hds]),
    hds ▸ hgood.ascending, fun c hc => ?_, by rw [Gb.queue, hp, queueOf, hds]; rfl⟩
  rcases List.mem_append.mp hc with hc | hc
  · exact hgood.inside c (by simp [hds, hc])
  · obtain ⟨q, hq, hc⟩ := List.mem_flatMap.mp hc
    exact (hlane.good q (List.mem_cons_of_mem _ hq)).inside c hc

lemma dropWhile_empty {cs : List Chunk} (h : ∀ c ∈ cs, c.Valid) :
    (cs.map Chunk.range).dropWhile (fun r => r.last < r.first) = cs.map Chunk.range := by
  cases cs with
  | nil => rfl
  | cons c cs =>
    obtain ⟨h₁, h₂⟩ := h c List.mem_cons_self
    have hc : ¬ c.range.last < c.range.first := by
      simp only [Chunk.range]
      omega
    exact List.dropWhile_cons_of_neg (by simpa using hc)

variable {d : Chunk} {ds : List Chunk} {ps : List Subsegment}

/-- All that is queued is wanted, unless the current chunk was read to its end. -/
lemma Cursor.wanted (h : Cursor φ s i d ds ps) :
    s.wanted i = if (s.conn i).currentbyte ≤ (s.conn i).lastbyte then s.queue i
      else (s.queue i).tail := by
  have hd := dropWhile_empty (fun c hc => (h.inside c hc).1)
  rw [Gb.wanted, h.queue]
  split_ifs with hc
  · exact List.dropWhile_cons_of_neg (by simpa using hc)
  · rw [List.dropWhile_cons_of_pos (by simpa using hc), hd, List.tail_cons]

end Cursor

lemma consume_cons {n a c : ℤ} {cs : List Chunk} (h : ∀ d ∈ cs, d.Valid) :
    consume n (⟨a, c⟩ :: cs.map Chunk.range) =
      ((⟨a + n, c⟩ : Range) :: cs.map Chunk.range).dropWhile (fun r => r.last < r.first) := by
  rw [consume]
  split_ifs with hc
  · rw [List.dropWhile_cons_of_pos (by simpa using hc), dropWhile_empty h]
  · rw [List.dropWhile_cons_of_neg (by simpa using hc)]

section

variable {s : Session} {i : Link}

/-- The session once bytes were received; `written` tells whether they could be written. -/
def Session.received (s : Session) (i : Link) (n : ℤ) (written : Bool) : Session :=
  let c := s.conn i
  let s' : Session := { s with conn := update s.conn i { c with outstanding := consume n c.outstanding } }
  let r : Range := ⟨c.currentbyte, c.currentbyte + n - 1⟩
  if written then { s with
    conn := update s.conn i { c with
      outstanding := consume n c.outstanding, currentbyte := c.currentbyte + n,
      bytesDone := c.bytesDone + n }
    bytesDone := s.bytesDone + n
    outfile := r :: s.outfile
    trace := .wrote s'.toGb i r :: s.trace }
  else { s' with ready := .error, trace := .writeFailed s'.toGb i :: s.trace }

lemma wp_writeReceivedData {Q : Unit → Session → Prop} {C : Fault → Session → Prop} (n : ℤ)
    (written : Bool) (hi : i ∈ s.links) (hp : Q () (s.received i n written)) :
    wp (do
      modifyConn i fun c => { c with outstanding := consume n c.outstanding }
      writeReceivedData i n written) Q C s := by
  have hl : ∀ f, i ∈ ({ s with conn := f } : Session).links := fun _ => hi
  cases written <;> simpa [writeReceivedData, Session.received, hl] using hp

lemma Rep.busy {s : Gb} {i : Link} (h : Rep .rest s) (hp : s.parts i ≠ []) : Rep (.reading i) s := by
  obtain ⟨h₁, h₂, h₃, h₄, h₅, h₆, h₇, h₈, -, h₁₀, h₁₁, h₁₂⟩ := h
  refine ⟨h₁, h₂, h₃, h₄, h₅, h₆, fun j => ?_, h₈, hp, h₁₀, h₁₁, h₁₂⟩
  obtain ⟨hg, hc, hf, hz⟩ := h₇ j
  refine ⟨hg, fun p qs d ds hps hds => ?_, hf, hz⟩
  obtain ⟨hl, hs, hle, hb⟩ := hc p qs d ds hps hds
  refine ⟨hl, hs, hle.trans ?_, hb⟩
  simp only [Phase.slack]
  split_ifs <;> omega

lemma conn_received_ne {n : ℤ} {written : Bool} {j : Link} (hj : j ≠ i) :
    (s.received i n written).conn j = s.conn j := by
  cases written <;> simp [Session.received, update_of_ne hj]

lemma Inv.lost (h : Inv .rest s) (hi : (s.conn i).enabled) (hp : s.parts i ≠ []) (n : ℤ) :
    Inv (.reading i) (s.received i n false) := by
  have hconn : (s.received i n false).conn i =
      { s.conn i with outstanding := consume n (s.conn i).outstanding } := update_self ..
  have halike : Alike s.toGb (s.received i n false).toGb := by
    have hcur : ∀ j, ∃ o, (s.received i n false).conn j = { s.conn j with outstanding := o } := by
      intro j
      by_cases hj : j = i
      · subst hj
        exact ⟨_, hconn⟩
      · exact ⟨(s.conn j).outstanding, conn_received_ne hj⟩
    refine ⟨rfl, rfl, rfl, rfl, fun j => ?_, fun j => ?_, fun j _ hf => ?_, id, fun _ => rfl,
      fun _ => rfl, rfl, rfl, rfl, rfl⟩ <;> obtain ⟨o, ho⟩ := hcur j <;> rw [ho]
    exact hf
  have ht : (s.received i n false).trace = [_] ++ s.trace := rfl
  have hlost : ∀ {P : Event → Prop}, (∀ s' j, ¬ P (.writeFailed s' j)) →
      ¬ (s.received i n false).All P := fun hP ha => hP _ _ (ha _ List.mem_cons_self)
  have hno : ¬ (s.received i n false).All Event.InOrder := hlost fun _ _ h => h.1
  refine ⟨halike.rep (h.rep.busy hp), fun j => ?_, fun ha => absurd ha (hlost fun _ _ => id),
    h.log.extend ht (by simp [Event.Quiet]) (fun hr => by cases hr) id rfl rfl rfl
      (fun _ => (halike.completeTo _).mpr) (fun hp _ => by simpa only [halike.placeholder] using hp),
    h.told.extend ht (by simp) (fun _ => by simp) (fun _ => by simp) (by simp [Event.Sound]),
    fun j => ?_⟩
  · by_cases hj : j = i
    · rw [hj, hconn]
      exact h.goodput i
    · rw [conn_received_ne hj]
      exact h.goodput j
  · by_cases hj : j = i
    · subst hj
      exact (h.wire j).carry ht rfl (by rw [hconn]) (by rw [hconn]) (by rw [hconn]) (by rw [hconn])
        (by rw [hconn]) (fun _ => .inl hi) (fun ha => absurd ha hno) (fun ha => absurd ha hno)
    · exact (h.wire j).frame ht (conn_received_ne hj) rfl fun hb => absurd hb hj

lemma Inv.wrote (h : Inv .rest s) (hi : (s.conn i).enabled) (hp : s.parts i ≠ []) {n : ℤ}
    (h₁ : 1 ≤ n) (hn : n ≤ (s.conn i).lastbyte - (s.conn i).currentbyte + 1) :
    Inv (.reading i) (s.received i n true) := by
  obtain ⟨d, ds, ps, hcur⟩ := h.rep.cursor hp
  have hd := hcur.head
  have hstart := hcur.start
  have hlast := hcur.last
  have hf := h.rep.frontier.2
  have hconn : (s.received i n true).conn i = { s.conn i with
      outstanding := consume n (s.conn i).outstanding,
      currentbyte := (s.conn i).currentbyte + n, bytesDone := (s.conn i).bytesDone + n } :=
    update_self ..
  have hqueue : (s.received i n true).queue i = ⟨(s.conn i).currentbyte + n, (s.conn i).lastbyte⟩ ::
      (ds ++ ps.flatMap Subsegment.chunkList).map Chunk.range := by
    obtain ⟨p, hp, hds⟩ := hcur.parts
    have hp' : (s.received i n true).parts i = p :: ps := hp
    rw [Gb.queue, hp', queueOf, hconn, hds]
    rfl
  have hstep : Schedule.Step (s.schedule .rest) ((s.received i n true).schedule (.reading i)) := by
    have hq : (s.schedule .rest).queue i = ⟨(s.conn i).currentbyte, (s.conn i).lastbyte⟩ ::
        (ds ++ ps.flatMap Subsegment.chunkList).map Chunk.range := by
      simp [Gb.schedule, hcur.queue, Phase.heldFrom]
    have heq : (s.received i n true).schedule (.reading i) = { s.schedule .rest with
        done := ⟨(s.conn i).currentbyte, (s.conn i).currentbyte + n - 1⟩ :: s.outfile
        queue := update (s.schedule .rest).queue i
          (⟨(s.conn i).currentbyte + n, (s.conn i).lastbyte⟩ ::
            (ds ++ ps.flatMap Subsegment.chunkList).map Chunk.range) } := by
      simp only [Gb.schedule, Schedule.mk.injEq]
      refine ⟨rfl, rfl, ?_, rfl⟩
      funext j
      by_cases hj : j = i
      · subst hj
        rw [update_self, hqueue]
        exact List.append_nil _
      · rw [update_of_ne hj, Gb.queue, conn_received_ne hj]
        rfl
    rw [heq]
    exact .fetch i hq (by omega) (by omega)
  have ht : (s.received i n true).trace = [_] ++ s.trace := rfl
  have hall : ∀ {P : Event → Prop}, (s.received i n true).All P → s.All P :=
    fun ha => ((all_append_iff ht).mp ha).2
  have hdone : ∀ b, cover (s.received i n true).outfile b =
      (if b ∈ (⟨(s.conn i).currentbyte, (s.conn i).currentbyte + n - 1⟩ : Range) then 1 else 0) +
        cover s.outfile b := fun b => cover_cons ..
  have hmore : ∀ b, 0 < cover s.outfile b → 0 < cover (s.received i n true).outfile b := fun b hb => by
    rw [hdone]
    omega
  have hr := h.rep.busy hp
  refine ⟨⟨hr.1, hr.2, hr.3, hr.4, hr.5, hr.6, fun j => ?_, hr.8, hp, fun b => ?_, ?_, ?_⟩,
    fun j => ?_, fun ha => ?_, ?_, ?_, fun j => ?_⟩
  · by_cases hj : j = i
    · subst hj
      obtain ⟨hg, hc, hf, hz⟩ := h.rep.lane j
      rw [hconn]
      refine ⟨hg, fun p qs e es hps hes => ?_, hf, hz⟩
      obtain ⟨hl, hs, hle, hb⟩ := hc p qs e es hps hes
      refine ⟨hl, by simp only; omega, by simp only [Phase.slack, if_true]; omega, fun b h₂ h₃ => ?_⟩
      rw [hdone]
      by_cases hb' : b < (s.conn j).currentbyte
      · have := hb b h₂ hb'
        omega
      · simp only at h₃
        rw [if_pos (by rw [Range.mem_iff]; simp only; omega)]
        omega
    · rw [conn_received_ne hj]
      exact (hr.lane j).mono le_rfl hmore
  · rw [hstep.load_eq]
    exact h.rep.load b
  · intro r hr'
    rcases List.mem_cons.mp hr' with rfl | hr'
    · have := hd.2.1
      have := hd.2.2
      simp only
      exact ⟨by omega, by show _ < s.size; omega, by omega⟩
    · exact hr.written r hr'
  · show s.bytesDone + n = total (_ :: s.outfile)
    rw [total_cons, hr.bytesDone, Range.size]
    simp only
    omega
  · by_cases hj : j = i
    · have := h.goodput i
      rw [hj, hconn]
      simp only
      omega
    · rw [conn_received_ne hj]
      exact h.goodput j
  · have hw := h.whole (hall ha)
    refine ⟨hstep.balanced hw.balanced, fun j _ hj => ?_, fun hpl => ?_⟩
    · have hne : j ≠ i := fun hji => hp (hji ▸ hj)
      rw [Gb.Placeholder, conn_received_ne hne]
      exact hw.idle j rfl hj
    · exact hp (firstWith_eq_none.mp ((h.rep.pointer i rfl).symm.trans (hpl i).1))
  · refine h.log.extend ht (by simp [Event.Quiet]) (fun hn => ⟨hn, by simp [Event.WritesAll]⟩) id rfl
      rfl rfl (fun value hc b h₀ hb hs => hmore b (hc b h₀ hb hs)) ?_
    rintro ⟨j, hj⟩ -
    have hne : j ≠ i := fun hji => h.rep.not_placeholder hp (hji ▸ hj)
    refine ⟨j, ?_⟩
    rw [Gb.Placeholder, conn_received_ne hne]
    exact hj
  · refine h.told.extend ht (by simp) (by simp) (fun ha s' j r hm => ?_) (by simp [Event.Sound])
    obtain ⟨rfl, rfl, rfl⟩ := Event.wrote.inj (List.mem_singleton.mp hm)
    have hreads := (h.wire j).reads (hall ha) (.inl hi)
    rw [Gb.Reads] at hreads ⊢
    simpa only [update_self] using hreads
  · by_cases hj : j = i
    · subst hj
      refine (h.wire j).carry ht rfl (by rw [hconn]) (by rw [hconn]) (by rw [hconn]) (by rw [hconn])
        (by rw [hconn]) (fun _ => .inl hi) (fun ha _ => ?_) (fun _ hn => absurd hn hp)
      have hout := (h.wire j).aligned (hall ha) (.inl (.inl hi))
      rw [hcur.wanted, if_pos (by omega), hcur.queue] at hout
      rw [Gb.wanted, hqueue, hconn]
      simp only [hout]
      exact consume_cons fun c hc => (hcur.inside c hc).1
    · exact (h.wire j).frame ht (conn_received_ne hj) rfl fun hb => absurd hb hj

lemma Inv.received (h : Inv .rest s) (hi : (s.conn i).enabled) (hp : s.parts i ≠ []) {n : ℤ}
    (h₁ : 1 ≤ n) (hn : n ≤ (s.conn i).lastbyte - (s.conn i).currentbyte + 1) (written : Bool) :
    Inv (.reading i) (s.received i n written) := by
  cases written
  · exact h.lost hi hp n
  · exact h.wrote hi hp h₁ hn

lemma Inv.settle (h : Inv (.reading i) s) (hc : (s.conn i).currentbyte ≤ (s.conn i).lastbyte) :
    Inv .rest s := by
  obtain ⟨h₁, h₂, h₃, h₄, h₅, h₆, h₇, h₈, -, h₁₀, h₁₁, h₁₂⟩ := h.rep
  refine ⟨⟨h₁, h₂, h₃, h₄, h₅, h₆, fun j => ?_, h₈, trivial, h₁₀, h₁₁, h₁₂⟩, h.goodput,
    fun ha => ⟨(h.whole ha).1, (h.whole ha).2, (h.whole ha).3⟩, h.log, h.told,
    fun j => (h.wire j).frame (List.nil_append _).symm rfl rfl False.elim⟩
  obtain ⟨hg, hcur, hf, hz⟩ := h₇ j
  refine ⟨hg, fun p qs d ds hps hds => ?_, hf, hz⟩
  obtain ⟨hl, hs, hle, hb⟩ := hcur p qs d ds hps hds
  refine ⟨hl, hs, ?_, hb⟩
  by_cases hj : j = i
  · rw [hj]
    simpa [Phase.slack] using hc
  · simpa [Phase.slack, hj] using hle

end

end GreenBag
