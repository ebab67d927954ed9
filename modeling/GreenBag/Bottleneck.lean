import GreenBag.Starting

/-! The chunk the download waits for, and when `get_bn_chunk_info` finds it. -/

namespace GreenBag

open Programs Ranges Schedules

/-- A chunk that a connection has to fetch, and the first of its bytes that is missing. -/
structure Due where
  conn : Link
  chunk : Chunk
  missing : ℤ
  deriving DecidableEq

namespace Gb

/-- The chunks of a connection, in list order. -/
def chunks (s : Gb) (i : Link) : List Chunk := s.offsetInfo.segments.flatMap (Segment.chunks i)

def dueBehind (s : Gb) (i : Link) : List Due :=
  (s.chunks i).tail.map fun a => ⟨i, a, a.startByte⟩

def dueNow (s : Gb) (i : Link) : List Due :=
  (s.chunks i).head?.toList.map fun a => ⟨i, a, (s.conn i).currentbyte⟩

/-- All that is pending besides the chunk that connection `i` is finishing. -/
def due (s : Gb) (i : Link) : List Due := s.dueBehind i ++ s.dueNow i.other ++ s.dueBehind i.other

def FirstDue (s : Gb) (i : Link) (b : ℤ) : Prop := ∀ q ∈ s.due i, b ≤ q.missing

/-- The chunk with the first missing byte, its connection, and how much of it is missing. -/
def BnRight (s : Gb) (i : Link) (r : BnChunk) : Prop :=
  ∃ q ∈ s.due i, s.FirstDue i q.missing ∧ r = ⟨q.chunk, q.conn, q.chunk.lastByte - q.missing + 1⟩

/-- With both connections in use, the first missing byte is at the cursor of the other one, and not the
last of its chunk, or it starts the next chunk of connection `i`, ahead of its cursor. With one, it
starts that chunk right at the cursor, and is not the last of it. -/
def BnSeen (s : Gb) (i : Link) : Prop :=
  if s.isUsingOnlyOneLink then
    ∃ p d e es, (s.parts i).head? = some p ∧ p.chunkList = d :: e :: es ∧
      e.startByte = (s.conn i).currentbyte ∧ e.startByte < e.lastByte ∧ s.FirstDue i e.startByte
  else
    (s.chunks i.other ≠ [] ∧ (s.conn i.other).currentbyte < (s.conn i.other).lastbyte ∧
      s.FirstDue i (s.conn i.other).currentbyte) ∨
    ∃ d e es, s.chunks i = d :: e :: es ∧ (s.conn i).currentbyte < e.startByte ∧
      s.FirstDue i e.startByte

/-- What `get_bn_chunk_info` finds, if it does not follow a null pointer. -/
def bnChunkInfo (s : Gb) (i : Link) : Option BnChunk :=
  if s.isUsingOnlyOneLink then (s.getChunkBeingDwndByConn i).map (s.bnFromCursor i)
  else
    match s.getChunkBeingDwndByConn i.other, s.getNextChunkDwndByConn i with
    | none, next => next.map fun c => ⟨c, i, c.size⟩
    | some b, none => some (s.bnFromCursor i.other b)
    | some b, some c => if c.startByte > b.startByte then some (s.bnFromCursor i.other b)
      else some ⟨c, i, c.size⟩

end Gb

lemma getBnChunkInfo_eq {s : Gb} {t : Session} (ht : t.toGb = s) (i : Link) :
    getBnChunkInfo i t = match s.bnChunkInfo i with
      | none => .error .nullPointer (t.called .bnChunk i)
      | some r => .ok r (t.called .bnChunk i) := by
  subst ht
  have hlog : logEvent (.called · .bnChunk i) t = .ok () (t.called .bnChunk i) := rfl
  rw [getBnChunkInfo, bind_of_ok hlog, Gb.bnChunkInfo]
  have hget : (get : Program Session) (t.called .bnChunk i) = .ok (t.called .bnChunk i) _ := rfl
  rw [bind_of_ok hget]
  by_cases hone : t.isUsingOnlyOneLink
  · have hone' : (t.called .bnChunk i).isUsingOnlyOneLink = true := hone
    rw [if_pos hone', if_pos hone]
    show (demand .nullPointer (t.getChunkBeingDwndByConn i) >>= _ : Program _) _ = _
    cases t.getChunkBeingDwndByConn i <;> rfl
  · have hone' : ¬ (t.called .bnChunk i).isUsingOnlyOneLink = true := hone
    rw [if_neg hone', if_neg hone]
    simp only [Session.called]
    cases t.getChunkBeingDwndByConn i.other <;> cases t.getNextChunkDwndByConn i
    · rfl
    · rfl
    · rfl
    · simp only
      split_ifs <;> rfl

section

variable {φ : Phase} {s : Gb} {i : Link} {d : Chunk} {ds : List Chunk} {ps : List Subsegment}

lemma Rep.once (h : Rep φ s) (i : Link) (b : ℤ) :
    cover s.outfile b + (cover (s.queue i) b + cover (s.queue i.other) b) ≤ 1 := by
  have hl := h.load b
  rw [h.load_eq] at hl
  simp only [Gb.ahead, h.plan_eq, cover_append] at hl
  cases i <;> simp only [Link.other] <;> omega

/-- What is found is right exactly if it is the first missing chunk. -/
lemma bnFromCursor_right {j : Link} {b : Chunk} : s.BnRight i (s.bnFromCursor j b) ↔
    ⟨j, b, (s.conn j).currentbyte⟩ ∈ s.due i ∧ s.FirstDue i (s.conn j).currentbyte := by
  constructor
  · rintro ⟨⟨k, a, m⟩, hq, hf, he⟩
    simp only [Gb.bnFromCursor, BnChunk.mk.injEq] at he
    obtain ⟨rfl, rfl, hm⟩ := he
    obtain rfl : (s.conn j).currentbyte = m := by omega
    exact ⟨hq, hf⟩
  · rintro ⟨hq, hf⟩
    refine ⟨_, hq, hf, ?_⟩
    simp only [Gb.bnFromCursor, BnChunk.mk.injEq, true_and]
    omega

lemma bnOwn_right {c : Chunk} (hc : c.Valid) : s.BnRight i ⟨c, i, c.size⟩ ↔
    ⟨i, c, c.startByte⟩ ∈ s.due i ∧ s.FirstDue i c.startByte := by
  constructor
  · rintro ⟨⟨k, a, m⟩, hq, hf, he⟩
    simp only [BnChunk.mk.injEq] at he
    obtain ⟨rfl, rfl, hm⟩ := he
    obtain rfl : c.startByte = m := by
      have := hc.1
      omega
    exact ⟨hq, hf⟩
  · rintro ⟨hq, hf⟩
    refine ⟨_, hq, hf, ?_⟩
    simp only [BnChunk.mk.injEq, true_and]
    have := hc.1
    omega

lemma Cursor.chunks_eq (h : Cursor φ s i d ds ps) :
    s.chunks i = d :: (ds ++ ps.flatMap Subsegment.chunkList) := by
  obtain ⟨p, hp, hds⟩ := h.parts
  rw [Gb.chunks, chunks_eq_parts, show GreenBag.parts i s.offsetInfo.segments = p :: ps from hp,
    List.flatMap_cons, hds]
  rfl

lemma Cursor.being_eq (h : Cursor φ s i d ds ps) : s.getChunkBeingDwndByConn i =
    (d :: ds).find? fun c => c.lastByte > (s.conn i).currentbyte := by
  obtain ⟨p, hp, hds⟩ := h.parts
  obtain ⟨pre, g, post, hs, hpre, hg, -⟩ := exists_split hp
  have hf : pre.find? (fun k => (k.subsegment i).isSome) = none := by
    simpa [List.find?_eq_none] using parts_eq_nil.mp hpre
  have hfound : s.offsetInfo.getSegmentBeingDwndByConn i = some g := by
    simp [OffsetInfo.getSegmentBeingDwndByConn, hs, List.find?_append, hf, hg]
  simp only [Gb.getChunkBeingDwndByConn, hfound, Option.elim_some, Segment.chunks, hg, hds]

lemma being_eq_none (h : s.parts i = []) : s.getChunkBeingDwndByConn i = none := by
  have hf : s.offsetInfo.getSegmentBeingDwndByConn i = none := by
    simpa [OffsetInfo.getSegmentBeingDwndByConn, List.find?_eq_none] using parts_eq_nil.mp h
  simp [Gb.getChunkBeingDwndByConn, hf]

lemma Cursor.next_eq (h : Cursor φ s i d ds ps) : s.getNextChunkDwndByConn i =
    (ds ++ ps.flatMap Subsegment.chunkList).find? fun c => c.startByte > (s.conn i).currentbyte := by
  have hn := h.start
  show (s.chunks i).find? _ = _
  rw [h.chunks_eq, List.find?_cons_of_neg (by simpa using hn)]

lemma chunks_eq_nil (h : s.parts i = []) : s.chunks i = [] := by
  rw [Gb.chunks, chunks_eq_parts, show GreenBag.parts i s.offsetInfo.segments = [] from h]
  rfl

lemma mem_due {q : Due} : q ∈ s.due i ↔
    (∃ a ∈ (s.chunks i).tail, q = ⟨i, a, a.startByte⟩) ∨
    (∃ a, (s.chunks i.other).head? = some a ∧ q = ⟨i.other, a, (s.conn i.other).currentbyte⟩) ∨
    ∃ a ∈ (s.chunks i.other).tail, q = ⟨i.other, a, a.startByte⟩ := by
  simp only [Gb.due, Gb.dueBehind, Gb.dueNow, List.mem_append, List.mem_map, Option.mem_toList,
    eq_comm (b := q), or_assoc]

lemma mem_due_own {a : Chunk} {b : ℤ} : ⟨i, a, b⟩ ∈ s.due i ↔
    a ∈ (s.chunks i).tail ∧ b = a.startByte := by
  have hne := Link.other_ne i
  rw [mem_due]
  constructor
  · rintro (⟨c, hc, he⟩ | ⟨c, -, he⟩ | ⟨c, -, he⟩) <;> simp only [Due.mk.injEq] at he
    · obtain ⟨-, rfl, rfl⟩ := he
      exact ⟨hc, rfl⟩
    · exact absurd he.1.symm hne
    · exact absurd he.1.symm hne
  · rintro ⟨ha, rfl⟩
    exact .inl ⟨a, ha, rfl⟩

lemma mem_due_other {a : Chunk} {b : ℤ} : ⟨i.other, a, b⟩ ∈ s.due i ↔
    ((s.chunks i.other).head? = some a ∧ b = (s.conn i.other).currentbyte) ∨
      (a ∈ (s.chunks i.other).tail ∧ b = a.startByte) := by
  have hne := Link.other_ne i
  rw [mem_due]
  constructor
  · rintro (⟨c, hc, he⟩ | ⟨c, hc, he⟩ | ⟨c, hc, he⟩) <;> simp only [Due.mk.injEq] at he
    · exact absurd he.1 hne
    · obtain ⟨-, rfl, rfl⟩ := he
      exact .inl ⟨hc, rfl⟩
    · obtain ⟨-, rfl, rfl⟩ := he
      exact .inr ⟨hc, rfl⟩
  · rintro (⟨ha, rfl⟩ | ⟨ha, rfl⟩)
    · exact .inr (.inl ⟨a, ha, rfl⟩)
    · exact .inr (.inr ⟨a, ha, rfl⟩)

/-- A later chunk of a connection starts outside the rest of its current one. -/
lemma Cursor.later_apart (h : Cursor φ s i d ds ps) (hr : Rep φ s) {a : Chunk}
    (ha : a ∈ ds ++ ps.flatMap Subsegment.chunkList) :
    a.startByte < (s.conn i).currentbyte ∨ (s.conn i).lastbyte < a.startByte := by
  have hv := (h.inside a ha).1
  have ho := hr.once i a.startByte
  rw [h.queue, cover_cons] at ho
  have hp : 0 < cover ((ds ++ ps.flatMap Subsegment.chunkList).map Chunk.range) a.startByte := by
    refine cover_pos_iff.mpr ⟨a.range, List.mem_map_of_mem ha, ?_⟩
    simp only [Range.mem_iff, Chunk.range]
    have := hv.1
    have := hv.2
    omega
  by_contra hn
  rw [if_pos (by simp only [Range.mem_iff]; omega)] at ho
  omega

lemma Cursor.mem_range (h : Cursor φ s i d ds ps) {a : Chunk}
    (ha : a ∈ ds ++ ps.flatMap Subsegment.chunkList) :
    a.startByte ∈ a.range ∧ a.range ∈ s.queue i := by
  have hv := (h.inside a ha).1
  refine ⟨?_, by rw [h.queue]; exact List.mem_cons_of_mem _ (List.mem_map_of_mem ha)⟩
  simp only [Range.mem_iff, Chunk.range]
  have := hv.1
  have := hv.2
  omega

/-- What the other connection has to fetch lies outside the current chunk. -/
lemma Cursor.outside (h : Cursor φ s i d ds ps) (hr : Rep φ s) {b : ℤ} {r : Range}
    (hq : r ∈ s.queue i.other) (hb : b ∈ r) : b < d.startByte ∨ d.lastByte < b := by
  have ho := hr.once i b
  have hp : 0 < cover (s.queue i.other) b := cover_pos_iff.mpr ⟨r, hq, hb⟩
  by_contra hn
  by_cases hlt : b < (s.conn i).currentbyte
  · have := h.before b (by omega) hlt
    omega
  · rw [h.queue, cover_cons, if_pos (by simp only [Range.mem_iff, h.last]; omega)] at ho
    omega

/-- With one connection in use, the chunk found is the next one of the subsegment. -/
lemma bnChunk_single (hr : Rep (.reading i) s) :
    (∃ b, s.getChunkBeingDwndByConn i = some b ∧ s.BnRight i (s.bnFromCursor i b)) ↔
      ∃ p d e es, (s.parts i).head? = some p ∧ p.chunkList = d :: e :: es ∧
        e.startByte = (s.conn i).currentbyte ∧ e.startByte < e.lastByte ∧
          s.FirstDue i e.startByte := by
  obtain ⟨d, ds, ps, hc⟩ := hr.cursor hr.fits
  obtain ⟨p, hp, hds⟩ := hc.parts
  have hslack := hc.slack
  have hlast := hc.last
  simp only [Phase.slack, if_true] at hslack
  rw [hc.being_eq]
  simp only [bnFromCursor_right, mem_due_own, hc.chunks_eq, List.tail_cons]
  constructor
  · rintro ⟨b, hb, ⟨hmem, hcur⟩, hf⟩
    have hapart := hc.later_apart hr hmem
    rw [List.find?_cons_of_neg (by simp only [decide_eq_true_eq]; omega)] at hb
    cases hes : ds with
    | nil => simp [hes] at hb
    | cons e es =>
      have hasc := hc.ascending
      rw [hes] at hasc hb
      simp only [Ascending, List.pairwise_cons] at hasc
      have hde := hasc.1 e List.mem_cons_self
      have hev := (hc.inside e (by simp [hes])).1
      have hlb : (s.conn i).currentbyte < b.lastByte := by
        simpa using List.find?_some hb
      have hbe : b = e := by
        rcases List.mem_cons.mp (List.mem_of_find?_eq_some hb) with h | h
        · exact h
        · have := hasc.2.1 b h
          have := hev.1
          have := hev.2
          omega
      subst hbe
      exact ⟨p, d, b, es, by rw [hp]; rfl, by rw [hds, hes], hcur.symm, by omega, hcur ▸ hf⟩
  · rintro ⟨p', d', e, es, hp', hes, hcur, hlt, hf⟩
    obtain rfl : p = p' := by simpa [hp] using hp'
    obtain ⟨rfl, rfl⟩ := List.cons.inj (hds.symm.trans hes)
    have hasc := hc.ascending
    simp only [Ascending, List.pairwise_cons] at hasc
    have hde := hasc.1 e List.mem_cons_self
    refine ⟨e, ?_, ⟨by simp, hcur.symm⟩, hcur ▸ hf⟩
    rw [List.find?_cons_of_neg (by simp only [decide_eq_true_eq]; omega),
      List.find?_cons_of_pos (by simp only [decide_eq_true_eq]; omega)]

/-- The chunk of the other connection is right exactly if the first missing byte is at its cursor. -/
lemma bnChunk_other (hr : Rep (.reading i) s) {b : Chunk}
    (hb : s.getChunkBeingDwndByConn i.other = some b) :
    s.BnRight i (s.bnFromCursor i.other b) ↔
      (s.conn i.other).currentbyte < (s.conn i.other).lastbyte ∧
        s.FirstDue i (s.conn i.other).currentbyte := by
  have hne : s.parts i.other ≠ [] := fun hn => by
    rw [being_eq_none hn] at hb
    cases hb
  obtain ⟨d, ds, ps, hc⟩ := hr.cursor hne
  have hslack := hc.slack
  have hlast := hc.last
  simp only [Phase.slack, Link.other_ne, if_false, add_zero] at hslack
  rw [hc.being_eq] at hb
  have hlb : (s.conn i.other).currentbyte < b.lastByte := by simpa using List.find?_some hb
  simp only [bnFromCursor_right, mem_due_other, hc.chunks_eq, List.head?_cons, List.tail_cons,
    Option.some.injEq, and_true]
  refine and_congr_left fun _ => ⟨?_, fun hlt => .inl ?_⟩
  · rintro (rfl | ⟨hmem, hcur⟩)
    · omega
    · have := hc.later_apart hr hmem
      omega
  · rw [List.find?_cons_of_pos (by simp only [decide_eq_true_eq]; omega)] at hb
    exact Option.some.inj hb

/-- The chunk of the connection itself is right exactly if it is its second one. -/
lemma bnChunk_own (hr : Rep (.reading i) s) {c : Chunk} (hn : s.getNextChunkDwndByConn i = some c) :
    s.BnRight i ⟨c, i, c.size⟩ ↔ ∃ d e es, s.chunks i = d :: e :: es ∧
      (s.conn i).currentbyte < e.startByte ∧ s.FirstDue i e.startByte := by
  obtain ⟨d, ds, ps, hc⟩ := hr.cursor hr.fits
  rw [hc.next_eq] at hn
  have hmem := List.mem_of_find?_eq_some hn
  have hlt : (s.conn i).currentbyte < c.startByte := by simpa using List.find?_some hn
  rw [bnOwn_right (hc.inside c hmem).1, mem_due_own]
  simp only [hc.chunks_eq, List.tail_cons, List.cons.injEq]
  generalize hl : ds ++ ps.flatMap Subsegment.chunkList = later at hn hmem
  constructor
  · rintro ⟨-, hf⟩
    cases later with
    | nil => simp at hmem
    | cons e es =>
      have he : c.startByte ≤ e.startByte :=
        hf ⟨i, e, e.startByte⟩ (mem_due_own.mpr ⟨by simp [hc.chunks_eq, hl], rfl⟩)
      rw [List.find?_cons_of_pos (by simp only [decide_eq_true_eq]; omega)] at hn
      obtain rfl := Option.some.inj hn
      exact ⟨d, e, es, ⟨rfl, rfl⟩, hlt, hf⟩
  · rintro ⟨-, e, es, ⟨-, rfl⟩, he, hf⟩
    rw [List.find?_cons_of_pos (by simpa using he)] at hn
    obtain rfl := Option.some.inj hn
    exact ⟨⟨hmem, trivial⟩, hf⟩

/-- With both connections in use, the smaller of the two starts decides. -/
lemma bnChunk_dual (hr : Rep (.reading i) s) (hu : s.isUsingOnlyOneLink = false) :
    (∃ r, s.bnChunkInfo i = some r ∧ s.BnRight i r) ↔
      (s.chunks i.other ≠ [] ∧ (s.conn i.other).currentbyte < (s.conn i.other).lastbyte ∧
        s.FirstDue i (s.conn i.other).currentbyte) ∨
      ∃ d e es, s.chunks i = d :: e :: es ∧ (s.conn i).currentbyte < e.startByte ∧
        s.FirstDue i e.startByte := by
  obtain ⟨d, ds, ps, hc⟩ := hr.cursor hr.fits
  simp only [Gb.bnChunkInfo, hu, Bool.false_eq_true, if_false]
  have hsome : ∀ {b}, s.getChunkBeingDwndByConn i.other = some b → s.parts i.other ≠ [] := by
    intro b hb hn
    rw [being_eq_none hn] at hb
    cases hb
  constructor
  · cases hb : s.getChunkBeingDwndByConn i.other with
    | none =>
      cases hn : s.getNextChunkDwndByConn i with
      | none => simp
      | some c =>
        rintro ⟨r, he, hright⟩
        obtain rfl : (⟨c, i, c.size⟩ : BnChunk) = r := by simpa using he
        exact .inr ((bnChunk_own hr hn).mp hright)
    | some b =>
      obtain ⟨d', ds', ps', hc'⟩ := hr.cursor (hsome hb)
      have hne : s.chunks i.other ≠ [] := by simp [hc'.chunks_eq]
      cases hn : s.getNextChunkDwndByConn i with
      | none =>
        rintro ⟨r, he, hright⟩
        obtain rfl := Option.some.inj he
        exact .inl ⟨hne, (bnChunk_other hr hb).mp hright⟩
      | some c =>
        rintro ⟨r, he, hright⟩
        simp only at he
        split_ifs at he <;> obtain rfl := Option.some.inj he
        · exact .inl ⟨hne, (bnChunk_other hr hb).mp hright⟩
        · exact .inr ((bnChunk_own hr hn).mp hright)
  · rintro (⟨hne, hlt, hf⟩ | ⟨d₁, e, es, hes, hlt, hf⟩)
    · have hp : s.parts i.other ≠ [] := fun hn => hne (chunks_eq_nil hn)
      obtain ⟨d', ds', ps', hc'⟩ := hr.cursor hp
      have hlast := hc'.last
      have hstart := hc'.start
      have hb : s.getChunkBeingDwndByConn i.other = some d' := by
        rw [hc'.being_eq, List.find?_cons_of_pos (by simp only [decide_eq_true_eq]; omega)]
      have hright := (bnChunk_other hr hb).mpr ⟨hlt, hf⟩
      rw [hb]
      cases hn : s.getNextChunkDwndByConn i with
      | none => exact ⟨_, rfl, hright⟩
      | some c =>
        rw [hc.next_eq] at hn
        have hmem := List.mem_of_find?_eq_some hn
        have hcf : (s.conn i.other).currentbyte ≤ c.startByte :=
          hf ⟨i, c, c.startByte⟩ (mem_due_own.mpr ⟨by simpa [hc.chunks_eq] using hmem, rfl⟩)
        obtain ⟨hin, hq⟩ := hc.mem_range hmem
        have hout := hc'.outside hr (by rwa [Link.other_other]) hin
        refine ⟨_, if_pos ?_, hright⟩
        omega
    · obtain ⟨rfl, hlater⟩ := List.cons.inj (hc.chunks_eq.symm.trans hes)
      have hn : s.getNextChunkDwndByConn i = some e := by
        rw [hc.next_eq, hlater, List.find?_cons_of_pos (by simpa using hlt)]
      have hright := (bnChunk_own hr hn).mpr ⟨_, e, es, hes, hlt, hf⟩
      rw [hn]
      cases hb : s.getChunkBeingDwndByConn i.other with
      | none => exact ⟨_, rfl, hright⟩
      | some b =>
        obtain ⟨d', ds', ps', hc'⟩ := hr.cursor (hsome hb)
        have hslack := hc'.slack
        have hlast := hc'.last
        simp only [Phase.slack, Link.other_ne, if_false, add_zero] at hslack
        have hef : e.startByte ≤ (s.conn i.other).currentbyte :=
          hf ⟨i.other, d', _⟩ (mem_due_other.mpr (.inl ⟨by simp [hc'.chunks_eq], rfl⟩))
        obtain ⟨hin, hq⟩ := hc.mem_range (a := e) (by simp [hlater])
        have hout := hc'.outside hr (by rwa [Link.other_other]) hin
        have hbd : d'.startByte ≤ b.startByte := by
          rw [hc'.being_eq] at hb
          have hasc := hc'.ascending
          simp only [Ascending, List.pairwise_cons] at hasc
          rcases List.mem_cons.mp (List.mem_of_find?_eq_some hb) with rfl | hm
          · exact le_rfl
          · have := hasc.1 b hm
            have := hc'.head.1.1
            have := hc'.head.1.2
            omega
        refine ⟨_, if_neg ?_, hright⟩
        omega

lemma bnChunk_iff (hr : Rep (.reading i) s) :
    (∃ r, s.bnChunkInfo i = some r ∧ s.BnRight i r) ↔ s.BnSeen i := by
  rw [Gb.BnSeen]
  cases hu : s.isUsingOnlyOneLink with
  | true =>
    rw [if_pos rfl, ← bnChunk_single hr]
    simp only [Gb.bnChunkInfo, hu, if_true, Option.map_eq_some_iff]
    constructor
    · rintro ⟨r, ⟨b, hb, rfl⟩, hright⟩
      exact ⟨b, hb, hright⟩
    · rintro ⟨b, hb, hright⟩
      exact ⟨_, ⟨b, hb, rfl⟩, hright⟩
  | false =>
    rw [if_neg (by simp)]
    exact bnChunk_dual hr hu

end

/-- At each call in a run before which no share overflows, `get_bn_chunk_info` returns the chunk with the
first missing byte exactly if that byte is where it looks for it. -/
theorem bnChunk_right_iff {s : Session} (h : s.Seen) : ∀ s' i, s.FitsTo (.called s' .bnChunk i) →
    ∀ t : Session, t.toGb = s' →
      ((∃ r u, getBnChunkInfo i t = .ok r u ∧ s'.BnRight i r) ↔ s'.BnSeen i) := by
  intro s' i hm t ht
  have hp : Planning i s' := h.sound hm
  rw [← bnChunk_iff hp.rep, getBnChunkInfo_eq ht]
  cases s'.bnChunkInfo i with
  | none => simp
  | some r => simp

/-- The first connection takes over what the second one has left. -/
theorem bnChunk_right_iff_of_recovery : ∃ s : Session, s.numRecoveries = 1 ∧
    ∀ s' i, .called s' .bnChunk i ∈ s.trace → ∀ t : Session, t.toGb = s' →
      ((∃ r u, getBnChunkInfo i t = .ok r u ∧ s'.BnRight i r) ↔ s'.BnSeen i) := by
  obtain ⟨s, hs, hn⟩ := exists_of_reaches { plainConf with recoveryMode := true } 2400
    (upSteps .lte ++ upSteps .wifi ++ [readStep .wifi 1, .read .lte (.bytes 600 true) lateInputs])
    (P := fun s => s.numRecoveries = 1 ∧ s.Fits) (by decide +kernel) (by decide) (by decide +kernel)
  exact ⟨s, hn.1, fun s' i hm => bnChunk_right_iff (.inl hs) s' i (hn.2.fitsTo hm)⟩

/-- The first connection finds nothing, though the second one misses a byte. -/
def Event.missesLast : Event → Bool
  | .called s .bnChunk .lte => (s.conn .wifi).currentbyte = 1199 ∧ (s.conn .wifi).lastbyte = 1199 ∧
      s.bnChunkInfo .lte = none
  | _ => false

/-- The second connection misses only the last byte of its chunk, and a null pointer is followed. -/
theorem bnChunk_missing : ∃ s : Session, s.Crashed .nullPointer ∧ s.Fits ∧ s.All Event.WritesAll ∧
    ∃ s', .called s' .bnChunk .lte ∈ s.trace ∧ (s'.conn .wifi).currentbyte = 1199 ∧
      (s'.conn .wifi).lastbyte = 1199 ∧
      ∀ t : Session, t.toGb = s' → getBnChunkInfo .lte t = .error .nullPointer (t.called .bnChunk .lte) := by
  obtain ⟨s, hs, hf, hw, hc⟩ := exists_of_failsWith { plainConf with recoveryMode := true } 2400
    (upSteps .lte ++ upSteps .wifi ++ [readStep .wifi 599, readStep .lte 600])
    (e := .nullPointer)
    (P := fun s => s.Fits ∧ s.All Event.WritesAll ∧ s.trace.any Event.missesLast)
    (by decide +kernel) (by decide) (by decide +kernel) (by decide +kernel)
  obtain ⟨e, he, hmiss⟩ := List.any_eq_true.mp hc
  obtain ⟨s', rfl, hn⟩ : ∃ s', e = .called s' .bnChunk .lte ∧ (s'.conn .wifi).currentbyte = 1199 ∧
      (s'.conn .wifi).lastbyte = 1199 ∧ s'.bnChunkInfo .lte = none := by
    cases e with
    | called s' f i =>
      cases f with
      | bnChunk =>
        cases i with
        | lte => exact ⟨s', rfl, of_decide_eq_true hmiss⟩
        | wifi => cases hmiss
      | _ => cases hmiss
    | _ => cases hmiss
  refine ⟨s, hs, hf, hw, s', he, hn.1, hn.2.1, fun t ht => ?_⟩
  rw [getBnChunkInfo_eq ht, hn.2.2]

end GreenBag
