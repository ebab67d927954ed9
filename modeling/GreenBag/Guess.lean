import GreenBag.Conditions

/-! When the in-order offset is right: a byte is written unless it is still ahead. -/

namespace GreenBag

open Ranges Schedules

lemma sum_link {α : Type} [AddCommMonoid α] (f : Link → α) : ∑ i, f i = f .lte + f .wifi := by
  rw [show (Finset.univ : Finset Link) = {.lte, .wifi} from rfl, Finset.sum_pair (by decide)]

lemma plan_of_parts_nil {s : Gb} {i : Link} (h : s.parts i = []) : s.plan i = [] := by
  rw [Gb.plan]
  cases hc : s.offsetInfo.connection i with
  | none => rfl
  | some id =>
    cases hd : s.offsetInfo.deref id with
    | none => simp [hd]
    | some g =>
      obtain ⟨pre, post, hs, _⟩ := exists_of_deref hd
      have hg : g.subsegment i = none := parts_eq_nil.mp h g (by rw [hs]; simp)
      simp [hd, hg]

lemma plan_of_split {s : Gb} {i : Link} {pre post : List Segment} {g : Segment} {p : Subsegment}
    (hl : s.offsetInfo.Linked) (hs : s.offsetInfo.segments = pre ++ g :: post)
    (hc : s.offsetInfo.connection i = some g.id) (hp : g.subsegment i = some p) :
    s.plan i = queueOf (s.conn i) (p :: parts i post) := by
  rw [Gb.plan]
  simp only [hc, hl.deref_eq hs, Option.bind_some, hp, hl.behind_eq hs, chunks_eq_parts, queueOf]

variable {φ : Phase} {s : Gb}

lemma Rep.parts_of_held (h : Rep φ s) {i : Link} (hi : φ.heldFrom i ≠ []) : s.parts i = [] := by
  cases φ with
  | rest => exact absurd rfl hi
  | reading j => exact absurd rfl hi
  | robbing j held =>
    by_cases hj : i = j.other
    · rw [hj]
      exact h.fits.2.1
    · exact absurd (if_neg hj) hi

lemma Rep.not_placeholder (h : Rep φ s) {i : Link} (hp : s.parts i ≠ []) : ¬ s.Placeholder i := by
  intro hi
  have hf : φ.heldFrom i = [] := by
    by_contra hn
    exact hp (h.parts_of_held hn)
  exact hp (firstWith_eq_none.mp ((h.pointer i hf).symm.trans hi.1))

/-- Following the pointers gives the subsegments of the connection in list order. -/
lemma Rep.plan_eq (h : Rep φ s) (i : Link) : s.plan i = s.queue i := by
  cases hp : s.parts i with
  | nil => rw [plan_of_parts_nil hp, Gb.queue, hp, queueOf]
  | cons p ps =>
    have hf : φ.heldFrom i = [] := by
      by_contra hn
      rw [h.parts_of_held hn] at hp
      cases hp
    obtain ⟨pre, g, post, hs, hpre, hg, hpost⟩ := exists_split hp
    have hc := h.pointer i hf
    rw [hs, firstWith_split hpre hg] at hc
    rw [plan_of_split h.linked hs hc hg, Gb.queue, hp, hpost]

lemma Phase.held_eq (φ : Phase) : φ.heldFrom .lte ++ φ.heldFrom .wifi = φ.held := by
  cases φ with
  | rest => rfl
  | reading i => rfl
  | robbing i held => cases i <;> simp [heldFrom, Link.other, Phase.held]

lemma Rep.cover_ahead (h : Rep φ s) (b : ℤ) :
    cover (s.ahead φ.held) b = (s.schedule φ).missing b := by
  simp only [Gb.ahead, h.plan_eq, ← φ.held_eq, List.map_append, cover_append, Schedule.missing,
    Gb.schedule, sum_link, Schedule.unassigned, Gb.unassigned, Gb.frontier]
  omega

lemma Rep.load_eq (h : Rep φ s) (b : ℤ) :
    (s.schedule φ).load b = cover s.outfile b + cover (s.ahead φ.held) b := by
  rw [Schedule.load_eq, h.cover_ahead]
  rfl

lemma Rep.not_written (h : Rep φ s) {b : ℤ} {r : Range} (hr : r ∈ s.ahead φ.held) (hb : b ∈ r) :
    cover s.outfile b = 0 := by
  have hl := h.load b
  have hp : 0 < cover (s.ahead φ.held) b := cover_pos_iff.mpr ⟨r, hr, hb⟩
  rw [h.load_eq] at hl
  omega

/-- The file is complete up to an offset exactly if nothing before it is ahead. -/
lemma Whole.completeTo_iff (h : Rep φ s) (hw : Whole φ s) (value : ℤ) :
    s.CompleteTo value ↔ s.NothingBefore φ.held value := by
  have hb : ∀ b, cover s.outfile b + cover (s.ahead φ.held) b =
      if 0 ≤ b ∧ b < s.size then 1 else 0 := fun b => by rw [← h.load_eq]; exact hw.balanced b
  constructor
  · intro hc r hr hle
    by_contra hlt
    have hn := h.not_written hr ⟨le_rfl, hle⟩
    have hp : 0 < cover (s.ahead φ.held) r.first := cover_pos_iff.mpr ⟨r, hr, le_rfl, hle⟩
    have hin := hb r.first
    split_ifs at hin with hi
    · have := hc r.first hi.1 (by omega) hi.2
      omega
    · omega
  · intro hn b h₀ hv hs
    have hin := hb b
    rw [if_pos ⟨h₀, hs⟩] at hin
    by_contra hz
    obtain ⟨r, hr, hbr⟩ := cover_pos_iff.mp (show 0 < cover (s.ahead φ.held) b by omega)
    have := hn r hr (hbr.1.trans hbr.2)
    have := hbr.1
    omega

/-- The subsegments of the segments other than the current one. -/
def Gb.others (s : Gb) (i : Link) : List Subsegment :=
  GreenBag.parts i (s.offsetInfo.segments.filter (fun g => s.offsetInfo.connection i ≠ some g.id))

lemma parts_filter {i : Link} {gs : List Segment} {q : Segment → Bool}
    (h : ∀ g ∈ gs, q g = false → g.subsegment i = none) : parts i (gs.filter q) = parts i gs := by
  induction gs with
  | nil => rfl
  | cons g gs ih =>
    have hi := ih (fun k hk => h k (List.mem_cons_of_mem _ hk))
    cases hq : q g with
    | true => rw [List.filter_cons_of_pos hq, parts_cons, parts_cons, hi]
    | false =>
      rw [List.filter_cons_of_neg (by simp [hq]), hi, parts_cons, h g List.mem_cons_self hq]
      rfl

lemma Rep.others_eq (h : Rep φ s) (i : Link) : s.others i = (s.parts i).tail := by
  cases hp : s.parts i with
  | nil =>
    have hn := parts_eq_nil.mp hp
    exact (parts_filter (fun g hg _ => hn g hg)).trans hp
  | cons p ps =>
    have hf : φ.heldFrom i = [] := by
      by_contra hn
      rw [h.parts_of_held hn] at hp
      cases hp
    obtain ⟨pre, g, post, hs, hpre, hg, hpost⟩ := exists_split hp
    have hc := h.pointer i hf
    rw [hs, firstWith_split hpre hg] at hc
    have hne : ∀ k ∈ pre ++ post, decide (some g.id ≠ some k.id) = true := by
      intro k hk
      rcases List.mem_append.mp hk with hk | hk
      · simpa using (h.linked.pre_lt hs k hk).ne'
      · simpa using (h.linked.lt_post hs k hk).ne
    rw [Gb.others, hc, hs, List.filter_append, List.filter_cons_of_neg (by simp),
      List.filter_eq_self.mpr (fun k hk => hne k (by simp [hk])),
      List.filter_eq_self.mpr (fun k hk => hne k (by simp [hk])), parts_append, hpre, hpost]
    rfl

/-- The offset is the least of the cursors and of the starts of what follows later. -/
structure Lowest (s : Gb) (value : ℤ) : Prop where
  cursor : ∀ i, value ≤ (s.conn i).currentbyte
  later : ∀ i, ∀ p ∈ (s.parts i).tail, ∀ c, p.chunkList.head? = some c → value ≤ c.startByte
  attained : ∃ i, value = (s.conn i).currentbyte ∨
    ∃ p ∈ (s.parts i).tail, ∃ c, p.chunkList.head? = some c ∧ value = c.startByte

lemma Subsegment.Good.head_le {n : ℤ} {p : Subsegment} (h : p.Good n) {c : Chunk}
    (hc : p.chunkList.head? = some c) : ∀ d ∈ p.chunkList, c.startByte ≤ d.startByte := by
  obtain ⟨cs, hcs⟩ := List.head?_eq_some_iff.mp hc
  intro d hd
  have ha := h.ascending
  have hv := (h.inside c (by rw [hcs]; simp)).1
  rw [hcs] at ha hd
  rcases List.mem_cons.mp hd with rfl | hd
  · exact le_rfl
  · have := (List.pairwise_cons.mp ha).1 d hd
    have := hv.1
    have := hv.2
    omega

lemma Phase.slack_le (φ : Phase) (i : Link) : φ.slack i ≤ 1 := by
  cases φ <;> simp only [slack] <;> (try split_ifs) <;> omega

/-- Nothing in the plan of a connection lies before its cursor and the later subsegments. -/
lemma Rep.queue_ge (h : Rep φ s) (i : Link) {value : ℤ} (hc : value ≤ (s.conn i).currentbyte)
    (hl : ∀ p ∈ (s.parts i).tail, ∀ c, p.chunkList.head? = some c → value ≤ c.startByte) :
    ∀ r ∈ s.queue i, value ≤ r.first := by
  intro r hr
  cases hp : s.parts i with
  | nil => simp [Gb.queue, hp, queueOf] at hr
  | cons p ps =>
    have hlane := h.lane i
    rw [hp] at hlane hl
    have hgood := hlane.good p List.mem_cons_self
    obtain ⟨d, ds, hds⟩ := List.exists_cons_of_ne_nil hgood.nonempty
    obtain ⟨hlast, -, hs, -⟩ := hlane.cursor p ps d ds rfl hds
    have hsl := φ.slack_le i
    simp only [Gb.queue, hp, queueOf, List.mem_cons, List.mem_map, List.mem_append,
      List.mem_flatMap] at hr
    rcases hr with rfl | ⟨c, hr | ⟨q, hq, hr⟩, rfl⟩
    · exact hc
    · have ha := hgood.ascending
      rw [hds] at ha hr
      have := (List.pairwise_cons.mp ha).1 c hr
      simp only [Chunk.range]
      omega
    · have hg := hlane.good q (List.mem_cons_of_mem _ hq)
      obtain ⟨e, es, hes⟩ := List.exists_cons_of_ne_nil hg.nonempty
      have he : q.chunkList.head? = some e := by rw [hes]; rfl
      exact (hl q hq e he).trans (hg.head_le he c hr)

lemma Rep.mem_ahead_of_queue (h : Rep φ s) {i : Link} {r : Range} (hr : r ∈ s.queue i) :
    r ∈ s.ahead φ.held := by
  rw [← h.plan_eq] at hr
  cases i <;> simp [Gb.ahead, hr]

/-- A connection that does not look idle has its cursor on a missing byte, unless it was given
nothing at the start. -/
lemma Rep.cursor_missing (h : Rep φ s) (hw : Whole φ s) {i : Link}
    (hi : ¬ (s.conn i).looksIdle) :
    s.Placeholder i ∨ ∃ r ∈ s.ahead φ.held, r.first = (s.conn i).currentbyte ∧ r.first ≤ r.last ∧
      r.first < s.size := by
  have hidle : (s.conn i).currentbyte ≠ (s.conn i).lastbyte + 1 := by
    simpa [Conn.looksIdle] using hi
  have hf := h.frontier.2
  cases hp : s.parts i with
  | cons p ps =>
    have hlane := h.lane i
    rw [hp] at hlane
    have hgood := hlane.good p List.mem_cons_self
    obtain ⟨d, ds, hds⟩ := List.exists_cons_of_ne_nil hgood.nonempty
    obtain ⟨hlast, -, hs, -⟩ := hlane.cursor p ps d ds rfl hds
    have hsl := φ.slack_le i
    have hd := (hgood.inside d (by rw [hds]; simp)).2.2
    refine .inr ⟨⟨(s.conn i).currentbyte, (s.conn i).lastbyte⟩,
      h.mem_ahead_of_queue (i := i) (by simp [Gb.queue, hp, queueOf]), rfl, ?_, ?_⟩
    · simp only
      omega
    · simp only
      omega
  | nil =>
    by_cases hf' : φ.heldFrom i = []
    · exact .inl ((hw.idle i hf' hp).resolve_left hi)
    · cases φ with
      | rest => exact absurd rfl hf'
      | reading j => exact absurd rfl hf'
      | robbing j held =>
        by_cases hj : i = j.other
        · subst hj
          obtain ⟨-, -, hin, c, cs, rfl, hc, hl⟩ := h.fits
          obtain ⟨hv, h₀, h₁⟩ := hin c List.mem_cons_self
          refine .inr ⟨c.range, by simp [Gb.ahead, Phase.held], hc, ?_, ?_⟩
          · have := hv.1
            have := hv.2
            simp only [Chunk.range]
            omega
          · have := hv.1
            have := hv.2
            simp only [Chunk.range]
            omega
        · exact absurd (if_neg hj) hf'

/-- What `update_inorder_offset` computes. -/
def Found (s : Gb) (value : ℤ) : Prop :=
  if (s.conn .lte).looksIdle then
    if (s.conn .wifi).looksIdle then value = s.size - 1 else value = (s.conn .wifi).currentbyte
  else if (s.conn .wifi).looksIdle then value = (s.conn .lte).currentbyte
  else Lowest s value

lemma Lowest.le {value' : ℤ} (h : Lowest s value) (h' : Lowest s value') : value ≤ value' := by
  obtain ⟨j, hj | ⟨p, hp, c, hc, hj⟩⟩ := h'.attained
  · exact hj ▸ h.cursor j
  · exact hj ▸ h.later j p hp c hc

lemma Found.unique {value' : ℤ} (h : Found s value) (h' : Found s value') : value = value' := by
  unfold Found at h h'
  split_ifs at h h'
  · exact h.trans h'.symm
  · exact h.trans h'.symm
  · exact h.trans h'.symm
  · exact le_antisymm (h.le h') (h'.le h)

lemma mem_tail_queue {i : Link} {p : Subsegment} {c : Chunk} (hp : p ∈ (s.parts i).tail)
    (hc : p.chunkList.head? = some c) : c.range ∈ (s.queue i).tail := by
  obtain ⟨cs, hcs⟩ := List.head?_eq_some_iff.mp hc
  cases hq : s.parts i with
  | nil => simp [hq] at hp
  | cons q qs =>
    rw [hq] at hp
    simp only [Gb.queue, hq, queueOf, List.tail_cons, List.mem_map]
    exact ⟨c, List.mem_append_right _ (List.mem_flatMap.mpr ⟨p, hp, by simp [hcs]⟩), rfl⟩

lemma Rep.exists_part (h : Rep φ s) (hw : Whole φ s) (h₀ : ¬ (s.conn .lte).looksIdle)
    (h₁ : ¬ (s.conn .wifi).looksIdle) : ∃ i, s.parts i ≠ [] := by
  cases hφ : φ with
  | reading i => exact ⟨i, by have := h.fits; rw [hφ] at this; exact this⟩
  | robbing i held => exact ⟨i, by have := h.fits; rw [hφ] at this; exact this.1⟩
  | rest =>
    by_contra hn
    push Not at hn
    have hidle : ∀ i, ¬ (s.conn i).looksIdle := fun i => by cases i <;> assumption
    refine hw.working fun i => ((hw.idle i ?_ (hn i)).resolve_left (hidle i))
    rw [hφ]
    rfl

lemma Lowest.nothingBefore_iff {value : ℤ} (hv : Lowest s value) (h : Rep φ s) (hw : Whole φ s)
    (h₀ : ¬ (s.conn .lte).looksIdle) (h₁ : ¬ (s.conn .wifi).looksIdle) :
    s.NothingBefore φ.held value ↔ ∀ c ∈ φ.held, ∃ i, (s.conn i).currentbyte ≤ c.startByte ∨
      ∃ r ∈ (s.plan i).tail, r.first ≤ c.startByte := by
  have hq : ∀ i, ∀ r ∈ s.queue i, value ≤ r.first := fun i =>
    h.queue_ge i (hv.cursor i) (hv.later i)
  constructor
  · intro hn c hc
    have hle : value ≤ c.startByte := by
      have hmem : c.range ∈ s.ahead φ.held := by
        simp only [Gb.ahead, List.mem_append, List.mem_map]
        exact .inl (.inr ⟨c, hc, rfl⟩)
      refine hn c.range hmem ?_
      cases φ with
      | rest => cases hc
      | reading i => cases hc
      | robbing i held =>
        have hval := (h.fits.2.2.1 c hc).1
        have := hval.1
        have := hval.2
        simp only [Chunk.range]
        omega
    obtain ⟨i, hi | ⟨p, hp, d, hd, hi⟩⟩ := hv.attained
    · exact ⟨i, .inl (hi ▸ hle)⟩
    · refine ⟨i, .inr ⟨d.range, ?_, ?_⟩⟩
      · rw [h.plan_eq]
        exact mem_tail_queue hp hd
      · simp only [Chunk.range]
        omega
  · intro hc r hr hle
    simp only [Gb.ahead, List.mem_append, List.mem_map, List.mem_singleton] at hr
    rcases hr with ((hr | hr) | ⟨c, hr, rfl⟩) | rfl
    · exact hq .lte r (h.plan_eq .lte ▸ hr)
    · exact hq .wifi r (h.plan_eq .wifi ▸ hr)
    · obtain ⟨i, hi | ⟨q, hmem, hi⟩⟩ := hc c hr
      · exact (hv.cursor i).trans hi
      · exact (hq i q (h.plan_eq i ▸ List.mem_of_mem_tail hmem)).trans hi
    · obtain ⟨i, hi⟩ := h.exists_part hw h₀ h₁
      obtain ⟨p, ps, hp⟩ := List.exists_cons_of_ne_nil hi
      have hlane := h.lane i
      rw [hp] at hlane
      have hgood := hlane.good p List.mem_cons_self
      obtain ⟨d, ds, hds⟩ := List.exists_cons_of_ne_nil hgood.nonempty
      obtain ⟨hlast, -, hs, -⟩ := hlane.cursor p ps d ds rfl hds
      have hsl := φ.slack_le i
      have hd := (hgood.inside d (by rw [hds]; simp)).2.2
      have := hv.cursor i
      simp only [Gb.unassigned, Gb.frontier] at hd ⊢
      omega

/-- The offset found is right exactly if the guess is. -/
lemma Found.completeTo_iff {value : ℤ} (hv : Found s value) (h : Rep φ s) (hw : Whole φ s) :
    s.CompleteTo value ↔ GuessRight s φ.held := by
  rw [hw.completeTo_iff h]
  unfold Found at hv
  unfold GuessRight
  split_ifs at hv ⊢ with h₀ h₁ h₁
  · rw [hv]
  · rw [hv]
  · rw [hv]
  · exact hv.nothingBefore_iff h hw h₀ h₁

lemma Found.le_size {value : ℤ} (hv : Found s value) (h : Rep φ s) (hw : Whole φ s) :
    value ≤ s.size ∧ (value = s.size → ∃ i, s.Placeholder i) := by
  have hcur : ∀ i, ¬ (s.conn i).looksIdle → (s.conn i).currentbyte < s.size ∨ s.Placeholder i := by
    intro i hi
    obtain hp | ⟨r, -, hf, -, hlt⟩ := h.cursor_missing hw hi
    · exact .inr hp
    · exact .inl (hf ▸ hlt)
  have hone : ∀ i, ¬ (s.conn i).looksIdle → value = (s.conn i).currentbyte →
      value ≤ s.size ∧ (value = s.size → ∃ i, s.Placeholder i) := by
    intro i hi hv
    obtain hlt | hp := hcur i hi
    · exact ⟨by omega, fun he => by omega⟩
    · exact ⟨by rw [hv, hp.2.1], fun _ => ⟨i, hp⟩⟩
  unfold Found at hv
  split_ifs at hv with h₀ h₁ h₁
  · exact ⟨by omega, fun he => by omega⟩
  · exact hone .wifi h₁ hv
  · exact hone .lte h₀ hv
  · have hidle : ∀ i, ¬ (s.conn i).looksIdle := fun i => by cases i <;> assumption
    obtain ⟨i, hi | ⟨p, hp, d, hd, hi⟩⟩ := hv.attained
    · exact hone i (hidle i) hi
    · have hgood := (h.lane i).good p (List.mem_of_mem_tail hp)
      obtain ⟨ds, hds⟩ := List.head?_eq_some_iff.mp hd
      obtain ⟨hval, -, hlt⟩ := hgood.inside d (by simp [hds])
      have := hval.1
      have := hval.2
      have := h.frontier.2
      exact ⟨by omega, fun he => by omega⟩

/-- An offset up to which the file is complete is not passed by one found later. -/
lemma Found.ge {value earlier : ℤ} (hv : Found s value) (h : Rep φ s) (hw : Whole φ s)
    (hc : s.CompleteTo earlier) (hle : earlier ≤ s.size)
    (hp : earlier = s.size → ∃ i, s.Placeholder i) : earlier ≤ value := by
  have hn := (hw.completeTo_iff h earlier).mp hc
  have hcur : ∀ i, ¬ (s.conn i).looksIdle → earlier ≤ (s.conn i).currentbyte := by
    intro i hi
    obtain hp | ⟨r, hr, hf, hfl, -⟩ := h.cursor_missing hw hi
    · rw [hp.2.1]
      exact hle
    · exact hf ▸ hn r hr hfl
  unfold Found at hv
  split_ifs at hv with h₀ h₁ h₁
  · have hne : earlier ≠ s.size := by
      intro he
      obtain ⟨i, hi⟩ := hp he
      have hidle : (s.conn i).looksIdle := by cases i <;> assumption
      simp only [Conn.looksIdle, decide_eq_true_eq] at hidle
      have := hi.2.1
      have := hi.2.2
      omega
    omega
  · exact hv ▸ hcur .wifi h₁
  · exact hv ▸ hcur .lte h₀
  · have hidle : ∀ i, ¬ (s.conn i).looksIdle := fun i => by cases i <;> assumption
    obtain ⟨i, hi | ⟨p, hp, d, hd, hi⟩⟩ := hv.attained
    · exact hi ▸ hcur i (hidle i)
    · have hgood := (h.lane i).good p (List.mem_of_mem_tail hp)
      obtain ⟨ds, hds⟩ := List.head?_eq_some_iff.mp hd
      obtain ⟨hval, -, -⟩ := hgood.inside d (by simp [hds])
      have hmem := h.mem_ahead_of_queue (List.mem_of_mem_tail (mem_tail_queue hp hd))
      have := hval.1
      have := hval.2
      exact hi ▸ hn d.range hmem (by simp only [Chunk.range]; omega)

end GreenBag
