import GreenBag.Stealing
import GreenBag.Sharing

/-! A new segment on its way to the connections: its chunks are pending until each connection has been
told of its part. -/

namespace GreenBag

open Programs Ranges Schedules Function

lemma ascending_of_byStart {cs : List Chunk} (hs : ByStart cs) (hv : ∀ c ∈ cs, c.Valid)
    (hc : ∀ b, cover (cs.map Chunk.range) b ≤ 1) : Ascending cs := by
  have hd := List.pairwise_map.mp (disjoint_of_cover hc)
  have hp : cs.Pairwise (fun c d => c ∈ cs ∧ d ∈ cs) :=
    List.pairwise_of_forall_mem_list fun c hc d hd => ⟨hc, hd⟩
  refine (hs.and (hd.and hp)).imp fun {c d} h => ?_
  obtain ⟨hle, hdis, hmc, hmd⟩ := h
  by_contra hlt
  have hvd := hv d hmd
  refine hdis d.startByte ⟨hle, by simp only [Chunk.range]; omega⟩ ⟨le_rfl, ?_⟩
  have := hvd.1
  have := hvd.2
  simp only [Chunk.range]
  omega

/-- The schedule of a session with chunks pending for the connections. -/
def Gb.handed (s : Gb) (pending : Link → List Chunk) : Schedule Link where
  size := s.size
  done := s.outfile
  queue := fun j => s.queue j ++ (pending j).map Chunk.range
  frontier := s.frontier

/-- What holds of a session without the chunks that are pending while `i` plans a segment, of which
the other connection may have been robbed. -/
structure Handing (i : Link) (robbed : Bool) (pending : Link → List Chunk) (s : Session) :
    Prop where
  rep : Rep (.reading i) s.toGb
  goodput : ∀ j, 0 ≤ (s.conn j).bytesPerSecond ∧ 0 ≤ (s.conn j).bytesDone
  log : Log s
  told : Told s
  wire : ∀ j, Wire (.reading i) s j
  load : ∀ b, (s.handed pending).load b ≤ 1
  balanced : s.All Event.WritesAll → (s.handed pending).Balanced
  inside : ∀ j, ∀ c ∈ pending j, c.Inside s.frontier
  idle : s.All Event.WritesAll → robbed = false → s.parts i.other = [] →
    (s.conn i.other).looksIdle ∨ s.Placeholder i.other
  halted : robbed = true → (s.conn i.other).enabled = false ∧ s.parts i.other = []
  missing : ¬ s.CompleteTo s.size

section Pending

variable {s : Gb} {pending : Link → List Chunk}

lemma handed_load (b : ℤ) : (s.handed pending).load b =
    cover s.outfile b + ∑ j, cover (s.queue j) b + ∑ j, cover ((pending j).map Chunk.range) b +
      cover [(⟨s.frontier, s.size - 1⟩ : Range)] b := by
  simp only [Schedule.load, Gb.handed, Schedule.unassigned, cover_append, Finset.sum_add_distrib]
  omega

lemma schedule_load (i : Link) (b : ℤ) : (s.schedule (.reading i)).load b =
    cover s.outfile b + ∑ j, cover (s.queue j) b + cover [(⟨s.frontier, s.size - 1⟩ : Range)] b := by
  simp only [Schedule.load, Gb.schedule, Schedule.unassigned, cover_append, Finset.sum_add_distrib,
    Phase.heldFrom, List.map_nil, cover_nil, Finset.sum_const_zero]
  omega

lemma pending_not_written (h : ∀ b, (s.handed pending).load b ≤ 1) {j : Link} {c : Chunk}
    (hc : c ∈ pending j) {b : ℤ} (hb : b ∈ c.range) : cover s.outfile b = 0 := by
  have hl := h b
  have hp : 0 < cover ((pending j).map Chunk.range) b :=
    cover_pos_iff.mpr ⟨c.range, List.mem_map_of_mem hc, hb⟩
  rw [handed_load, sum_link (fun j => cover ((pending j).map Chunk.range) b)] at hl
  cases j <;> omega

lemma not_complete (h : ∀ b, (s.handed pending).load b ≤ 1) (hf : s.frontier ≤ s.size) {j : Link}
    {c : Chunk} (hc : c ∈ pending j) (hin : c.Inside s.frontier) : ¬ s.CompleteTo s.size := by
  intro hcomp
  obtain ⟨hv, h₀, h₁⟩ := hin
  have := hv.1
  have := hv.2
  have hpos := hcomp c.startByte h₀ (by omega) (by omega)
  have hzero := pending_not_written h hc (b := c.startByte) ⟨le_rfl, by simp only [Chunk.range]; omega⟩
  omega

end Pending

lemma parts_bare {j : Link} {g : Segment} (hg : g.subsegment j = none) (gs : List Segment) :
    parts j (gs ++ [g]) = parts j gs ∧ firstWith j (gs ++ [g]) = firstWith j gs := by
  refine ⟨by simp [parts_cons, hg], ?_⟩
  simp [firstWith, List.find?_append, hg]

/-- The chunk a segment gets besides the held ones, if it is not empty. -/
def freshChunks (frontier n : ℤ) : List Chunk := if n = 0 then [] else [newChunk frontier n]

lemma cover_freshChunks {frontier n : ℤ} (b : ℤ) :
    cover ((freshChunks frontier n).map Chunk.range) b = cover [⟨frontier, frontier + n - 1⟩] b := by
  rw [freshChunks]
  split_ifs with h
  · rw [cover_empty (by simp only; omega)]
    rfl
  · rfl

lemma freshChunks_inside {frontier n : ℤ} (h₀ : 0 ≤ frontier) (hn : 0 ≤ n) :
    ∀ c ∈ freshChunks frontier n, c.Inside (frontier + n) := by
  intro c hc
  rw [freshChunks] at hc
  split_ifs at hc with h
  · cases hc
  · obtain rfl := List.mem_singleton.mp hc
    exact ⟨newChunk_valid (by omega), h₀, by simp only [newChunk]; omega⟩

/-- The last chunk of the sorted list ends where the new part of the file does. -/
lemma last_of_sorted {held cs : List Chunk} {n offset : ℤ} {last : Chunk} (hn : 0 ≤ n)
    (hperm : cs.Perm (held ++ freshChunks (offset + 1) n)) (hs : ByStart cs)
    (hin : ∀ c ∈ held, c.Inside (offset + 1)) (hlast : cs.getLast? = some last) :
    (if offset < last.lastByte then last.lastByte else offset) = offset + n := by
  obtain ⟨pre, rfl⟩ := List.getLast?_eq_some_iff.mp hlast
  have hmem := hperm.mem_iff.mp (List.mem_append_right pre (List.mem_singleton_self last))
  by_cases h₀ : n = 0
  · rw [freshChunks, if_pos h₀, List.append_nil] at hmem
    have := (hin last hmem).2.2
    rw [if_neg (by omega)]
    omega
  · rw [freshChunks, if_neg h₀] at hperm hmem
    have hnew : (newChunk (offset + 1) n).startByte ≤ last.startByte := by
      have hm := hperm.mem_iff.mpr
        (List.mem_append_right held (List.mem_singleton_self (newChunk (offset + 1) n)))
      rcases List.mem_append.mp hm with hm | hm
      · exact (List.pairwise_append.mp hs).2.2 _ hm last (List.mem_singleton_self last)
      · rw [List.mem_singleton.mp hm]
    rcases List.mem_append.mp hmem with hm | hm
    · obtain ⟨hv, -, hlt⟩ := hin last hm
      have := hv.1
      have := hv.2
      simp only [newChunk] at hnew
      omega
    · obtain rfl := List.mem_singleton.mp hm
      have hend : (newChunk (offset + 1) n).lastByte = offset + n := by
        simp only [newChunk]
        omega
      rw [hend, if_pos (by omega)]

/-- The session with a new segment at the end of the list. -/
def Session.pushed (s : Session) (g : Segment) (last : ℤ) : Session := { s with
  offsetInfo := { s.offsetInfo.push g last with
    connection := fun j => firstWith j s.offsetInfo.segments } }

section Push

variable {φ : Phase} {i : Link} {s : Session} {g : Segment} {n : ℤ} {last : Chunk} {robbed : Bool}

/-- A segment with all the chunks held and the next bytes of the file. -/
structure Next (φ : Phase) (s : Gb) (n : ℤ) (g : Segment) : Prop where
  nonneg : 0 ≤ n
  fits : s.frontier + n ≤ s.size
  id : g.id = s.offsetInfo.segmentCount + 1
  bare : g.subsegment = fun _ => none
  perm : g.chunkList.Perm (φ.held ++ freshChunks s.frontier n)
  sorted : ByStart g.chunkList
  size : g.size = sizeSum g.chunkList

lemma Rep.held_inside {s : Gb} (h : Rep φ s) : ∀ c ∈ φ.held, c.Inside s.frontier := by
  cases φ with
  | rest => simp [Phase.held]
  | reading i => simp [Phase.held]
  | robbing i held => exact h.fits.2.2.1

/-- The bytes held and the next bytes of the file become pending for the other connection. -/
lemma handed_push {s : Gb} (hf : s.frontier + n ≤ s.size) (hn : 0 ≤ n)
    {t : Gb} (hsize : t.size = s.size) (hout : t.outfile = s.outfile)
    (hqueue : ∀ j, t.queue j = s.queue j) (hfront : t.frontier = s.frontier + n) {cs : List Chunk}
    (hperm : cs.Perm (φ.held ++ freshChunks s.frontier n)) :
    Schedule.Steps (s.schedule φ) (t.handed fun j => if j = i then [] else cs) := by
  have hext : Schedule.Step (s.schedule φ) { s.schedule φ with
      queue := fun j => (s.schedule φ).queue j ++
        if j = i then [] else [⟨s.frontier, s.frontier + n - 1⟩]
      frontier := s.frontier + n } := by
    refine .extend n _ hn hf fun b => ?_
    rw [sum_link]
    cases i <;> simp [cover_singleton, Gb.schedule]
  refine .tail (.single hext) ?_
  have heq : t.handed (fun j => if j = i then [] else cs) = { s.schedule φ with
      queue := fun j => s.queue j ++ (if j = i then [] else cs).map Chunk.range
      frontier := s.frontier + n } := by
    simp only [Gb.handed, Gb.schedule, hsize, hout, hfront, hqueue]
  rw [heq]
  refine .deal (fun j => s.queue j) (fun j => (φ.heldFrom j).map Chunk.range ++
    if j = i then [] else [⟨s.frontier, s.frontier + n - 1⟩]) _ ?_ fun b => ?_
  · funext j
    simp only [Gb.schedule, List.append_assoc]
  · have hp := cover_perm (hperm.map Chunk.range) b
    have hheld : cover (φ.held.map Chunk.range) b = cover ((φ.heldFrom .lte).map Chunk.range) b +
        cover ((φ.heldFrom .wifi).map Chunk.range) b := by
      rw [← φ.held_eq, List.map_append, cover_append]
    rw [List.map_append, cover_append, cover_freshChunks, hheld] at hp
    simp only [sum_link, cover_append]
    cases i <;> simp <;> omega

/-- A bare segment at the end of the list takes no bytes from either connection. -/
lemma Inv.push (h : Inv φ s) (hφ : φ = .reading i ∨ ∃ held, φ = .robbing i held)
    (hg : Next φ s.toGb n g) (hlast : g.chunkList.getLast? = some last)
    (hrob : robbed = false → φ.held = [])
    (hhalt : robbed = true → (s.conn i.other).enabled = false ∧ s.parts i.other = []) :
    Handing i robbed (fun j => if j = i then [] else g.chunkList) (s.pushed g last.lastByte) := by
  have hr := h.rep
  have hoff : (s.pushed g last.lastByte).offsetInfo.lastSegOffset = s.offsetInfo.lastSegOffset + n :=
    last_of_sorted hg.nonneg hg.perm hg.sorted hr.held_inside hlast
  have hfront : (s.pushed g last.lastByte).frontier = s.frontier + n := by
    simp only [Gb.frontier, hoff]
    omega
  have hbare : ∀ j, g.subsegment j = none := fun j => by rw [hg.bare]
  have hparts : ∀ j, (s.pushed g last.lastByte).parts j = s.parts j := fun j =>
    (parts_bare (hbare j) _).1
  have hqueue : ∀ j, (s.pushed g last.lastByte).queue j = s.queue j := fun j => by
    rw [Gb.queue, Gb.queue, hparts]
    rfl
  have hstep : Schedule.Steps (s.schedule φ) ((s.pushed g last.lastByte).handed
      fun j => if j = i then [] else g.chunkList) :=
    handed_push (t := (s.pushed g last.lastByte).toGb) hg.fits hg.nonneg rfl rfl hqueue hfront hg.perm
  have hload : ∀ b, ((s.pushed g last.lastByte).handed
      fun j => if j = i then [] else g.chunkList).load b ≤ 1 := fun b => by
    rw [hstep.load_eq]
    exact hr.load b
  have hbusy : φ.Busy i ∧ φ.heldFrom i = [] ∧ φ.slack = (Phase.reading i).slack ∧ s.parts i ≠ [] := by
    obtain rfl | ⟨held, rfl⟩ := hφ
    · exact ⟨rfl, rfl, rfl, hr.fits⟩
    · exact ⟨rfl, if_neg (Link.other_ne i).symm, rfl, hr.fits.1⟩
  have hin : ∀ c ∈ g.chunkList, c.Inside (s.frontier + n) := by
    intro c hc
    have hn := hg.nonneg
    have hf := hr.frontier.1
    rcases List.mem_append.mp (hg.perm.mem_iff.mp hc) with hc | hc
    · exact (hr.held_inside c hc).mono (by omega)
    · exact freshChunks_inside (by simp only [Gb.frontier]; omega) hn c hc
  have hpend : ∀ j, ∀ c ∈ (if j = i then [] else g.chunkList),
      c.Inside (s.pushed g last.lastByte).frontier := by
    intro j c hc
    split_ifs at hc
    · cases hc
    · exact hfront ▸ hin c hc
  have hmem : last ∈ (if i.other = i then [] else g.chunkList) := by
    rw [if_neg (Link.other_ne i)]
    exact List.mem_of_getLast? hlast
  have hle : (s.pushed g last.lastByte).frontier ≤ (s.pushed g last.lastByte).size := by
    rw [hfront]
    exact hg.fits
  have hmissing : ¬ (s.pushed g last.lastByte).CompleteTo (s.pushed g last.lastByte).size :=
    not_complete hload hle (j := i.other) hmem (hpend i.other last hmem)
  have hpointer : ∀ j, (s.pushed g last.lastByte).offsetInfo.connection j =
      firstWith j (s.pushed g last.lastByte).offsetInfo.segments := fun j =>
    (parts_bare (hbare j) _).2.symm
  have ht : (s.pushed g last.lastByte).trace = [] ++ s.trace := rfl
  refine ⟨⟨hr.two, hr.rates, hr.initSegSize, ?_, hr.remaining, ?_, fun j => ?_, fun j _ => hpointer j,
    ?_, fun b => ?_, hr.written, hr.bytesDone⟩, h.goodput, ?_, ?_, fun j => ?_, hload, fun ha => ?_,
    hpend, fun ha hrob' hp => ?_,
    fun hr' => ⟨(hhalt hr').1, (hparts i.other).trans (hhalt hr').2⟩, hmissing⟩
  · obtain ⟨h₁, h₂, h₃, h₄⟩ := hr.linked.push hg.id last.lastByte
    exact ⟨h₁, h₂, h₃, h₄⟩
  · rw [hoff]
    exact ⟨by have := hr.frontier.1; have := hg.nonneg; omega, hle⟩
  · rw [hfront, hparts, ← hbusy.2.2.1]
    exact (hr.lane j).mono (by have := hg.nonneg; omega) fun _ => id
  · exact fun hn => hbusy.2.2.2 ((hparts i).symm.trans hn)
  · have hl := hload b
    rw [handed_load] at hl
    rw [schedule_load]
    omega
  · exact h.log.extend ht (by simp) (fun hn => ⟨hn, by simp⟩) id rfl rfl rfl (fun _ => id)
      fun _ hc => absurd hc hmissing
  · exact h.told.extend ht (by simp) (fun _ => by simp) (fun _ => by simp) (by simp)
  · refine (h.wire j).frame ht rfl (hparts j) fun hb => ?_
    rw [show j = i from hb]
    exact hbusy.1
  · exact hstep.balanced (h.whole ha).balanced
  · have hheld : φ.heldFrom i.other = [] := by
      have hnil := φ.held_eq.trans (hrob hrob')
      cases i
      · exact (List.append_eq_nil_iff.mp hnil).2
      · exact (List.append_eq_nil_iff.mp hnil).1
    rw [hparts] at hp
    refine ((h.whole ha).idle i.other hheld hp).imp id fun hpl => ?_
    exact ⟨(hr.pointer i.other hheld).symm.trans hpl.1, hpl.2⟩

end Push

namespace Handing

variable {i : Link} {robbed : Bool} {pending : Link → List Chunk} {s t : Session}

lemma handed_of_core {s t : Gb} (h : t.core = s.core) : t.handed pending = s.handed pending := by
  have hc : t.core.handed pending = s.core.handed pending := by rw [h]
  exact hc

lemma murmur (h : Handing i robbed pending s) (hm : Murmur s t) (hl : Log t)
    (hg : ∀ j, 0 ≤ (t.conn j).bytesPerSecond ∧ 0 ≤ (t.conn j).bytesDone) :
    Handing i robbed pending t := by
  have hh : t.handed pending = s.handed pending := handed_of_core hm.core
  have hcore : ∀ {P : Gb → Prop}, P s.toGb.core → P t.toGb.core := fun hp => by rwa [hm.core]
  refine ⟨h.rep.of_core hm.core, hg, hl, h.told.murmur hm, fun j => (h.wire j).murmur hm, ?_,
    fun ha => ?_, ?_, fun ha hr => ?_, ?_, ?_⟩
  · rw [hh]
    exact h.load
  · rw [hh]
    exact h.balanced (hm.all ha)
  · exact hcore (P := fun u => ∀ j, ∀ c ∈ pending j, c.Inside u.frontier) h.inside
  · exact hcore (P := fun u => u.parts i.other = [] → (u.conn i.other).looksIdle ∨
      u.Placeholder i.other) (h.idle (hm.all ha) hr)
  · exact hcore (P := fun u => robbed = true → (u.conn i.other).enabled = false ∧
      u.parts i.other = []) h.halted
  · exact hcore (P := fun u => ¬ u.CompleteTo u.size) h.missing

lemma deal (h : Handing i robbed pending s) (dealt : Link → List Chunk)
    (hc : ∀ b, ∑ j, cover ((dealt j).map Chunk.range) b =
      ∑ j, cover ((pending j).map Chunk.range) b)
    (hin : ∀ j, ∀ c ∈ dealt j, c.Inside s.frontier) : Handing i robbed dealt s := by
  have hstep : Schedule.Step (s.handed pending) (s.handed dealt) := .deal _ _ _ rfl hc
  exact ⟨h.rep, h.goodput, h.log, h.told, h.wire, fun b => hstep.load_eq b ▸ h.load b,
    fun ha => hstep.balanced (h.balanced ha), hin, h.idle, h.halted, h.missing⟩

lemma adopt {robbed' : Bool} {j : Link} {es : List Event} (h : Handing i robbed pending s)
    (ha : Apart j es s t) (hqueue : t.queue j = s.queue j ++ (pending j).map Chunk.range)
    (hlane : Lane t.frontier ((Phase.reading i).slack j) t.outfile (t.conn j) (t.parts j))
    (hpointer : t.offsetInfo.connection j = firstWith j t.offsetInfo.segments)
    (hi : t.parts i ≠ []) (htold : Told t) (hwire : Wire (.reading i) t j)
    (hgood : (t.conn j).bytesPerSecond = (s.conn j).bytesPerSecond ∧
      (t.conn j).bytesDone = (s.conn j).bytesDone)
    (hidle : t.All Event.WritesAll → robbed' = false → t.parts i.other = [] →
      (t.conn i.other).looksIdle ∨ t.Placeholder i.other)
    (hhalt : robbed' = true → (t.conn i.other).enabled = false ∧ t.parts i.other = []) :
    Handing i robbed' (update pending j []) t := by
  have heq : t.handed (update pending j []) = s.handed pending := by
    simp only [Gb.handed, ha.size, ha.outfile, ha.frontier, Schedule.mk.injEq, true_and, and_true]
    funext k
    by_cases hk : k = j
    · rw [hk, update_self, hqueue]
      exact List.append_nil _
    · rw [update_of_ne hk, ha.queue hk]
  have hload : ∀ b, (t.handed (update pending j [])).load b ≤ 1 := heq ▸ h.load
  have hmissing : ¬ t.CompleteTo t.size := by
    rw [ha.completeTo, ha.size]
    exact h.missing
  refine ⟨ha.rep h.rep (fun _ _ => ⟨rfl, rfl⟩) hlane hpointer hi fun b => ?_,
    ha.goodput h.goodput hgood.1 hgood.2, ha.log h.log fun _ hc => absurd hc h.missing, htold,
    ha.wire h.wire (fun _ _ => id) hwire, hload, fun hall => heq ▸ h.balanced (ha.all hall),
    fun k c hc => ?_, hidle, hhalt, hmissing⟩
  · have hl := hload b
    rw [handed_load] at hl
    rw [schedule_load]
    omega
  · rw [ha.frontier]
    by_cases hk : k = j
    · rw [hk, update_self] at hc
      cases hc
    · rw [update_of_ne hk] at hc
      exact h.inside k c hc

/-- When nothing is pending any more the new segment is part of the list. -/
lemma done (h : Handing i false pending s) (hp : ∀ j, pending j = []) : Inv (.reading i) s := by
  have heq : s.handed pending = s.schedule (.reading i) := by
    simp only [Gb.handed, Gb.schedule, hp]
    rfl
  refine ⟨h.rep, h.goodput, fun ha => ⟨heq ▸ h.balanced ha, fun j _ hj => ?_, fun hpl => ?_⟩, h.log,
    h.told, h.wire⟩
  · obtain rfl | rfl := i.eq_or_other j
    · exact absurd hj h.rep.fits
    · exact h.idle ha rfl hj
  · exact h.rep.not_placeholder h.rep.fits (hpl i)

end Handing

end GreenBag
