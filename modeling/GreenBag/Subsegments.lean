import GreenBag.Offset

/-! `add_new_subsegment`: the chunks of the tail segment are dealt out to the two connections. -/

namespace GreenBag

open Programs Ranges Words

/-- What the first loop of `add_new_subsegment` puts on the fast connection, what it puts on the
slow one, and the chunks it leaves for the second loop. -/
def dealChunks (share : ℤ) : ℤ → ℤ → List Chunk → List Chunk × List Chunk × List Chunk
  | _, _, [] => ([], [], [])
  | left, seen, c :: cs =>
    if left = 0 then ([], [], c :: cs)
    else if share < seen + c.size then
      ([newChunk c.startByte left],
        if c.size - left ≠ 0 then [newChunk (c.startByte + left) (c.size - left)] else [], cs)
    else
      let (fast, slow, rest) := dealChunks share (left - c.size) (seen + c.size) cs
      (newChunk c.startByte c.size :: fast, slow, rest)

/-- `size * target_ratio / (target_ratio + another_ratio)`. -/
def portion (size targetRatio anotherRatio : ℤ) : Program ℤ := do
  let product ← signed 64 (size * targetRatio)
  let sum ← signed 32 (targetRatio + anotherRatio)
  ensure .divByZero (sum ≠ 0)
  signed 64 (product.tdiv sum)

/-- The share of the connection `index` in the tail segment. The ratios are passed as `int`. -/
def subsegSize (segment : Segment) (index : Link) (targetRatio anotherRatio : ℤ)
    (fixedSubsegmentMode : Bool) : Program ℤ := do
  let s ← get
  let target := s.toInt targetRatio
  let another := s.toInt anotherRatio
  if fixedSubsegmentMode then portion segment.size target another
  else do
    let size ← (if segment.recoverySegment then pure segment.size
      else getVirtualSegSize index segment.size)
    let share ← portion size target another
    return if share > segment.size then segment.size else share

def addNewSubsegment (index : Link) (targetRatio anotherRatio : ℤ) (fixedSubsegmentMode : Bool) :
    Program Unit := do
  let fast ← getFastConnIndex
  let s ← get
  let segment ← follow s.offsetInfo.tail
  ensure .exit (segment.chunkList ≠ [])
  let share ← subsegSize segment index targetRatio anotherRatio fixedSubsegmentMode
  let size := fun i => if i = index then share else segment.size - share
  let (fastList, slowList, rest) := dealChunks (size fast) (size fast) 0 segment.chunkList
  ensure .danglingPointer (slowList ≠ [] → size fast.other ≠ 0)
  let slowLeft := size fast.other - sizeSum slowList
  ensure .exit (rest ≠ [] → slowLeft ≠ 0)
  let chunkList := fun i => if i = fast then fastList
    else slowList ++ rest.map (fun c => newChunk c.startByte c.size)
  modifyOffsetInfo (·.modifySegment segment.id fun g => { g with
    subsegment := fun i => if size i = 0 then g.subsegment i else some ⟨chunkList i, size i⟩ })

/-- What link `j` adds to the virtual size of the tail segment for link `i`. -/
def Gb.virtualPart (s : Gb) (i j : Link) : ℤ :=
  match s.offsetInfo.connection j with
  | none => 0
  | some id => (if j ≠ i then (s.conn j).lastbyte - (s.conn j).currentbyte + 1 else 0) +
      s.offsetInfo.sizeBeforeTail id j

/-- The virtual size of the tail segment for a connection. -/
def Gb.virtualSize (s : Gb) (g : Segment) (i : Link) : ℤ :=
  if s.offsetInfo.numSegments = 1 then s.offsetInfo.segments.head?.elim 0 Segment.size
  else s.virtualPart i .lte + s.virtualPart i .wifi + g.size

/-- The size that is shared by the ratio of the goodputs. -/
def Gb.shareBase (s : Gb) (g : Segment) (i : Link) : ℤ :=
  if g.recoverySegment then g.size else s.virtualSize g i

/-- The share of a connection in the tail segment, with exact integers. -/
def Gb.shareOf (s : Gb) (g : Segment) (i : Link) (r q : ℤ) (fixed : Bool) : ℤ :=
  if fixed then (g.size * r).tdiv (r + q)
  else
    let share := (s.shareBase g i * r).tdiv (r + q)
    if share > g.size then g.size else share

/-- Neither the ratios nor a result of `portion` are too large for their types. -/
structure PortionFits (size targetRatio anotherRatio : ℤ) : Prop where
  target : InRange 32 targetRatio
  another : InRange 32 anotherRatio
  product : InRange 64 (size * targetRatio)
  sum : InRange 32 (targetRatio + anotherRatio)
  portion : InRange 64 ((size * targetRatio).tdiv (targetRatio + anotherRatio))

instance (size r q : ℤ) : Decidable (PortionFits size r q) :=
  decidable_of_iff (InRange 32 r ∧ InRange 32 q ∧ InRange 64 (size * r) ∧ InRange 32 (r + q) ∧
      InRange 64 ((size * r).tdiv (r + q)))
    ⟨fun ⟨h₁, h₂, h₃, h₄, h₅⟩ => ⟨h₁, h₂, h₃, h₄, h₅⟩, fun ⟨h₁, h₂, h₃, h₄, h₅⟩ => ⟨h₁, h₂, h₃, h₄, h₅⟩⟩

/-- So it is with the share of a connection in a segment. -/
def Gb.ShareFits (s : Gb) (g : Segment) (i : Link) (r q : ℤ) (fixed : Bool) : Prop :=
  PortionFits (if fixed then g.size else s.shareBase g i) r q

/-- The first loop takes whole chunks as far as the share goes, and cuts the next one where the share
ends inside it. -/
lemma dealChunks_split {share left seen : ℤ} {cs : List Chunk} (hl : 0 ≤ left)
    (hs : share = seen + left) (hv : ∀ c ∈ cs, c.Valid) :
    (∃ pre post, cs = pre ++ post ∧ dealChunks share left seen cs = (pre, [], post) ∧
      (sizeSum pre = left ∨ post = [] ∧ sizeSum pre ≤ left)) ∨
    (∃ pre c post n, cs = pre ++ c :: post ∧ 1 ≤ n ∧ n < c.size ∧ sizeSum pre + n = left ∧
      dealChunks share left seen cs = (pre ++ [newChunk c.startByte n],
        [newChunk (c.startByte + n) (c.size - n)], post)) := by
  induction cs generalizing left seen with
  | nil => exact .inl ⟨[], [], rfl, by simp [dealChunks], .inr ⟨rfl, hl⟩⟩
  | cons c cs ih =>
    have hc := hv c List.mem_cons_self
    rw [dealChunks]
    by_cases h₀ : left = 0
    · rw [if_pos h₀]
      exact .inl ⟨[], c :: cs, rfl, rfl, .inl h₀.symm⟩
    · by_cases h₁ : share < seen + c.size
      · rw [if_neg h₀, if_pos h₁, if_pos (by omega)]
        exact .inr ⟨[], c, cs, left, rfl, by omega, by omega, by simp, rfl⟩
      · rw [if_neg h₀, if_neg h₁, newChunk_self hc]
        have hi := @ih (left - c.size) (seen + c.size) (by omega) (by omega)
          (fun d hd => hv d (List.mem_cons_of_mem _ hd))
        obtain ⟨pre, post, rfl, hd, hsum⟩ | ⟨pre, d, post, n, rfl, h₂, h₃, hsum, hd⟩ := hi
        · refine .inl ⟨c :: pre, post, rfl, by rw [hd], ?_⟩
          rw [sizeSum_cons]
          rcases hsum with hsum | ⟨rfl, hsum⟩
          · exact .inl (by omega)
          · exact .inr ⟨rfl, by omega⟩
        · refine .inr ⟨c :: pre, d, post, n, rfl, h₂, h₃, ?_, by rw [hd]; rfl⟩
          rw [sizeSum_cons]
          omega

/-- A piece of one of the chunks. -/
def PieceOf (cs : List Chunk) (c : Chunk) : Prop :=
  c.Valid ∧ ∃ d ∈ cs, d.startByte ≤ c.startByte ∧ c.lastByte ≤ d.lastByte

lemma pieceOf_self {cs : List Chunk} (hv : ∀ c ∈ cs, c.Valid) : ∀ c ∈ cs, PieceOf cs c :=
  fun c hc => ⟨hv c hc, c, hc, le_rfl, le_rfl⟩

/-- One list behind the other, with at most one chunk cut in two where they meet. -/
def CutOnce (cs fast slow : List Chunk) : Prop :=
  cs = fast ++ slow ∨ ∃ pre c post n, cs = pre ++ c :: post ∧ 1 ≤ n ∧ n < c.size ∧
    fast = pre ++ [newChunk c.startByte n] ∧
    slow = newChunk (c.startByte + n) (c.size - n) :: post

/-- An ordered split of a chunk list. -/
structure SplitAt (share : ℤ) (cs fast slow : List Chunk) : Prop where
  cut : CutOnce cs fast slow
  fast_size : sizeSum fast = share
  slow_size : sizeSum slow = sizeSum cs - share
  pieces : ∀ c ∈ fast ++ slow, PieceOf cs c
  ascending : Ascending (fast ++ slow)
  cover : ∀ b, Ranges.cover ((fast ++ slow).map Chunk.range) b = Ranges.cover (cs.map Chunk.range) b

lemma splitAt_whole {pre post : List Chunk} (hv : ∀ c ∈ pre ++ post, c.Valid)
    (ha : Ascending (pre ++ post)) : SplitAt (sizeSum pre) (pre ++ post) pre post where
  cut := .inl rfl
  fast_size := rfl
  slow_size := by
    rw [sizeSum_append]
    omega
  pieces := pieceOf_self hv
  ascending := ha
  cover := fun _ => rfl

lemma splitAt_cut {pre post : List Chunk} {c : Chunk} {n : ℤ}
    (hv : ∀ d ∈ pre ++ c :: post, d.Valid) (ha : Ascending (pre ++ c :: post)) (h₁ : 1 ≤ n)
    (h₂ : n < c.size) : SplitAt (sizeSum pre + n) (pre ++ c :: post)
      (pre ++ [newChunk c.startByte n]) (newChunk (c.startByte + n) (c.size - n) :: post) := by
  have hc : c.Valid := hv c (by simp)
  have hcc : c ∈ pre ++ c :: post := by simp
  have hlast : c.startByte + c.size - 1 = c.lastByte := by
    have := hc.1
    omega
  refine ⟨.inr ⟨pre, c, post, n, rfl, h₁, h₂, rfl, rfl⟩, by simp [newChunk],
    by simp [newChunk]; omega, ?_, ?_, ?_⟩
  · intro d hd
    simp only [List.append_assoc, List.singleton_append, List.mem_append, List.mem_cons] at hd
    rcases hd with hd | rfl | rfl | hd
    · exact pieceOf_self hv d (by simp [hd])
    · exact ⟨newChunk_valid h₁, c, hcc, le_rfl, by simp only [newChunk]; omega⟩
    · exact ⟨newChunk_valid (by omega), c, hcc, by simp only [newChunk]; omega,
        by simp only [newChunk]; omega⟩
    · exact pieceOf_self hv d (by simp [hd])
  · obtain ⟨hpre, hcp, hcross⟩ := List.pairwise_append.mp ha
    obtain ⟨hc', hpost⟩ := List.pairwise_cons.mp hcp
    simp only [Ascending, List.append_assoc, List.singleton_append]
    refine List.pairwise_append.mpr ⟨hpre, ?_, ?_⟩
    · refine List.pairwise_cons.mpr ⟨?_, List.pairwise_cons.mpr ⟨?_, hpost⟩⟩
      · intro d hd
        rcases List.mem_cons.mp hd with rfl | hd
        · simp only [newChunk]
          omega
        · have := hc' d hd
          simp only [newChunk]
          omega
      · intro d hd
        have := hc' d hd
        simp only [newChunk]
        omega
    · intro a hm d hd
      have hac := hcross a hm c List.mem_cons_self
      simp only [List.mem_cons] at hd
      rcases hd with rfl | rfl | hd
      · exact hac
      · simp only [newChunk]
        omega
      · exact hcross a hm d (List.mem_cons_of_mem _ hd)
  · intro b
    have hcut := cover_cut (a := c.startByte) (m := c.startByte + n) (c := c.lastByte) (by omega)
      (by omega) (post.map Chunk.range) b
    have hend : c.startByte + n + (c.size - n) - 1 = c.lastByte := by omega
    simp only [List.append_assoc, List.singleton_append, List.map_append, List.map_cons,
      cover_append, Chunk.range_newChunk, hend]
    simp only [Chunk.range]
    omega

/-- What the two loops put on the fast connection and on the slow one. -/
def dealtOut (share : ℤ) (cs : List Chunk) : List Chunk × List Chunk :=
  ((dealChunks share share 0 cs).1, (dealChunks share share 0 cs).2.1 ++
    (dealChunks share share 0 cs).2.2.map fun c => newChunk c.startByte c.size)

lemma dealtOut_splitAt (share : ℤ) {cs : List Chunk} (h₀ : 0 ≤ share) (h₁ : share ≤ sizeSum cs)
    (hv : ∀ c ∈ cs, c.Valid) (ha : Ascending cs) :
    SplitAt share cs (dealtOut share cs).1 (dealtOut share cs).2 := by
  rw [dealtOut]
  obtain ⟨fast, slow, rest, h⟩ : ∃ fast slow rest, dealChunks share share 0 cs = (fast, slow, rest) :=
    ⟨_, _, _, rfl⟩
  rw [h]
  have hself : ∀ ds : List Chunk, (∀ c ∈ ds, c.Valid) →
      ds.map (fun c => newChunk c.startByte c.size) = ds := fun ds hd =>
    (List.map_congr_left (fun c hc => newChunk_self (hd c hc))).trans (List.map_id' ds)
  obtain ⟨pre, post, rfl, hd, hsum⟩ | ⟨pre, c, post, n, rfl, h₂, h₃, hsum, hd⟩ :=
    dealChunks_split h₀ (by omega : share = 0 + share) hv
  · obtain ⟨rfl, rfl, rfl⟩ : pre = fast ∧ [] = slow ∧ post = rest := by simpa [hd] using h
    have hshare : sizeSum pre = share := by
      rcases hsum with hsum | ⟨rfl, hsum⟩
      · exact hsum
      · rw [sizeSum_append, sizeSum_nil] at h₁
        omega
    rw [List.nil_append, hself post (fun c hc => hv c (by simp [hc])), ← hshare]
    exact splitAt_whole hv ha
  · obtain ⟨rfl, rfl, rfl⟩ : pre ++ [newChunk c.startByte n] = fast ∧
        [newChunk (c.startByte + n) (c.size - n)] = slow ∧ post = rest := by simpa [hd] using h
    rw [hself post (fun d hd => hv d (by simp [hd])), ← hsum]
    exact splitAt_cut hv ha h₂ h₃

/-- Neither exit of `add_new_subsegment` behind the first loop is taken. -/
lemma dealChunks_safe (share : ℤ) {cs fast slow rest : List Chunk}
    (h : dealChunks share share 0 cs = (fast, slow, rest)) (h₀ : 0 ≤ share)
    (h₁ : share ≤ sizeSum cs) (hv : ∀ c ∈ cs, c.Valid) :
    (slow ≠ [] → sizeSum cs - share ≠ 0) ∧ (rest ≠ [] → sizeSum cs - share - sizeSum slow ≠ 0) := by
  obtain ⟨pre, post, rfl, hd, hsum⟩ | ⟨pre, c, post, n, rfl, h₂, h₃, hsum, hd⟩ :=
    dealChunks_split h₀ (by omega : share = 0 + share) hv
  · obtain ⟨rfl, rfl, rfl⟩ : pre = fast ∧ [] = slow ∧ post = rest := by simpa [hd] using h
    refine ⟨fun hn => absurd rfl hn, fun hn => ?_⟩
    have hpos := sizeSum_pos (fun c hc => hv c (List.mem_append_right _ hc)) hn
    rw [sizeSum_append, sizeSum_nil]
    rcases hsum with hsum | ⟨rfl, -⟩
    · omega
    · exact absurd rfl hn
  · obtain ⟨-, rfl, rfl⟩ : pre ++ [newChunk c.startByte n] = fast ∧
        [newChunk (c.startByte + n) (c.size - n)] = slow ∧ post = rest := by simpa [hd] using h
    have hpost : 0 ≤ sizeSum post := sizeSum_nonneg fun d hd => hv d (by simp [hd])
    rw [sizeSum_append, sizeSum_cons]
    refine ⟨fun _ => by omega, fun hn => ?_⟩
    have hpos := sizeSum_pos (fun d hd => hv d (by simp [hd])) hn
    simp only [sizeSum_cons, sizeSum_nil, newChunk]
    omega

end GreenBag
