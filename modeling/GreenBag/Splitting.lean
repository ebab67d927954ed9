import GreenBag.Starting

/-! What `add_new_subsegment` makes of the tail segment, for any ratios and goodputs. -/

namespace GreenBag

open Programs Ranges Schedules Words

/-- The subsegments for shares of the given sizes: present where the share is not empty, of its size,
and in order, the fast connection first. -/
structure SplitOf (g : Segment) (fast : Link) (size : Link → ℤ) (sub : Link → Option Subsegment) :
    Prop where
  nonneg : ∀ j, 0 ≤ size j
  total : size fast + size fast.other = g.size
  present : ∀ j, sub j = none ↔ size j = 0
  sizes : ∀ j p, sub j = some p → p.size = size j ∧ sizeSum p.chunkList = size j
  valid : ∀ j p, sub j = some p → ∀ c ∈ p.chunkList, c.Valid
  cut : CutOnce g.chunkList ((sub fast).elim [] Subsegment.chunkList)
    ((sub fast.other).elim [] Subsegment.chunkList)

section

variable {g : Segment} {fast : Link} {size : Link → ℤ} {fastList slowList : List Chunk}

lemma SplitAt.elim_eq (h : SplitAt (size fast) g.chunkList fastList slowList)
    (hs : size fast + size fast.other = sizeSum g.chunkList) :
    (dealtShare fast size fastList slowList fast).elim [] Subsegment.chunkList = fastList ∧
      (dealtShare fast size fastList slowList fast.other).elim [] Subsegment.chunkList = slowList := by
  have hv : ∀ c ∈ fastList ++ slowList, c.Valid := fun c hc => (h.pieces c hc).1
  simp only [dealtShare]
  constructor
  · by_cases hz : size fast = 0
    · rw [if_pos hz]
      refine (eq_nil_of_sizeSum (fun c hc => hv c (by simp [hc])) ?_).symm
      rw [h.fast_size, hz]
    · simp [hz]
  · by_cases hz : size fast.other = 0
    · rw [if_pos hz]
      refine (eq_nil_of_sizeSum (fun c hc => hv c (by simp [hc])) ?_).symm
      rw [h.slow_size]
      omega
    · simp [hz, Link.other_ne]

lemma SplitAt.splitOf (h : SplitAt (size fast) g.chunkList fastList slowList)
    (hs : size fast + size fast.other = g.size) (hg : g.size = sizeSum g.chunkList)
    (hn : ∀ j, 0 ≤ size j) : SplitOf g fast size (dealtShare fast size fastList slowList) := by
  have hd := h.dealt fast (hs.trans hg)
  have hsize : ∀ j p, dealtShare fast size fastList slowList j = some p → p.size = size j := by
    intro j p hp
    rw [dealtShare] at hp
    split_ifs at hp
    all_goals
      obtain rfl := Option.some.inj hp
      rfl
  obtain ⟨hf, hw⟩ := h.elim_eq (hs.trans hg)
  refine ⟨hn, hs, fun j => by simp [dealtShare], fun j p hp => ⟨hsize j p hp, ?_⟩, fun j p hp c hc => ?_, ?_⟩
  · rw [← (hd.pieces j p hp).2.2.2]
    exact hsize j p hp
  · exact ((hd.pieces j p hp).2.1 c hc).1
  · rw [hf, hw]
    exact h.cut

end

section

variable {s : Session} {front : List Segment} {g : Segment}

lemma IsTail.segments_ne_nil {s : Gb} (h : IsTail front g s) : s.offsetInfo.segments ≠ [] := by
  rw [h.segments]
  simp

/-- A tail segment with chunks in order is split between the connections, whatever the ratios, the mode
and the goodputs are, with exact integers and wherever the share fits; where the pending sizes count, none
of them is negative. -/
theorem addNewSubsegment_splits (h : IsTail front g s.toGb) (hne : g.chunkList ≠ [])
    (hbare : g.subsegment = fun _ => none) (hlinks : ∀ j, j ∈ s.links)
    (hpointers : ∀ j id, s.offsetInfo.connection j = some id → s.offsetInfo.deref id ≠ none)
    (i : Link) {r q : ℤ} (hr : 0 ≤ r) (hq : 0 ≤ q) (hrq : 0 < r + q) (fixed : Bool)
    (hfit : s.exact ∨ s.ShareFits g i r q fixed) (hw : fixed = false → g.recoverySegment = false → s.Weighed) :
    ∃ share fast sub, subsegSize g i r q fixed s = .ok share s ∧ getFastConnIndex s = .ok fast s ∧
      SplitOf g fast (shareSize i share g.size) sub ∧
      addNewSubsegment i r q fixed s = .ok () { s with offsetInfo := { s.offsetInfo with
        segments := front ++ [{ g with subsegment := sub }] } } := by
  have hsafe : Safe (fun _ _ => False) s :=
    ⟨fun j id hc hd => hpointers j id hc hd, fun j hj => hj (hlinks j), h.segments_ne_nil⟩
  have hz : r + q ≠ 0 := by omega
  have hints : s.exact ∨ InRange 32 r ∧ InRange 32 q := hfit.imp id fun hf => ⟨hf.target, hf.another⟩
  obtain ⟨share, u, hshare, rfl, -, -, rfl⟩ := exists_of_wp (wp_subsegSize (fun _ => hsafe) i
    (hints.imp id And.left) (hints.imp id And.right) fixed (fun hn => hz hn) fun hn => hn hfit)
  have hf : wp getFastConnIndex (fun fast t => t = u ∧ fast = u.fastIndex) (fun _ _ => False) u :=
    wp_getFastConnIndex_eq hsafe ⟨rfl, rfl⟩
  obtain ⟨fast, v, hfast, rfl, rfl⟩ := exists_of_wp hf
  obtain ⟨_, t, hrun, size, fastList, slowList, -, rfl, -, hsplit, rfl⟩ := exists_of_wp
    (wp_addNewSubsegment_split h hbare hsafe hne i hr hq hints (fun hn => hz hn) (fun hn => hn hfit) hw)
  refine ⟨_, _, _, hshare, hfast, hsplit.splitOf (shareSize_sum ..) h.size fun j => ?_, hrun⟩
  obtain ⟨h₀, h₁⟩ := h.shareOf_bounds i hr hq hz hw
  simp only [shareSize]
  split_ifs <;> omega

/-- In a run the function is only called in such a state, and with ratios that are not negative. -/
theorem Session.Seen.tailReady (h : s.Seen) {s' : Gb} {mode : LinkMode} {i : Link}
    (hc : s.FitsTo (.called s' (.nextSubsegment mode) i)) : ∃ front g, TailReady i front g s' :=
  h.sound hc

/-- A list with one segment of two chunks, between which there is a gap. -/
def gapSegment : Segment := bareSegment 1 false [newChunk 0 4, newChunk 6 2] 6

def gapSession : Session := { gbNew freshStatics plainConf 16 true 206 with
  offsetInfo := emptyOffsetInfo.push gapSegment 7 }

/-- The second chunk is cut. -/
theorem addNewSubsegment_splits_gap : ∃ share fast sub,
    subsegSize gapSegment .wifi 1 5 false gapSession = .ok share gapSession ∧
      getFastConnIndex gapSession = .ok fast gapSession ∧
      SplitOf gapSegment fast (shareSize .wifi share gapSegment.size) sub ∧
      addNewSubsegment .wifi 1 5 false gapSession = .ok () { gapSession with
        offsetInfo := { gapSession.offsetInfo with
          segments := [] ++ [{ gapSegment with subsegment := sub }] } } := by
  have hempty : emptyOffsetInfo.Linked := ⟨List.Pairwise.nil, by simp [emptyOffsetInfo], rfl, rfl⟩
  have hparts : ∀ j, gapSession.parts j = [] := fun _ => rfl
  have htail : IsTail [] gapSegment gapSession.toGb :=
    ⟨hempty.push rfl _, rfl, by simp [gapSegment, bareSegment, Chunk.Valid, newChunk],
      by simp [gapSegment, bareSegment, Ascending, newChunk], by decide⟩
  exact addNewSubsegment_splits htail (by decide) rfl (by decide) (fun _ _ hc => by cases hc) .wifi
    (by decide) (by decide) (by decide) false (.inr (by decide)) fun _ _ j =>
    ⟨fun hc => absurd rfl hc, by simp [hparts]⟩

end

end GreenBag
