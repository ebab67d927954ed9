import GreenBag.Splitting

/-! The share of a connection with the C types as written, and how well it balances the connections. -/

namespace GreenBag

open Programs Ranges Schedules Words

/-- A negative share, for a goodput of `2 ^ 32 - 1`. -/
example : result (subsegSize gapSegment .wifi (2 ^ 32 - 1) 3 false) gapSession = some (-3) := by
  decide +kernel

/-- Neither the sum of the goodputs nor the product of one of them with the size overflows, and the sum is
not zero. -/
def Shareable (size r q : ℤ) : Prop := 0 < r + q ∧ r + q < 2 ^ 31 ∧ size * r < 2 ^ 63

/-- The share is defined, that of exact arithmetic, and within the segment. -/
def SharesRight (t : Session) (g : Segment) (i : Link) (r q : ℤ) : Prop :=
  ∃ share, subsegSize g i r q false t = .ok share t ∧
    share = min g.size (t.shareBase g i * r / (r + q)) ∧ 0 ≤ share ∧ share ≤ g.size

lemma shareable_iff {v r q : ℤ} (hv : 0 ≤ v) (hr : 0 ≤ r) (hq : 0 ≤ q) :
    Shareable v r q ↔ r + q ≠ 0 ∧ PortionFits v r q := by
  have hvr : 0 ≤ v * r := mul_nonneg hv hr
  constructor
  · rintro ⟨h₀, h₁, h₂⟩
    refine ⟨h₀.ne', (portionFits_iff hv hr hq ?_ ?_).mpr ⟨?_, ?_⟩⟩
    all_goals
      simp only [InRange]
      omega
  · rintro ⟨h₀, hfit⟩
    have hsum := hfit.sum.2
    have hproduct := hfit.product.2
    exact ⟨by omega, by omega, by omega⟩

section

variable {s : Session} {front pre post : List Segment} {g k : Segment} {i j : Link} {p : Subsegment}
  {ps : List Subsegment}

lemma Rep.safe {crash : Fault → Session → Prop} (h : Rep (.reading i) s.toGb) : Safe crash s := by
  refine ⟨fun j id hc hd => ?_, fun j hj => absurd (h.mem_links j) hj, fun hn => ?_⟩
  · rw [h.pointer j rfl] at hc
    cases hp : s.parts j with
    | nil =>
      rw [firstWith_eq_none.mpr hp] at hc
      cases hc
    | cons p ps =>
      obtain ⟨pre, k, post, hs, hpre, hk, -⟩ := exists_split hp
      rw [hs, firstWith_split hpre hk] at hc
      obtain rfl := Option.some.inj hc
      rw [h.linked.deref_eq hs] at hd
      cases hd
  · have hparts : s.parts i = [] := by
      rw [Gb.parts, hn]
      rfl
    exact absurd hparts h.fits

lemma TailReady.safe {crash : Fault → Session → Prop} (h : TailReady i front g s.toGb) :
    g.recoverySegment = false → Safe crash s := fun hr => (h.planning hr).rep.safe

lemma TailReady.shareBase_nonneg {s : Gb} (h : TailReady i front g s) : 0 ≤ s.shareBase g i :=
  h.toIsTail.shareBase_nonneg h.weighed i

/-- With goodputs of 31 bits the share is right exactly if neither the sum nor the product overflows and
the sum is not zero. -/
lemma TailReady.sharesRight_iff (h : TailReady i front g s.toGb) (hex : s.exact = false) {r q : ℤ}
    (hr : 0 ≤ r) (hq : 0 ≤ q) (hri : InRange 32 r) (hqi : InRange 32 q) :
    SharesRight s g i r q ↔ Shareable (s.shareBase g i) r q := by
  have hbase := h.shareBase_nonneg
  have hiff := shareable_iff hbase hr hq
  have hw : wp (subsegSize g i r q false) _ (fun _ _ => ¬ Shareable (s.shareBase g i) r q) s :=
    wp_subsegSize h.safe i (.inr hri) (.inr hqi) false (fun hz hc => (hiff.mp hc).1 hz)
      (fun hn hc => hn (.inr (hiff.mp hc).2))
  constructor
  · rintro ⟨share, hrun, -⟩
    obtain ⟨-, hrq, hfit, -⟩ := ((wp_iff _).mp hw).1 share s hrun
    exact hiff.mpr ⟨hrq, hfit.resolve_left (by simp [hex])⟩
  · intro hc
    have hrq := (hiff.mp hc).1
    obtain ⟨h₀, h₁⟩ : 0 ≤ s.shareOf g i r q false ∧ s.shareOf g i r q false ≤ g.size :=
      h.toIsTail.shareOf_bounds i hr hq hrq fun _ => h.weighed
    obtain ⟨share, u, hrun, rfl, -, -, rfl⟩ := exists_of_wp
      (wp_mono hw (fun _ _ h => h) fun _ _ hn => hn hc)
    refine ⟨_, hrun, ?_, h₀, h₁⟩
    simp only [Gb.shareOf, Bool.false_eq_true, if_false,
      Int.tdiv_eq_ediv_of_nonneg (mul_nonneg hbase hr)]
    split_ifs <;> omega

/-- At each step that shares a segment by goodputs, and before which no share overflows, the share is right
where the sum of the goodputs is positive and fits 31 bits, and their product with the virtual size fits 63;
with goodputs of 31 bits, only there. -/
theorem shares_right {s : Session} (h : s.Seen) : ∀ s' i,
    s.FitsTo (.called s' (.nextSubsegment .dual) i) → ∃ front g v, s'.offsetInfo.segments = front ++ [g] ∧
      ∀ t : Session, t.toGb = s' → t.exact = false →
        (if g.recoverySegment then pure g.size
          else getVirtualSegSize i g.size : Program ℤ) t = .ok v t ∧
        ∀ r q, 0 ≤ r → 0 ≤ q → (Shareable v r q → SharesRight t g i r q) ∧
          (SharesRight t g i r q → r < 2 ^ 31 → q < 2 ^ 31 → Shareable v r q) := by
  intro s' i hm
  obtain ⟨front, g, hg⟩ := h.tailReady hm
  refine ⟨front, g, s'.shareBase g i, hg.segments, fun t ht hex => ?_⟩
  subst ht
  refine ⟨?_, fun r q hr hq => ⟨fun hc => ?_, fun hs hr' hq' => ?_⟩⟩
  · obtain ⟨v, u, hv, rfl, rfl⟩ := exists_of_wp (wp_shareBase hg.safe i)
    exact hv
  · obtain ⟨-, hfit⟩ := (shareable_iff hg.shareBase_nonneg hr hq).mp hc
    exact (hg.sharesRight_iff hex hr hq hfit.target hfit.another).mpr hc
  · exact (hg.sharesRight_iff hex hr hq ⟨by omega, hr'⟩ ⟨by omega, hq'⟩).mp hs

lemma sum_sizes (j : Link) (gs : List Segment) :
    (gs.map fun k => (k.subsegment j).elim 0 Subsegment.size).sum =
      ((parts j gs).map Subsegment.size).sum := by
  induction gs with
  | nil => rfl
  | cons k gs ih =>
    rw [List.map_cons, List.sum_cons, ih, parts_cons, List.map_append, List.sum_append]
    cases k.subsegment j <;> simp

/-- Behind a segment, the subsegments up to the tail are all there are, as long as the tail is bare. -/
lemma IsTail.sizeBeforeTail_eq {s : Gb} (h : IsTail front g s) (hbare : g.subsegment j = none)
    (hs : s.offsetInfo.segments = pre ++ k :: post) :
    s.offsetInfo.sizeBeforeTail k.id j = ((parts j post).map Subsegment.size).sum := by
  have htail : s.offsetInfo.tail = some g.id := by
    rw [h.linked.tail_eq, h.segments]
    simp
  rw [OffsetInfo.sizeBeforeTail, h.linked.behind_eq hs, htail]
  rcases List.eq_nil_or_concat post with rfl | ⟨mid, m, rfl⟩
  · rfl
  · have heq : front ++ [g] = (pre ++ k :: mid) ++ [m] := by
      rw [← h.segments, hs]
      simp
    obtain ⟨-, hm⟩ := List.append_inj' heq rfl
    obtain rfl := List.singleton_inj.mp hm
    have hlt := h.linked.increasing
    rw [hs] at hlt
    have hpost := (List.pairwise_cons.mp (List.pairwise_append.mp hlt).2.1).2
    have hmid : ∀ x ∈ mid, x.id < g.id := by
      intro x hx
      rw [List.concat_eq_append] at hpost
      exact (List.pairwise_append.mp hpost).2.2 x hx g List.mem_cons_self
    have htake : (mid ++ [g]).takeWhile (fun x => some x.id ≠ some g.id) = mid := by
      rw [List.takeWhile_append_of_pos fun x hx => by simpa using (hmid x hx).ne]
      simp
    rw [List.concat_eq_append, htake, sum_sizes, parts_append, parts_cons, hbare]
    simp

/-- How many bytes a connection still has to fetch. -/
def Gb.pendingBytes (s : Gb) (i : Link) : ℤ := ((s.plan i).map Range.size).sum

lemma sum_range_size {cs : List Chunk} (h : ∀ c ∈ cs, c.Valid) :
    ((cs.map Chunk.range).map Range.size).sum = sizeSum cs := by
  rw [List.map_map, sizeSum]
  congr 1
  refine List.map_congr_left fun c hc => ?_
  simp only [Function.comp_apply, Range.size, Chunk.range]
  exact (h c hc).1.symm

lemma sizeSum_flatMap (h : ∀ p ∈ ps, p.size = sizeSum p.chunkList) :
    (ps.map Subsegment.size).sum = sizeSum (ps.flatMap Subsegment.chunkList) := by
  induction ps with
  | nil => rfl
  | cons p ps ih =>
    rw [List.map_cons, List.sum_cons, List.flatMap_cons, sizeSum_append, h p List.mem_cons_self,
      ih fun q hq => h q (List.mem_cons_of_mem _ hq)]

/-- What the virtual size counts for the other connection: all but the further chunks of its current
subsegment. -/
lemma TailReady.virtualPart_other {s : Gb} (h : TailReady i front g s) (hr : g.recoverySegment = false) :
    (s.parts i.other = [] ∧ s.virtualPart i i.other = 0 ∧ s.pendingBytes i.other = 0) ∨
      ∃ p c cs, (s.parts i.other).head? = some p ∧ p.chunkList = c :: cs ∧
        s.virtualPart i i.other + sizeSum cs = s.pendingBytes i.other ∧ ∀ d ∈ cs, d.Valid := by
  have hrep := (h.planning hr).rep
  rw [Gb.pendingBytes, hrep.plan_eq, Gb.virtualPart, hrep.pointer i.other rfl]
  cases hp : s.parts i.other with
  | nil =>
    rw [firstWith_eq_none.mpr hp]
    exact .inl ⟨rfl, rfl, by simp [Gb.queue, hp, queueOf]⟩
  | cons p ps =>
    obtain ⟨pre, k, post, hs, hpre, hk, hpost⟩ := exists_split hp
    obtain ⟨d, ds, qs, hc⟩ := hrep.cursor (i := i.other) (by rw [hp]; simp)
    obtain ⟨p', hp', hds⟩ := hc.parts
    obtain ⟨rfl, rfl⟩ := List.cons.inj (hp.symm.trans hp')
    have hlane := hrep.lane i.other
    rw [hp] at hlane
    refine .inr ⟨p, d, ds, rfl, hds, ?_, fun e he => (hc.inside e (by simp [he])).1⟩
    rw [hs, firstWith_split hpre hk]
    simp only [Link.other_ne, ne_eq, not_false_eq_true, if_true]
    have hsized : (ps.map Subsegment.size).sum = sizeSum (ps.flatMap Subsegment.chunkList) :=
      sizeSum_flatMap hlane.sized
    rw [h.toIsTail.sizeBeforeTail_eq (congrFun h.bare _) hs, hpost, hsized, hc.queue, List.map_cons,
      List.sum_cons, sum_range_size fun e he => (hc.inside e he).1, sizeSum_append, Range.size]
    dsimp only
    omega

/-- A connection that has sent no requests ahead counts nothing of its own. -/
lemma TailReady.virtualPart_self {s : Gb} (h : TailReady i front g s) (hr : g.recoverySegment = false) :
    s.virtualPart i i = 0 := by
  have hplan := h.planning hr
  have hrep := hplan.rep
  obtain ⟨p, ps, hp⟩ := List.exists_cons_of_ne_nil hrep.fits
  obtain ⟨pre, k, post, hs, hpre, hk, hpost⟩ := exists_split hp
  have hflag := (hrep.lane i).flag
  have hnil : ps = [] := by
    by_contra hne
    have hlen := List.length_pos_iff.mpr hne
    have hsent := hflag (by rw [hp, List.length_cons]; omega)
    rw [hplan.unsent] at hsent
    cases hsent
  rw [Gb.virtualPart, hrep.pointer i rfl, hs, firstWith_split hpre hk]
  simp only [ne_eq, not_true_eq_false, if_false]
  rw [h.toIsTail.sizeBeforeTail_eq (congrFun h.bare _) hs, hpost, hnil]
  rfl

/-- The virtual size counts all that the other connection still has to fetch, and the share of that size,
where it is not clipped, lets both finish at the same time, but for rounding. -/
def Gb.Balances (s : Gb) (g : Segment) (i : Link) (t : Session) : Prop :=
  let r := (s.conn i).bytesPerSecond
  let q := (s.conn i.other).bytesPerSecond
  let total := g.size + s.pendingBytes i.other
  getVirtualSegSize i g.size t = .ok total t ∧
    ∃ share, portion total (t.toInt r) (t.toInt q) t = .ok share t ∧
      subsegSize g i r q false t = .ok (if share > g.size then g.size else share) t ∧
      (share ≤ g.size → |share * q - (total - share) * r| < r + q)

/-- The virtual size counts too little by the further chunks of the current subsegment. -/
lemma TailReady.virtualSize_eq {s : Gb} (h : TailReady i front g s) (hr : g.recoverySegment = false)
    (hn : s.offsetInfo.numSegments ≠ 1) :
    s.virtualSize g i = g.size + s.pendingBytes i.other ↔
      ∀ p, (s.parts i.other).head? = some p → p.chunkList.length ≤ 1 := by
  have hsize : s.virtualSize g i = s.virtualPart i i.other + g.size := by
    have hself := h.virtualPart_self hr
    rw [Gb.virtualSize, if_neg hn]
    cases i <;> simp only [Link.other] at hself ⊢ <;> omega
  rw [hsize]
  obtain ⟨hp, h₁, h₂⟩ | ⟨p, c, cs, hp, hcs, hsum, hv⟩ := h.virtualPart_other hr
  · simp [hp, h₁, h₂]
  · have hzero : s.virtualPart i i.other + g.size = g.size + s.pendingBytes i.other ↔
        sizeSum cs = 0 := by omega
    rw [hzero]
    simp only [hp, Option.some.injEq, forall_eq', hcs, List.length_cons]
    constructor
    · intro hz
      rw [eq_nil_of_sizeSum hv hz]
      rfl
    · intro hlen
      obtain rfl := List.length_eq_zero_iff.mp (show cs.length = 0 by omega)
      rfl

lemma abs_share_lt {v r q : ℤ} (hv : 0 ≤ v * r) (hrq : 0 < r + q) {share : ℤ}
    (hs : share = (v * r).tdiv (r + q)) : |share * q - (v - share) * r| < r + q := by
  rw [Int.tdiv_eq_ediv_of_nonneg hv] at hs
  have hdiv := Int.mul_ediv_add_emod (v * r) (r + q)
  have h₀ := Int.emod_nonneg (v * r) hrq.ne'
  have h₁ := Int.emod_lt_of_pos (v * r) hrq
  have heq : share * q - (v - share) * r = -(v * r % (r + q)) := by
    rw [hs]
    linarith
  rw [heq, abs_neg, abs_of_nonneg h₀]
  exact h₁

/-- Where the virtual size is right, so is the share, if it can be computed; with goodputs of 31 bits, only
then. -/
lemma TailReady.balanced_iff (h : TailReady i front g s.toGb) (hrec : g.recoverySegment = false)
    (hex : s.exact = false) (hv : s.virtualSize g i = g.size + s.pendingBytes i.other)
    (hri : InRange 32 (s.conn i).bytesPerSecond) (hqi : InRange 32 (s.conn i.other).bytesPerSecond) :
    s.Balances g i s ↔ Shareable (s.virtualSize g i) (s.conn i).bytesPerSecond
      (s.conn i.other).bytesPerSecond := by
  obtain ⟨r, hr⟩ : ∃ r, r = (s.conn i).bytesPerSecond := ⟨_, rfl⟩
  obtain ⟨q, hq⟩ : ∃ q, q = (s.conn i.other).bytesPerSecond := ⟨_, rfl⟩
  have hr₀ : 0 ≤ r := hr ▸ h.goodput i
  have hq₀ : 0 ≤ q := hq ▸ h.goodput i.other
  have hbase : s.shareBase g i = s.virtualSize g i := by
    rw [Gb.shareBase, hrec, if_neg Bool.false_ne_true]
  have hnn := hbase ▸ h.shareBase_nonneg
  have hiff := shareable_iff hnn hr₀ hq₀
  rw [← hr] at hri
  rw [← hq] at hqi
  rw [Gb.Balances, ← hv, ← hr, ← hq, Session.toInt_of_inRange (.inr hri), Session.toInt_of_inRange (.inr hqi)]
  have hsize : getVirtualSegSize i g.size s = .ok (s.virtualSize g i) s := by
    obtain ⟨v, u, hrun, hu, hv⟩ := exists_of_wp (wp_getVirtualSegSize (h.safe hrec) i)
    rw [hrun, hu, hv]
  constructor
  · rintro ⟨-, share, hrun, -⟩
    have hw : wp (portion (s.virtualSize g i) r q) _ (fun _ _ => True) s :=
      wp_portion (.inr hri) (.inr hqi) (fun _ => trivial) (fun _ => trivial)
    obtain ⟨-, hrq, hfit, -⟩ := ((wp_iff _).mp hw).1 share s hrun
    exact hiff.mpr ⟨hrq, hfit.resolve_left (by simp [hex])⟩
  · intro hc
    obtain ⟨hrq, hfit⟩ := hiff.mp hc
    have hfits : s.ShareFits g i r q false := by
      rwa [Gb.ShareFits, if_neg Bool.false_ne_true, hbase]
    obtain ⟨share, u, hportion, hu, -, -, hshare⟩ := exists_of_wp (wp_portion (s := s) (.inr hri) (.inr hqi)
      (fun hz => hrq hz) fun hn => hn (.inr hfit))
    obtain ⟨clipped, w, hsubseg, hw, -, -, hclipped⟩ := exists_of_wp (wp_subsegSize h.safe i (.inr hri)
      (.inr hqi) false (fun hz => hrq hz) fun hn => hn (.inr hfits))
    rw [Gb.shareOf, if_neg Bool.false_ne_true, hbase, ← hshare] at hclipped
    refine ⟨hsize, share, hu ▸ hportion, ?_, fun _ => ?_⟩
    · rw [hsubseg, hw, hclipped]
    · exact abs_share_lt (mul_nonneg hnn hr₀) (by omega) hshare

/-- At each step that shares a segment by goodputs, and before which no share overflows, the virtual size is
right exactly if the other connection has no further chunk in its current subsegment. Then the share balances
the connections if it can be computed; with goodputs of 31 bits, only then. -/
theorem balances_iff {s : Session} (h : s.Seen) : ∀ s' i,
    s.FitsTo (.called s' (.nextSubsegment .dual) i) → 2 ≤ s'.offsetInfo.numSegments →
      ∃ front g, s'.offsetInfo.segments = front ++ [g] ∧ (g.recoverySegment = false →
        ∀ t : Session, t.toGb = s' → t.exact = false → ∃ v, getVirtualSegSize i g.size t = .ok v t ∧
          (v = g.size + s'.pendingBytes i.other ↔
            ∀ p, (s'.parts i.other).head? = some p → p.chunkList.length ≤ 1) ∧
          (v = g.size + s'.pendingBytes i.other ∧
            Shareable v (s'.conn i).bytesPerSecond (s'.conn i.other).bytesPerSecond → s'.Balances g i t) ∧
          (s'.Balances g i t → v = g.size + s'.pendingBytes i.other ∧
            ((∀ j, (s'.conn j).bytesPerSecond < 2 ^ 31) →
              Shareable v (s'.conn i).bytesPerSecond (s'.conn i.other).bytesPerSecond))) := by
  intro s' i hm htwo
  obtain ⟨front, g, hg⟩ := h.tailReady hm
  refine ⟨front, g, hg.segments, fun hrec t ht hex => ?_⟩
  subst ht
  obtain ⟨v, u, hrun, rfl, rfl⟩ := exists_of_wp (wp_getVirtualSegSize (hg.safe hrec) i)
  refine ⟨_, hrun, hg.virtualSize_eq hrec (by omega), fun ⟨hv, hc⟩ => ?_, fun hb => ?_⟩
  · have hbase : u.shareBase g i = u.virtualSize g i := by
      rw [Gb.shareBase, hrec, if_neg Bool.false_ne_true]
    obtain ⟨-, hfit⟩ := (shareable_iff (hbase ▸ hg.shareBase_nonneg) (hg.goodput i) (hg.goodput _)).mp hc
    exact (hg.balanced_iff hrec hex hv hfit.target hfit.another).mpr hc
  · have hv : u.virtualSize g i = g.size + u.pendingBytes i.other :=
      (EStateM.Result.ok.inj (hrun.symm.trans hb.1)).1
    refine ⟨hv, fun hlt => (hg.balanced_iff hrec hex hv ?_ ?_).mp hb⟩
    · exact ⟨by have := hg.goodput i; omega, hlt i⟩
    · exact ⟨by have := hg.goodput i.other; omega, hlt i.other⟩

end

/-- Goodputs decide the shares. -/
def sharingConf : Conf := { plainConf with
  numOfSegments := 3
  fixedSubsegmentMode := false
  recoveryMode := true }

/-- As `calmInputs`, but a hundred seconds have passed. -/
def slowInputs : Inputs := { calmInputs with elapsed := fun _ => 100 }

/-- A recovery, in which 600 bytes a second of one connection meet one of the other. -/
theorem shares_right_of_recovery : ∃ s : Session, s.numRecoveries = 1 ∧ ∀ s' i,
    .called s' (.nextSubsegment .dual) i ∈ s.trace → ∃ front g v, s'.offsetInfo.segments = front ++ [g] ∧
      ∀ t : Session, t.toGb = s' → t.exact = false →
        (if g.recoverySegment then pure g.size
          else getVirtualSegSize i g.size : Program ℤ) t = .ok v t ∧
        ∀ r q, 0 ≤ r → 0 ≤ q → (Shareable v r q → SharesRight t g i r q) ∧
          (SharesRight t g i r q → r < 2 ^ 31 → q < 2 ^ 31 → Shareable v r q) := by
  obtain ⟨s, hs, hn⟩ := exists_of_reaches sharingConf 3600 retakingSteps
    (P := fun s => s.numRecoveries = 1 ∧ s.Fits) (by decide +kernel) (by decide) (by decide +kernel)
  exact ⟨s, hn.1, fun s' i hm => shares_right (.inl hs) s' i (hn.2.fitsTo hm)⟩

/-- A segment is shared by two goodputs of zero. -/
def Event.sharesNothing : Event → Bool
  | .called s' (.nextSubsegment .dual) .lte => (s'.conn .lte).bytesPerSecond = 0 ∧
      (s'.conn .wifi).bytesPerSecond = 0
  | _ => false

/-- Both goodputs are below a byte a second, and the sum of the ratios is zero. -/
theorem shares_undefined : ∃ s : Session, s.Crashed .divByZero ∧ s.Fits ∧
    ∃ s', .called s' (.nextSubsegment .dual) .lte ∈ s.trace ∧ (s'.conn .lte).bytesPerSecond = 0 ∧
      (s'.conn .wifi).bytesPerSecond = 0 ∧ ∀ (t : Session) g, t.toGb = s' → ¬ SharesRight t g .lte 0 0 := by
  obtain ⟨s, hs, hf, hc⟩ := exists_of_failsWith sharingConf 24
    (upSteps .lte ++ upSteps .wifi ++ [.read .lte (.bytes 4 true) slowInputs]) (e := .divByZero)
    (P := fun s => s.Fits ∧ s.trace.any Event.sharesNothing) (by decide +kernel) (by decide)
    (by decide +kernel) (by decide +kernel)
  obtain ⟨e, he, hz⟩ := List.any_eq_true.mp hc
  unfold Event.sharesNothing at hz
  split at hz
  · rename_i s'
    simp only [decide_eq_true_eq] at hz
    refine ⟨s, hs, hf, s', he, hz.1, hz.2, ?_⟩
    rintro t g - ⟨share, hrun, -⟩
    have hzero : InRange 32 0 := by decide
    have hw := (wp_iff _).mp (wp_subsegSize (g := g) (fun _ => safe_true t) .lte (.inr hzero) (.inr hzero)
      false (fun _ => trivial) (fun _ => trivial))
    exact (hw.1 share t hrun).2.1 rfl
  · cases hz

theorem balances_iff_of_recovery : ∃ s : Session, s.numRecoveries = 1 ∧ ∀ s' i,
    .called s' (.nextSubsegment .dual) i ∈ s.trace → 2 ≤ s'.offsetInfo.numSegments →
      ∃ front g, s'.offsetInfo.segments = front ++ [g] ∧ (g.recoverySegment = false →
        ∀ t : Session, t.toGb = s' → t.exact = false → ∃ v, getVirtualSegSize i g.size t = .ok v t ∧
          (v = g.size + s'.pendingBytes i.other ↔
            ∀ p, (s'.parts i.other).head? = some p → p.chunkList.length ≤ 1) ∧
          (v = g.size + s'.pendingBytes i.other ∧
            Shareable v (s'.conn i).bytesPerSecond (s'.conn i.other).bytesPerSecond → s'.Balances g i t) ∧
          (s'.Balances g i t → v = g.size + s'.pendingBytes i.other ∧
            ((∀ j, (s'.conn j).bytesPerSecond < 2 ^ 31) →
              Shareable v (s'.conn i).bytesPerSecond (s'.conn i.other).bytesPerSecond))) := by
  obtain ⟨s, hs, hn⟩ := exists_of_reaches sharingConf 3600 (retakingSteps ++ [readStep .wifi 3])
    (P := fun s => s.numRecoveries = 1 ∧ s.Fits) (by decide +kernel) (by decide) (by decide +kernel)
  exact ⟨s, hn.1, fun s' i hm => balances_iff (.inl hs) s' i (hn.2.fitsTo hm)⟩

/-- A segment of 1200 bytes is shared where 1796 are pending, for a virtual size of 1799. -/
def Event.sharesShort : Event → Bool
  | .called s' (.nextSubsegment .dual) .wifi => s'.offsetInfo.numSegments = 2 ∧
      s'.offsetInfo.segments.getLast?.any (fun g => ¬ g.recoverySegment ∧ g.size = 1200) ∧
      s'.pendingBytes .lte = 1796 ∧
      result (getVirtualSegSize .wifi 1200) { s' with statics := freshStatics, trace := [] } =
        some 1799
  | _ => false

/-- The first connection has 1197 bytes in a second chunk, which the virtual size of 1799 leaves out. -/
theorem virtual_size_short : ∃ s : Session, s.Reached ∧ s.Fits ∧
    ∃ s' g, .called s' (.nextSubsegment .dual) .wifi ∈ s.trace ∧ s'.offsetInfo.numSegments = 2 ∧
      s'.offsetInfo.segments.getLast? = some g ∧ g.recoverySegment = false ∧ g.size = 1200 ∧
      s'.pendingBytes .lte = 1796 ∧ ∃ t u : Session, t.toGb = s' ∧
        getVirtualSegSize .wifi 1200 t = .ok 1799 u := by
  obtain ⟨s, hs, hf, hc⟩ := exists_of_reaches sharingConf 3600 (retakingSteps ++ [readStep .wifi 3])
    (P := fun s => s.Fits ∧ s.trace.any Event.sharesShort) (by decide +kernel) (by decide) (by decide +kernel)
  obtain ⟨e, he, hz⟩ := List.any_eq_true.mp hc
  unfold Event.sharesShort at hz
  split at hz
  · rename_i s'
    simp only [decide_eq_true_eq, Option.any_eq_true, Bool.not_eq_true] at hz
    obtain ⟨hn, ⟨g, hg, hrec, hsize⟩, hp, hv⟩ := hz
    obtain ⟨u, hu⟩ := exists_of_result hv
    exact ⟨s, hs, hf, s', g, he, hn, hg, hrec, hsize, hp, _, u, rfl, hu⟩
  · cases hz

end GreenBag
