import GreenBag.Starting
import GreenBag.Averaging
import GreenBag.Deciding

/-! The estimation of the energy of the link modes, over whole runs: its assertion and its divisors. -/

namespace GreenBag

open Programs Machines

/-- The goodputs a mode is evaluated with: that of the unused link is 0. -/
def Gb.energyGoodputs (s : Gb) : LinkMode → ℤ × ℤ
  | .dual => ((s.conn .lte).ewmaBytesPerSecond, (s.conn .wifi).ewmaBytesPerSecond)
  | .single .lte => ((s.conn .lte).ewmaBytesPerSecond, 0)
  | .single .wifi => (0, (s.conn .wifi).ewmaBytesPerSecond)

/-- What the energy of a mode is divided by. -/
def energyDivisors : LinkMode → ℤ × ℤ → List ℤ
  | .dual, goodputs => [goodputs.1 + goodputs.2, goodputs.1, goodputs.2]
  | .single .lte, goodputs => [goodputs.1]
  | .single .wifi, goodputs => [goodputs.2]

/-- The assertion of `get_energy_consumption` holds for the mode, and no divisor is 0. -/
def Gb.Evaluates (s : Gb) (mode : LinkMode) : Prop :=
  ((s.energyGoodputs mode).1 ≠ 0 ∨ (s.energyGoodputs mode).2 ≠ 0) ∧
    ∀ d ∈ energyDivisors mode (s.energyGoodputs mode), d ≠ 0

/-- A call for which `choose_link_mode` is to decide finds all three modes to be evaluable. -/
def Event.Estimable : Event → Prop
  | .called s .nextSegmentSize _ => s.conf.minimumEnergyMode →
      0 < s.offsetInfo.completedSegmentCount → ∀ mode, s.Evaluates mode
  | _ => True

def Event.WroteFrom (i : Link) : Event → Prop
  | .wrote _ j _ => j = i
  | _ => False

/-- Bytes of the connection were written to the output file. -/
def Session.Delivered (s : Session) (i : Link) : Prop := ∃ e ∈ s.trace, e.WroteFrom i

/-- The bytes of a link that the next measurement counts, with those of a read. -/
def Gb.pending (s : Gb) (i : Link) (n : ℤ) (written : Bool) (j : Link) : ℤ :=
  (s.conn j).bytesDone + if j = i ∧ written then n else 0

/-- With so many bytes in that time the average is at least one byte a second. -/
def Gb.Fast (s : Gb) (i : Link) (bytes : ℤ) (elapsed : ℚ) : Prop :=
  1 ≤ if s.offsetInfo.completedSegmentCount = 0 then (bytes / elapsed : ℚ)
    else (1 - s.conf.ewmaFactor) * (s.conn i).ewmaBytesPerSecond +
      s.conf.ewmaFactor * truncate (bytes / elapsed)

/-- A read of `n` bytes comes to measure the connections and to plan a segment. -/
def Gb.Plans (s : Gb) (i : Link) (n : ℤ) : Prop :=
  (((s.offsetInfo.connection i).bind s.offsetInfo.deref).bind (·.subsegment i)).any (fun p =>
    p.size.tdiv sendPipelineReqThrsFactor > (s.conn i).lastbyte - (s.conn i).currentbyte + 1 ∨
      (s.conn i).lastbyte - (s.conn i).currentbyte + 1 ≤ n) ∧
    ¬ (s.conn i).pipelineRequestsSent ∧ ¬ s.offsetInfo.connIdle i ∧ ¬ (s.conn i).lastSegmentFlag ∧
    (s.offsetInfo.getConnOrderCase i = .behind → ¬ s.offsetInfo.singleLinkModeFlag)

/-- With minimum energy, no measured average is 0, and each link has delivered something before a mode
is chosen. -/
def Steady (s : Session) : Label → Prop
  | .read i (.bytes n written) x => s.conf.minimumEnergyMode → s.Plans i n →
      (∀ j, s.pending i n written j ≠ 0 → s.Fast j (s.pending i n written j) (x.elapsed j)) ∧
      (0 < s.offsetInfo.completedSegmentCount → ∀ j, s.Delivered j ∨ j = i ∧ written)
  | _ => True

/-- The sessions all steps of which are steady. -/
def steadySession : Machine Session Fault Label where
  start := session.start
  enabled s l := session.enabled s l ∧ Steady s l
  exec := session.exec

instance (i : Link) : DecidablePred (Event.WroteFrom i)
  | .wrote _ j _ => inferInstanceAs (Decidable (j = i))
  | .writeFailed .. => inferInstanceAs (Decidable False)
  | .inorder .. => inferInstanceAs (Decidable False)
  | .announced .. => inferInstanceAs (Decidable False)
  | .get .. => inferInstanceAs (Decidable False)
  | .header .. => inferInstanceAs (Decidable False)
  | .stolen .. => inferInstanceAs (Decidable False)
  | .called .. => inferInstanceAs (Decidable False)

instance (s : Session) (i : Link) : Decidable (s.Delivered i) :=
  inferInstanceAs (Decidable (∃ e ∈ s.trace, _))

instance (s : Gb) (i : Link) (bytes : ℤ) (elapsed : ℚ) : Decidable (s.Fast i bytes elapsed) :=
  inferInstanceAs (Decidable (_ ≤ _))

instance (s : Gb) (i : Link) (n : ℤ) : Decidable (s.Plans i n) :=
  inferInstanceAs (Decidable (_ ∧ _ ∧ _ ∧ _ ∧ _))

instance (s : Session) (l : Label) : Decidable (Steady s l) := by
  unfold Steady
  split <;> infer_instance

instance (s : Session) (l : Label) : Decidable (steadySession.enabled s l) :=
  inferInstanceAs (Decidable (session.enabled s l ∧ Steady s l))

lemma Gb.Metered.evaluates {s : Gb} (h : s.Metered) (mode : LinkMode) : s.Evaluates mode := by
  have hl := h .lte
  have hw := h .wifi
  rcases mode with _ | ⟨_ | _⟩ <;> simp only [Gb.Evaluates, Gb.energyGoodputs, energyDivisors,
    List.mem_cons, List.not_mem_nil, or_false, forall_eq_or_imp, forall_eq] <;> omega

section Runs

variable {s t : Session} {i j : Link} {x : Inputs} {n : ℤ} {written : Bool}

lemma Event.Silent.estimable (e : Event) (h : e.Silent) : e.Estimable := by
  cases e with
  | called g f k => cases f <;> first | exact h.elim | trivial
  | _ => trivial

lemma SilentlyLonger.all_estimable (h : SilentlyLonger s t) (hs : s.All Event.Estimable) :
    t.All Event.Estimable :=
  h.all Event.Silent.estimable hs

lemma SilentlyLonger.delivered_iff (h : SilentlyLonger s t) (i : Link) :
    t.Delivered i ↔ s.Delivered i := by
  obtain ⟨es, he, hes⟩ := h
  constructor
  · rintro ⟨e, hm, hi⟩
    rw [he] at hm
    rcases List.mem_append.mp hm with hm | hm
    · have hq := hes e hm
      cases e with
      | wrote g k r => exact hq.elim
      | _ => exact hi.elim
    · exact ⟨e, hm, hi⟩
  · rintro ⟨e, hm, hi⟩
    exact ⟨e, by simp [he, hm], hi⟩

lemma delivered_called_iff {f : Call} : Session.Delivered
    { s with trace := .called s.toGb f i :: s.trace } j ↔ s.Delivered j := by
  simp [Session.Delivered, Event.WroteFrom]

/-- A link that delivered something has a positive average, or bytes that will be measured next; and
the calls so far were for sessions whose modes can be evaluated. -/
structure Measured (s : Session) : Prop where
  two : s.conf.numConnections = 2
  bytesDone : ∀ i, 0 ≤ (s.conn i).bytesDone
  average : s.conf.minimumEnergyMode → ∀ i, s.Delivered i →
    0 < (s.conn i).bytesDone ∨ 1 ≤ (s.conn i).ewmaBytesPerSecond
  events : s.All Event.Estimable

/-- The next measurement leaves positive averages, and of all links where a segment is complete. -/
structure Measurable (x : Inputs) (s : Session) : Prop extends Measured s where
  fast : s.conf.minimumEnergyMode → ∀ i, (s.conn i).bytesDone ≠ 0 →
    s.Fast i (s.conn i).bytesDone (x.elapsed i)
  delivered : s.conf.minimumEnergyMode → 0 < s.offsetInfo.completedSegmentCount → ∀ i, s.Delivered i

/-- All bytes are measured. -/
structure Settled (s : Session) : Prop extends Measured s where
  none : ∀ i, (s.conn i).bytesDone = 0
  delivered : s.conf.minimumEnergyMode → 0 < s.offsetInfo.completedSegmentCount → ∀ i, s.Delivered i

lemma Measured.of_sameMeter (hs : Measured s) (h : SameMeter s t) : Measured t where
  two := by rw [h.conf, hs.two]
  bytesDone i := by
    rw [h.bytesDone]
    exact hs.bytesDone i
  average he i hi := by
    rw [h.bytesDone, h.average]
    rw [h.conf] at he
    exact hs.average he i ((h.trace.delivered_iff i).mp hi)
  events := h.trace.all_estimable hs.events

lemma Settled.of_sameCount (hs : Settled s) (h : SameCount s t) : Settled t where
  toMeasured := hs.toMeasured.of_sameMeter h.toSameMeter
  none i := by rw [h.bytesDone, hs.none]
  delivered he hpos i := by
    rw [h.conf] at he
    rw [h.count] at hpos
    exact (h.trace.delivered_iff i).mpr (hs.delivered he hpos i)

lemma Settled.measurable (h : Settled s) (x : Inputs) : Measurable x s where
  toMeasured := h.toMeasured
  fast _ i hi := absurd (h.none i) hi
  delivered := h.delivered

lemma Settled.metered (h : Settled s) (he : s.conf.minimumEnergyMode)
    (hc : 0 < s.offsetInfo.completedSegmentCount) : s.Metered := by
  intro i
  rcases h.average he i (h.delivered he hc i) with hi | hi
  · rw [h.none] at hi
    exact absurd hi (lt_irrefl 0)
  · exact hi

lemma one_le_updateGoodput {c : Conn} (hc : c = s.conn i) {elapsed : ℚ} (hd : c.bytesDone ≠ 0)
    (hf : s.Fast i c.bytesDone elapsed) :
    1 ≤ (c.updateGoodput elapsed s.conf.ewmaFactor
      (s.offsetInfo.completedSegmentCount = 0)).ewmaBytesPerSecond := by
  subst hc
  rw [Gb.Fast] at hf
  rw [Conn.updateGoodput, if_neg hd]
  by_cases h₀ : s.offsetInfo.completedSegmentCount = 0
  · rw [if_pos h₀] at hf
    simp only [h₀, decide_true, if_true]
    exact le_truncate (by exact_mod_cast hf)
  · rw [if_neg h₀] at hf
    simp only [h₀, decide_false, Bool.false_eq_true, if_false]
    exact le_truncate (by exact_mod_cast hf)

lemma Measurable.wp_gbUpdateGoodput (h : Measurable x s) :
    wp (gbUpdateGoodput x.elapsed) (fun _ t => Settled t ∧ t.offsetInfo.completedSegmentCount =
        s.offsetInfo.completedSegmentCount) (fun _ _ => False) s := by
  have hl := Gb.mem_links h.two
  simp only [gbUpdateGoodput, wp_bind, wp_modify]
  have hlinks : ∀ f, ({ s with conn := f } : Session).links = s.links := fun _ => rfl
  simp only [getFastConnIndex, wp_bind, wp_connAt, hlinks, hl, not_true_eq_false, false_implies,
    and_true, true_implies, wp_pure, wp_modifyOffsetInfo, if_true]
  refine ⟨⟨h.two, fun i => le_rfl, fun he i hi => .inr ?_, h.events⟩, fun i => rfl, h.delivered⟩
  by_cases hd : (s.conn i).bytesDone = 0
  · have hone := (h.average he i hi).resolve_left (by omega)
    simpa only [Conn.updateGoodput, if_pos hd] using hone
  · exact one_le_updateGoodput rfl hd (h.fast he i hd)

/-- The calls up to a crash were for sessions whose modes can be evaluated, and no assertion about the
goodputs failed. -/
def SafeCrash (e : Fault) (t : Session) : Prop := e ≠ .assertGoodput ∧ t.All Event.Estimable

lemma wp_of_silent {α : Type} {y : Program α} (h : Keeps silent y) (hs : Measured s) :
    wp y (fun _ t => Measured t) SafeCrash s :=
  h.wp (fun _ _ ht => hs.of_sameMeter ht.toSameMeter)
    fun _ _ he ht => ⟨he, ht.trace.all_estimable hs.events⟩

lemma Measured.wp_bind {α β : Type} {y : Program α} {f : α → Program β} {Q : β → Session → Prop}
    (hs : Measured s) (h : Keeps silent y) (hf : ∀ a t, Measured t → wp (f a) Q SafeCrash t) :
    wp (y >>= f) Q SafeCrash s := by
  rw [Programs.wp_bind]
  exact wp_mono (wp_of_silent h hs) hf fun _ _ hc => hc

lemma Measured.log (h : Measured s) {f : Call} (he : Event.Estimable (.called s.toGb f i)) :
    Measured { s with trace := .called s.toGb f i :: s.trace } where
  two := h.two
  bytesDone := h.bytesDone
  average hm j hj := h.average hm j (delivered_called_iff.mp hj)
  events := (all_cons_iff rfl).mpr ⟨he, h.events⟩

lemma Measured.wp_gbDetermineNextSubsegment (h : Measured s) {mode : LinkMode} :
    wp (gbDetermineNextSubsegment i mode) (fun _ t => Measured t) SafeCrash s := by
  rw [gbDetermineNextSubsegment, Programs.wp_bind, wp_logEvent]
  exact wp_of_silent (blind_nextSubsegment i mode).keeps (h.log trivial)

/-- The call of `gb_determine_next_segment_size` is recorded for a session in which all is measured. -/
lemma Settled.wp_gbDetermineNextSegmentSize (h : Settled s) :
    wp (gbDetermineNextSegmentSize i) (fun _ t => Settled t) SafeCrash s := by
  have hlog : Settled { s with trace := .called s.toGb .nextSegmentSize i :: s.trace } :=
    ⟨h.log fun he hc => (h.metered he hc).evaluates, h.none,
      fun he hc j => delivered_called_iff.mpr (h.delivered he hc j)⟩
  rw [gbDetermineNextSegmentSize, Programs.wp_bind, wp_logEvent]
  refine blind_wantedSegment.keeps.wp (fun _ t ht => hlog.of_sameCount ht) fun e t hf ht => ?_
  exact ⟨hf, ht.trace.all_estimable hlog.events⟩

lemma Measurable.wp_setupFreshSegment (h : Measurable x s) :
    wp (setupFreshSegment i x) (fun _ t => Measured t) SafeCrash s := by
  rw [setupFreshSegment, wp_bind]
  refine wp_mono h.wp_gbUpdateGoodput (fun _ t ht => ?_) fun _ _ hf => hf.elim
  rw [wp_bind]
  refine wp_mono ht.1.wp_gbDetermineNextSegmentSize (fun size u hu => ?_) (fun _ _ hc => hc)
  rw [wp_ite]
  refine ⟨fun _ => hu.toMeasured, fun _ => ?_⟩
  rw [wp_bind, wp_get, wp_bind]
  have hlast : ∀ mode v, SameMeter u v → wp (do
      gbDetermineNextSubsegment i mode
      return true) (fun _ t => Measured t) SafeCrash v := by
    intro mode v hv
    rw [Programs.wp_bind]
    exact (hu.toMeasured.of_sameMeter hv).wp_gbDetermineNextSubsegment
  rw [wp_ite]
  refine ⟨fun hm => ?_, fun _ => hlast _ _ (.refl u)⟩
  have hmet := hu.metered hm.1 hm.2.1
  refine wp_mono wp_chooseLinkMode_chosen (fun mode v hv => hlast mode v hv.toSameMeter) fun e v hv => ?_
  exact ⟨fun he => hv.1 he (hv.2.metered hmet), hv.2.trace.all_estimable hu.events⟩

lemma Settled.wp_performRecovery (h : Settled s) :
    wp (performRecovery i x) (fun recovered t => if recovered then Measured t else Settled t)
      SafeCrash s := by
  rw [performRecovery, wp_bind, wp_get, wp_ite]
  refine ⟨fun _ => ?_, fun _ => h⟩
  rw [wp_bind]
  refine (blind_decideRecoveryMode i x).keeps.wp (fun recover t ht => ?_) fun e t he ht => ?_
  · have hs := h.of_sameCount ht.sameCount
    rw [wp_ite]
    refine ⟨fun _ => ?_, fun _ => hs⟩
    refine hs.toMeasured.wp_bind ?_ fun _ _ h₁ => h₁.wp_bind ?_ fun _ _ h₂ => ?_
    · exact .modify fun u => ⟨.of_conn rfl rfl rfl rfl rfl (.cons rfl trivial), rfl⟩
    · exact (blind_modifyConn (f := fun c => { c with enabled := false }) fun _ => ⟨rfl, rfl⟩).keeps
    refine h₂.wp_bind (blind_connDisconnect _).keeps fun _ _ h₃ => ?_
    refine h₃.wp_bind (blind_recoverOutorderPortionAndNextSegment _).keeps fun _ _ h₄ => ?_
    rw [Programs.wp_bind]
    refine wp_mono h₄.wp_gbDetermineNextSubsegment (fun _ _ h₅ => ?_) fun _ _ hc => hc
    exact h₅.wp_bind (.modify fun u => ⟨.of_conn rfl rfl rfl rfl rfl (.refl u), rfl⟩) fun _ _ h₆ => h₆
  · exact ⟨he, ht.trace.all_estimable h.events⟩

lemma Measured.wp_gbSetupNextSegment (h : Measured s) (hm : ¬ (s.conn i).lastSegmentFlag →
      (s.offsetInfo.getConnOrderCase i = .behind → ¬ s.offsetInfo.singleLinkModeFlag) → Measurable x s) :
    wp (gbSetupNextSegment i x) (fun _ t => Measured t) SafeCrash s := by
  rw [gbSetupNextSegment, Programs.wp_bind, wp_get, Programs.wp_bind, wp_connAt]
  refine ⟨fun _ => ?_, fun hn => absurd (Gb.mem_links h.two i) hn⟩
  rw [wp_ite]
  refine ⟨fun _ => h, fun hl => ?_⟩
  have hm := hm hl
  cases ho : s.offsetInfo.getConnOrderCase i with
  | behind =>
    simp only [wp_ite]
    refine ⟨fun _ => ?_, fun hs => (hm fun _ => hs).wp_setupFreshSegment⟩
    exact h.wp_bind (.modify fun u => ⟨.of_conn rfl rfl rfl rfl rfl (.refl u), rfl⟩) fun _ _ ht => ht
  | ahead =>
    have hm := hm fun hb => by rw [ho] at hb; cases hb
    simp only []
    rw [Programs.wp_bind]
    refine wp_mono hm.wp_gbUpdateGoodput (fun _ t ht => ?_) fun _ _ hf => hf.elim
    rw [Programs.wp_bind]
    refine wp_mono ht.1.wp_performRecovery (fun recovered u hu => ?_) fun _ _ hc => hc
    rw [wp_ite]
    refine ⟨fun hr => ?_, fun hr => ?_⟩
    · rwa [if_pos hr] at hu
    rw [if_neg hr] at hu
    rw [Programs.wp_bind, wp_get, Programs.wp_bind]
    refine (blind_follow _).keeps.wp (fun tail v hv => ?_) fun e v he hv => ?_
    · have hw := hu.of_sameCount hv.sameCount
      rw [Programs.wp_bind, wp_ensure, wp_ite]
      refine ⟨fun _ => ⟨fun _ => hw.toMeasured, fun _ => (hw.measurable x).wp_setupFreshSegment⟩, ?_⟩
      exact fun _ => ⟨by decide, hw.events⟩
    · exact ⟨he, hv.trace.all_estimable hu.events⟩
  | oneSeg =>
    have hm := hm fun hb => by rw [ho] at hb; cases hb
    simp only []
    rw [Programs.wp_bind]
    refine wp_mono hm.wp_gbUpdateGoodput (fun _ t ht => ?_) fun _ _ hf => hf.elim
    rw [Programs.wp_bind, wp_connAt]
    refine ⟨fun _ => ?_, fun hn => absurd (Gb.mem_links ht.1.two _) hn⟩
    have hrec : wp (if (s.conn i).currentbyte < (t.conn i.other).currentbyte then performRecovery i x
        else pure false) (fun recovered u => if recovered then Measured u else Settled u) SafeCrash t := by
      rw [wp_ite]
      exact ⟨fun _ => ht.1.wp_performRecovery, fun _ => ht.1⟩
    rw [Programs.wp_bind]
    refine wp_mono hrec (fun recovered u hu => ?_) fun _ _ hc => hc
    rw [wp_ite]
    refine ⟨fun hr => ?_, fun hr => ?_⟩
    · rwa [if_pos hr] at hu
    · rw [if_neg hr] at hu
      exact (hu.measurable x).wp_setupFreshSegment

lemma Measured.wp_planAhead (h : Measured s) (hm : ¬ (s.conn i).lastSegmentFlag →
      (s.offsetInfo.getConnOrderCase i = .behind → ¬ s.offsetInfo.singleLinkModeFlag) → Measurable x s) :
    wp (planAhead i x) (fun _ t => Measured t) SafeCrash s := by
  rw [planAhead, Programs.wp_bind]
  refine wp_mono (h.wp_gbSetupNextSegment hm) (fun planned t ht => ?_) fun _ _ hc => hc
  rw [wp_whenever]
  exact ⟨fun _ => wp_of_silent (blind_sendPlanned i x).keeps ht, fun _ => ht⟩

lemma delivered_received_iff :
    (s.received i n written).Delivered j ↔ s.Delivered j ∨ i = j ∧ written := by
  cases written with
  | true => simp [Session.received, Session.Delivered, Event.WroteFrom, or_comm]
  | false => simp [Session.received, Session.Delivered, Event.WroteFrom]

lemma bytesDone_received :
    ((s.received i n written).conn j).bytesDone = s.pending i n written j := by
  by_cases hj : j = i
  · subst hj
    cases written <;> simp [Session.received, Gb.pending]
  · rw [conn_received_ne hj]
    simp [Gb.pending, hj]

lemma average_received : ((s.received i n written).conn j).ewmaBytesPerSecond =
    (s.conn j).ewmaBytesPerSecond := by
  by_cases hj : j = i
  · subst hj
    cases written <;> simp [Session.received]
  · rw [conn_received_ne hj]

lemma Measured.received (h : Measured s) (hn : 1 ≤ n) : Measured (s.received i n written) where
  two := by
    have hconf : (s.received i n written).conf = s.conf := by cases written <;> rfl
    rw [hconf, h.two]
  bytesDone j := by
    have hj := h.bytesDone j
    rw [bytesDone_received, Gb.pending]
    split_ifs <;> omega
  average he j hj := by
    have he' : s.conf.minimumEnergyMode := by cases written <;> exact he
    have hd := h.bytesDone j
    rw [bytesDone_received, average_received, Gb.pending]
    rcases delivered_received_iff.mp hj with hj | ⟨rfl, hw⟩
    · have hor := h.average he' j hj
      split_ifs <;> omega
    · rw [if_pos ⟨rfl, hw⟩]
      omega
  events := by
    cases written <;> refine (all_cons_iff rfl).mpr ⟨?_, h.events⟩ <;> trivial

/-- A steady read that plans comes to the measurement with bytes of the expected rates. -/
lemma Measured.measurable_received (h : Measured s) (hn : 1 ≤ n)
    (hst : s.conf.minimumEnergyMode → (∀ j, s.pending i n written j ≠ 0 →
        s.Fast j (s.pending i n written j) (x.elapsed j)) ∧
      (0 < s.offsetInfo.completedSegmentCount → ∀ j, s.Delivered j ∨ j = i ∧ written)) :
    Measurable x (s.received i n written) := by
  have henergy : (s.received i n written).conf.minimumEnergyMode → s.conf.minimumEnergyMode := by
    cases written <;> exact id
  have hfast : ∀ j bytes elapsed, s.Fast j bytes elapsed →
      (s.received i n written).Fast j bytes elapsed := by
    intro j bytes elapsed hf
    simp only [Gb.Fast, average_received]
    cases written <;> exact hf
  refine ⟨h.received hn, fun he j hj => ?_, fun he hc j => ?_⟩
  · rw [bytesDone_received] at hj ⊢
    exact hfast j _ _ ((hst (henergy he)).1 j hj)
  · have hcount : 0 < s.offsetInfo.completedSegmentCount := by cases written <;> exact hc
    refine delivered_received_iff.mpr (((hst (henergy he)).2 hcount j).imp_right fun hj => ?_)
    exact ⟨hj.1.symm, hj.2⟩

lemma Measured.wp_handleBytes (h : Measured s) (hn : 1 ≤ n)
    (hst : Steady s (.read i (.bytes n written) x)) :
    wp (handleBytes i n written x) (fun _ t => Measured t) SafeCrash s := by
  have hl := Gb.mem_links h.two i
  have hrest : ∀ rest : Unit → Program Unit,
      wp (rest ()) (fun _ t => Measured t) SafeCrash (s.received i n written) →
      wp (do
        modifyConn i fun c => { c with outstanding := consume n c.outstanding }
        let a ← writeReceivedData i n written
        rest a) (fun _ t => Measured t) SafeCrash s := by
    intro rest hr
    have hw := wp_writeReceivedData (s := s) (i := i) (C := SafeCrash)
      (Q := fun _ t => wp (rest ()) (fun _ t => Measured t) SafeCrash t) n written hl hr
    simpa only [Programs.wp_bind] using hw
  have hr : Measured (s.received i n written) := h.received hn
  rw [handleBytes, Programs.wp_bind, wp_connAt]
  refine ⟨fun _ => hrest _ ?_, fun hn => absurd hl hn⟩
  have hoff : (s.received i n written).offsetInfo = s.offsetInfo := by cases written <;> rfl
  have hflags : ((s.received i n written).conn i).pipelineRequestsSent =
      (s.conn i).pipelineRequestsSent ∧
      ((s.received i n written).conn i).lastSegmentFlag = (s.conn i).lastSegmentFlag := by
    cases written <;> simp [Session.received]
  have hlast : ∀ t, Measured t → wp
      (if (s.conn i).lastbyte - (s.conn i).currentbyte + 1 ≤ n then finishChunk i x
        else updateInorderOffset []) (fun _ t => Measured t) SafeCrash t := by
    intro t ht
    rw [wp_ite]
    exact ⟨fun _ => wp_of_silent (blind_finishChunk i x).keeps ht,
      fun _ => wp_of_silent (silently_of_growing (blind_updateInorderOffset [])).keeps ht⟩
  simp only [Programs.wp_bind, wp_get, wp_follow, wp_demand, hoff]
  refine ⟨fun id hid => ⟨fun g hg => ⟨fun p hp => ?_, fun _ => ?_⟩, fun _ => ?_⟩, fun _ => ?_⟩
  · rw [wp_whenever]
    refine ⟨fun hplan => ?_, fun _ => hlast _ hr⟩
    refine wp_mono (hr.wp_planAhead fun hlf hord => h.measurable_received hn fun he => hst he ?_)
      (fun _ t ht => hlast t ht) (fun _ _ hc => hc)
    refine ⟨?_, ?_, ?_, ?_, ?_⟩
    · simpa [hid, hg, hp] using hplan.1
    · rw [← hflags.1]
      exact hplan.2.1
    · rw [← hoff]
      exact hplan.2.2
    · rwa [← hflags.2]
    · rwa [← hoff]
  · exact ⟨by decide, hr.events⟩
  · exact ⟨by decide, hr.events⟩
  · exact ⟨by decide, hr.events⟩

lemma Measured.wp_exec (h : Measured s) (l : Label) (hl : l.Enabled s) (hst : Steady s l) :
    wp l.exec (fun _ t => Measured t) SafeCrash s := by
  cases l with
  | read i r x =>
    cases r with
    | error => exact wp_of_silent (blind_exceptionForRead i false).keeps h
    | closed => exact wp_of_silent (blind_exceptionForRead i true).keeps h
    | bytes n written => exact h.wp_handleBytes hl.2.2.2.2.1 hst
  | check x => exact wp_of_silent (blind_connCheck x).keeps h
  | setupRequest i connects => exact wp_of_silent (blind_setupRequest i connects).keeps h
  | setupResponse i reply => exact wp_of_silent (blind_setupResponse i reply).keeps h
  | announce => exact wp_of_silent (silently blind_updateLastDownloadedByte).keeps h
  | selectFailed => exact wp_of_silent (blind_ready .error).keeps h
  | stop => exact wp_of_silent (.modify fun u => ⟨.of_conn rfl rfl rfl rfl rfl (.refl u), rfl⟩) h

lemma measured_of_start (h : session.start s) : Measured s := by
  obtain ⟨n, g, ho⟩ := opened_of_start h
  refine ⟨ho.two, fun i => ?_, fun _ i hi => ?_, fun e he => ?_⟩
  · rw [(ho.unused i).goodput.2]
  · obtain ⟨e, he, -⟩ := hi
    rw [ho.trace] at he
    cases he
  · rw [ho.trace] at he
    cases he

/-- In a steady run the three modes can be evaluated at each call, and no assertion about their
goodputs fails. -/
theorem energy_estimable {s : Session} :
    (Reachable steadySession (fun _ => True) s → s.All Event.Estimable) ∧
      ∀ e, Crashes steadySession (fun _ => True) e s → e ≠ .assertGoodput ∧ s.All Event.Estimable := by
  have hstep : ∀ s l, Measured s → steadySession.enabled s l → True →
      wp (steadySession.exec l) (fun _ t => Measured t) SafeCrash s :=
    fun s l hs hl _ => hs.wp_exec l hl.1 hl.2
  refine ⟨fun h => ?_, fun e h => h.invariant (fun _ hs => measured_of_start hs) hstep⟩
  exact (h.invariant (fun _ hs => measured_of_start hs) fun s l hs hl ha =>
    wp_mono (hstep s l hs hl ha) (fun _ _ ht => ht) fun _ _ _ => trivial).events

end Runs

/-- Segments of 2000 bytes, ten of each for the WiFi link, to be fetched with little energy. -/
def savingConf : Conf := { plainConf with
  numOfSegments := 4
  initialChunkRate := fun i => if i = .lte then 199 else 1
  qosKbps := 1
  minimumEnergyMode := true }

/-- The player is playing, and the bytes of the WiFi link took so many seconds. -/
def steadyInputs (seconds : ℚ) : Inputs := { calmInputs with
  elapsed := fun i => if i = .lte then 1 else seconds
  sample := fun _ => ⟨1, some 25, 0⟩ }

/-- Each link finishes its part of the first segment, then the first one that of the second. -/
def savingSteps (seconds : ℚ) : List Label :=
  upSteps .lte ++ upSteps .wifi ++ [readStep .lte 1990, readStep .wifi 10,
    .read .lte (.bytes 1990 true) (steadyInputs seconds)]

/-- A call for which `choose_link_mode` is to decide. -/
def Event.AsksMode : Event → Prop
  | .called s .nextSegmentSize _ => s.conf.minimumEnergyMode ∧ 0 < s.offsetInfo.completedSegmentCount
  | _ => False

instance : DecidablePred Event.AsksMode := fun e => by
  unfold Event.AsksMode
  split <;> infer_instance

theorem energy_estimable_of_saving : ∃ g : Gb, 0 < g.offsetInfo.completedSegmentCount ∧
    ∀ mode, g.Evaluates mode := by
  have hs : result (gbOpen *> gbStart fun _ => true) (gbNew freshStatics savingConf 8000 true 206) =
      some () := by decide +kernel
  obtain ⟨t, ht, e, he, ha⟩ : ∃ t, perform steadySession (savingSteps 1)
      (after (gbOpen *> gbStart fun _ => true) (gbNew freshStatics savingConf 8000 true 206)) =
        .ok () t ∧ ∃ e ∈ t.trace, e.AsksMode := exists_of_ok (by decide +kernel)
  have hreach : Reachable steadySession (fun _ => True) t := by
    refine perform_reachable (savingSteps 1) (fun _ _ => trivial) (.start ?_) ht
    exact ⟨false, freshStatics, savingConf, 8000, 206, fun _ => true, by decide, by decide, ok_of_result hs⟩
  have hest := energy_estimable.1 hreach e he
  cases e with
  | called g f i =>
    cases f with
    | nextSegmentSize => exact ⟨g, ha.2, hest ha.1 ha.2⟩
    | _ => exact ha.elim
  | _ => exact ha.elim

/-- The first measurement of the WiFi link, of a byte a second, comes after the first segment, and its
average is 0. -/
theorem wifi_average_lost : ∃ s : Session, s.Crashed .assertGoodput := by
  obtain ⟨s, hs, -⟩ := exists_of_failsWith (e := .assertGoodput) (P := fun _ => True) savingConf 8000
    (savingSteps 10) (by decide) (by decide) (by decide +kernel) (by decide +kernel)
  exact ⟨s, hs⟩

end GreenBag
