import GreenBag.Handling

/-! Setup threads: a connection is opened, asks for its cursor and awaits the first header. With this
every step of a session keeps the invariants. -/

namespace GreenBag

open Programs Ranges Schedules Function Machines

section

variable {i : Link} {s t : Session} {c : Conn} {es : List Event}

lemma Wire.flag_of (h : Wire .rest s i) (ht : t.trace = es ++ s.trace) (hp : t.parts i = s.parts i)
    (hf : (t.conn i).pipelineRequestsSent = (s.conn i).pipelineRequestsSent) :
    t.All Event.Served → t.parts i ≠ [] → (t.conn i).pipelineRequestsSent →
      2 ≤ (t.parts i).length := by
  rw [hp, hf]
  exact fun ha => h.flag ((all_append_iff ht).mp ha).2

/-- Where a thread runs, all requests and responses in order mean that the connection is not read. -/
lemma Wire.not_active (h : Wire .rest s i) (hth : (s.conn i).setupThread ≠ .none)
    (ha : s.All Event.Alone) : (s.conn i).enabled = false := by
  by_contra hen
  exact hth (h.calm ha (.inl (by simpa using hen))).1

lemma Session.All.alone (ha : s.All Event.InOrder) : s.All Event.Alone := ha.imp fun _ he => he.2.2.1

lemma Inv.setupFailed (h : Inv .rest s) (hth : (s.conn i).setupThread ≠ .none) :
    Inv .rest { s with conn := update s.conn i { s.conn i with
      fd := .closed, outstanding := [], response := none, state := false
      setupThread := .none } } := by
  generalize hc : ({ s.conn i with
    fd := .closed, outstanding := [], response := none, state := false
    setupThread := .none } : Conn) = c
  have hrew : Rewired (s.conn i) c := hc ▸ ⟨rfl, rfl, rfl, rfl, rfl⟩
  generalize ht : ({ s with conn := update s.conn i c } : Session) = t
  have hconn : t.conn i = c := ht ▸ update_self ..
  have htrace : t.trace = [] ++ s.trace := ht ▸ rfl
  have hact : t.All Event.Alone → ¬ Active .rest t.toGb i := by
    rintro ha (he | hb)
    · rw [hconn, ← hc] at he
      have := (h.wire i).not_active hth ((all_append_iff htrace).mp ha).2
      simp [this] at he
    · exact hb
  have hnone : (t.conn i).setupThread = .none := by rw [hconn, ← hc]
  refine h.rewire [] ht.symm hrew (by simp) (ht ▸ ⟨h.told.1, h.told.2, h.told.3, h.told.4⟩) ?_
  refine ⟨(h.wire i).flag_of htrace (ht ▸ rfl) (by rw [hconn, hrew.flag]),
    fun ha hi => absurd hi (hact ha), fun _ hn => absurd hnone hn, fun _ hq => ?_, fun ha hq => ?_,
    fun _ _ => by rw [hconn, ← hc], fun ha hi => absurd hi (hact (ha.imp fun _ he => he.1))⟩
  · rw [hnone] at hq
    cases hq
  · rcases hq with hq | hq
    · exact absurd hq (hact ha.alone)
    · rw [hnone] at hq
      cases hq

lemma wp_setupFailed (h : Inv .rest s) (hth : (s.conn i).setupThread ≠ .none) :
    wp (setupFailed i) (fun _ t => Inv .rest t ∧ s.trace <:+ t.trace ∧
      (t.conn i).setupThread = .none) Sane s := by
  simp only [setupFailed, connDisconnect, wp_bind, wp_modifyConn, update_self, update_idem]
  exact ⟨h.setupFailed hth, List.suffix_refl _, trivial⟩

lemma plan_congr {s t : Gb} (ho : t.offsetInfo = s.offsetInfo)
    (hc : (t.conn i).currentbyte = (s.conn i).currentbyte)
    (hl : (t.conn i).lastbyte = (s.conn i).lastbyte) : t.plan i = s.plan i := by
  simp only [Gb.plan, ho, hc, hl]

/-- A setup thread asks for the cursor of its connection, whether it has work or not. -/
lemma Rep.exactGet_cursor {s : Gb} (h : Rep .rest s) (i : Link) :
    ExactGet s i (s.conn i).currentbyte (s.conn i).lastbyte ↔
      PlainGet s .setupThread i (s.conn i).lastbyte := by
  have hpointer := h.pointer i rfl
  by_cases hp : s.parts i = []
  · have hnone : s.offsetInfo.connection i = none := hpointer.trans (firstWith_eq_none.mpr hp)
    refine ⟨fun he => ?_, fun hg => absurd hnone (hg.1 rfl)⟩
    obtain ⟨c, hc, -⟩ := he.missing
    rw [chunks_eq_parts, show parts i s.offsetInfo.segments = [] from hp] at hc
    cases hc
  · obtain ⟨d, ds, ps, hcur⟩ := h.cursor hp
    obtain ⟨p, hparts, hds⟩ := hcur.parts
    have hne : s.offsetInfo.connection i ≠ none := by
      rw [hpointer]
      exact fun hn => hp (firstWith_eq_none.mp hn)
    have hmem : d ∈ s.offsetInfo.segments.flatMap (Segment.chunks i) := by
      rw [chunks_eq_parts, show parts i s.offsetInfo.segments = p :: ps from hparts,
        List.flatMap_cons, hds]
      simp
    have hqueue : (⟨(s.conn i).currentbyte, (s.conn i).lastbyte⟩ : Range) ∈ s.queue i := by
      rw [hcur.queue]
      exact List.mem_cons_self
    have hin := hcur.head.2
    have hstart := hcur.start
    have hslack := hcur.slack
    have hlast := hcur.last
    have hf := h.frontier.2
    simp only [Phase.slack, add_zero] at hslack
    rw [exactGet_iff ⟨d, hmem, hstart, hlast.symm, fun x hx => ⟨fun hle => ?_, fun hz => ?_⟩⟩ (by omega)
      hslack (by omega), PlainGet]
    · simp [hne]
    · exact h.not_written (h.mem_ahead_of_queue hqueue) ⟨hle, hlast ▸ hx.2⟩
    · by_contra hlt
      have := hcur.before x hx.1 (by omega)
      omega

lemma Inv.setupAsked (h : Inv .rest s) (hth : (s.conn i).setupThread = .created)
    (hc : Rewired (s.conn i) c) (hfd : c.fd = .socket) (hen : c.enabled = (s.conn i).enabled)
    (hstate : c.state = (s.conn i).state) :
    Inv .rest { s with
      trace := .get { s.toGb with conn := update s.conn i c } .setupThread i c.currentbyte
        c.lastbyte :: s.trace
      conn := update s.conn i { c with
        outstanding := c.outstanding ++ [requestedRange s.size c.currentbyte c.lastbyte]
        setupThread := .requested } } := by
  generalize hw : ({ s.toGb with conn := update s.conn i c } : Gb) = w
  generalize hd : ({ c with
    outstanding := c.outstanding ++ [requestedRange s.size c.currentbyte c.lastbyte]
    setupThread := .requested } : Conn) = d
  generalize ht : ({ s with
    trace := .get w .setupThread i c.currentbyte c.lastbyte :: s.trace
    conn := update s.conn i d } : Session) = t
  have hrew : Rewired (s.conn i) d := hd ▸ ⟨hc.1, hc.2, hc.3, hc.4⟩
  have hwc : w.conn i = c := hw ▸ update_self ..
  have hconn : t.conn i = d := ht ▸ update_self ..
  have htrace : t.trace = [.get w .setupThread i c.currentbyte c.lastbyte] ++ s.trace := by
    rw [← ht]
    rfl
  have hparts : t.parts i = s.parts i := ht ▸ rfl
  have hplan : w.plan i = s.queue i := by
    rw [← h.rep.plan_eq]
    exact plan_congr (hw ▸ rfl) (by rw [hwc, hc.1]) (by rw [hwc, hc.2])
  have halike : Alike s.toGb w := by
    refine ⟨hw ▸ rfl, hw ▸ rfl, hw ▸ rfl, hw ▸ rfl, fun j => ?_, fun j => ?_, fun j _ hf => ?_,
      fun hl => hw ▸ hl, fun _ => hw ▸ rfl, fun _ => hw ▸ rfl, hw ▸ rfl, hw ▸ rfl, hw ▸ rfl, hw ▸ rfl⟩ <;>
      by_cases hj : j = i
    · rw [hj, hwc, hc.1]
    · rw [← hw, show Gb.conn _ j = _ from update_of_ne hj ..]
    · rw [hj, hwc, hc.2]
    · rw [← hw, show Gb.conn _ j = _ from update_of_ne hj ..]
    · rw [hj, hwc, hc.3]
      exact hj ▸ hf
    · rw [← hw, show Gb.conn _ j = _ from update_of_ne hj ..]
      exact hf
  have hnot : t.All Event.Alone → ¬ Active .rest t.toGb i := by
    rintro ha (he | hb)
    · rw [hconn, ← hd] at he
      have hoff := (h.wire i).not_active (by rw [hth]; exact SetupThread.noConfusion)
        ((all_append_iff htrace).mp ha).2
      rw [← hen] at hoff
      exact absurd he (by simp [hoff])
    · exact hb
  have hordered : t.All Event.InOrder → s.queue i = [⟨c.currentbyte, c.lastbyte⟩] ∧
      c.outstanding = [] ∧ (c.lastbyte ≠ 0 ∨ s.size = 1) := by
    intro ha
    have hev := (((all_append_iff htrace).mp ha).1 _ List.mem_cons_self).2.2.2
    have hsize : w.size = s.size := by rw [← hw]
    simp only [Event.Ordered, hplan, hwc, hsize] at hev
    exact hev
  have hne : t.All Event.InOrder → t.parts i ≠ [] := by
    intro ha hn
    have hq := (hordered ha).1
    rw [Gb.queue, ← hparts, hn] at hq
    cases hq
  refine h.rewire [_] ht.symm hrew (by simp [Event.Quiet, Event.WritesAll]) ?_ ?_
  · refine h.told.extend htrace (fun s' site j a b hm => ?_) (fun _ => by simp) (fun _ => by simp)
      (by simp [Event.Sound])
    obtain ⟨rfl, rfl, rfl, rfl, rfl⟩ := Event.get.inj (List.mem_singleton.mp hm)
    have hg := (halike.rep h.rep).exactGet_cursor j
    rwa [hwc] at hg
  · refine ⟨(h.wire i).flag_of htrace hparts (by rw [hconn, hrew.flag]),
      fun ha hi => absurd hi (hnot ha), fun ha _ => ?_, fun ha _ => ?_, fun ha _ => ?_,
      fun ha hn => absurd hn (hne ha), fun ha hi => absurd hi (hnot (ha.imp fun _ he => he.1))⟩
    · rw [hconn, ← hd]
      exact hstate.trans ((h.wire i).state ((all_append_iff htrace).mp ha).2
        (by rw [hth]; exact SetupThread.noConfusion))
    · rw [hconn, ← hd]
      exact ⟨hfd, hne ha⟩
    · obtain ⟨hq, hnil, hb⟩ := hordered ha
      have hqueue : t.queue i = s.queue i := by
        rw [Gb.queue, Gb.queue, hparts]
        exact queueOf_congr (by rw [hconn, hrew.1]) (by rw [hconn, hrew.2]) _
      obtain ⟨d', ds, ps, hcur⟩ := h.rep.cursor (i := i) (hparts ▸ hne ha)
      have hslack := hcur.slack
      rw [← hc.1, ← hc.2] at hslack
      simp only [Phase.slack, add_zero] at hslack
      have hreq : requestedRange s.size c.currentbyte c.lastbyte = ⟨c.currentbyte, c.lastbyte⟩ := by
        rw [requestedRange]
        split_ifs with h₀
        · rfl
        · have hs := hb.resolve_left h₀
          simp only [Range.mk.injEq, true_and]
          simp only [ne_eq, not_not] at h₀
          omega
      rw [Gb.wanted, hqueue, hq, hconn, ← hd]
      simp only [hnil, hreq, List.nil_append]
      exact (List.dropWhile_cons_of_neg (by simpa using hslack)).symm

lemma wp_setupRequest (h : Inv .rest s) (hth : (s.conn i).setupThread = .created) (connects : Bool) :
    wp (setupRequest i connects) (fun _ t => Inv .rest t ∧ s.trace <:+ t.trace ∧
      (t.conn i).setupThread ≠ .created) Sane s := by
  have hne : (s.conn i).setupThread ≠ .none := by
    rw [hth]
    exact SetupThread.noConfusion
  simp only [setupRequest, connSetup, connInit, connDisconnect, sendGet, setupFailed, wp_bind,
    wp_connAt, sane_connOutOfBounds, h.sincere, implies_true, and_true, wp_ite, wp_pure, wp_whenever,
    wp_modifyConn, wp_logEvent, wp_get, update_self, update_idem, true_implies, not_true_eq_false,
    false_implies, Bool.false_eq_true, true_and, not_false_eq_true]
  refine fun _ => ⟨fun hfd => ?_, fun hfd => ⟨fun _ => ?_, fun _ => ?_⟩⟩
  · have hask := h.setupAsked hth (c := s.conn i) ⟨rfl, rfl, rfl, rfl, rfl⟩ hfd rfl rfl
    rw [if_pos hfd]
    simp only [update_eq_self] at hask ⊢
    exact ⟨hask, List.suffix_cons _ _, SetupThread.noConfusion⟩
  · exact ⟨h.setupAsked hth (c := { s.conn i with fd := .socket, outstanding := [], response := none })
      ⟨rfl, rfl, rfl, rfl, rfl⟩ rfl rfl rfl, List.suffix_cons _ _, SetupThread.noConfusion⟩
  · exact ⟨h.setupFailed hne, List.suffix_refl _, SetupThread.noConfusion⟩

/-- A setup thread heard something from the server; `c` is its connection then. -/
lemma Inv.heard (h : Inv .rest s) (hth : (s.conn i).setupThread = .requested) (reply : List UInt8)
    (hc : Rewired (s.conn i) c) (hfd : c.fd = (s.conn i).fd)
    (hout : c.outstanding = (s.conn i).outstanding) (hen : c.enabled = (s.conn i).enabled)
    (hstate : c.state = (s.conn i).state) (hthread : c.setupThread = (s.conn i).setupThread) :
    Inv .rest { s with
      trace := .header s.toGb .setupThread i reply :: s.trace
      conn := update s.conn i c } := by
  generalize ht : ({ s with
    trace := .header s.toGb .setupThread i reply :: s.trace
    conn := update s.conn i c } : Session) = t
  have hconn : t.conn i = c := ht ▸ update_self ..
  have htrace : t.trace = [.header s.toGb .setupThread i reply] ++ s.trace := by
    rw [← ht]
    rfl
  have hparts : t.parts i = s.parts i := ht ▸ rfl
  have hall : ∀ {P : Event → Prop}, t.All P → s.All P := fun ha => ((all_append_iff htrace).mp ha).2
  have hw := h.wire i
  have hwanted : t.wanted i = s.wanted i := by
    rw [Gb.wanted, Gb.wanted, Gb.queue, Gb.queue, hparts]
    exact congrArg _ (queueOf_congr (by rw [hconn, hc.1]) (by rw [hconn, hc.2]) _)
  have hnot : t.All Event.Alone → ¬ Active .rest t.toGb i := by
    rintro ha (he | hb)
    · rw [hconn, hen, hw.not_active (by simp [hth]) (hall ha)] at he
      cases he
    · exact hb
  refine h.rewire [_] ht.symm hc (by simp [Event.Quiet, Event.WritesAll]) ?_ ?_
  · refine h.told.extend htrace (fun s' site j a b hm => by simp at hm) (fun ha s' site j r hm => ?_)
      (fun ha s' j r hm => by simp at hm) (by simp [Event.Sound])
    obtain ⟨rfl, rfl, rfl, rfl⟩ := Event.header.inj (List.mem_singleton.mp hm)
    have hal := hw.aligned (hall ha) (.inr hth)
    obtain ⟨d, ds, ps, hcur⟩ := h.rep.cursor (hw.requested (hall ha) hth).2
    have hle := hcur.slack
    simp only [Phase.slack, add_zero] at hle
    rw [hal, hcur.wanted, if_pos hle, hcur.queue]
    exact List.cons_ne_nil _ _
  · refine ⟨hw.flag_of htrace hparts (by rw [hconn, hc.flag]), fun ha hi => absurd hi (hnot ha),
      fun ha hn => ?_, fun ha hq => ?_, fun ha _ => ?_, fun ha hn => ?_,
      fun ha hi => absurd hi (hnot (ha.imp fun _ he => he.1))⟩
    · rw [hconn] at hn ⊢
      rw [hstate]
      exact hw.state (hall ha) (hthread ▸ hn)
    · rw [hconn, hfd, hparts]
      exact hw.requested (hall ha) hth
    · rw [hconn, hout, hwanted]
      exact hw.aligned (hall ha) (.inr hth)
    · rw [hconn, hout]
      exact hw.idle (hall ha) (hparts ▸ hn)

/-- A connection whose setup thread got a response that `conn_exec` accepts can be read. -/
lemma Inv.setupDone (h : Inv .rest s) (hth : (s.conn i).setupThread = .requested)
    (hfd : (s.conn i).fd ≠ .closed) (hreads : s.Reads i) :
    Inv .rest { s with conn := update s.conn i { s.conn i with
      enabled := true, state := false, setupThread := .none } } := by
  generalize hc : ({ s.conn i with enabled := true, state := false, setupThread := .none } : Conn) = c
  have hrew : Rewired (s.conn i) c := hc ▸ ⟨rfl, rfl, rfl, rfl, rfl⟩
  generalize ht : ({ s with conn := update s.conn i c } : Session) = t
  have hconn : t.conn i = c := ht ▸ update_self ..
  have htrace : t.trace = [] ++ s.trace := ht ▸ rfl
  have hparts : t.parts i = s.parts i := ht ▸ rfl
  have hall : ∀ {P : Event → Prop}, t.All P → s.All P := fun ha => ((all_append_iff htrace).mp ha).2
  have hnone : (t.conn i).setupThread = .none := by rw [hconn, ← hc]
  have hw := h.wire i
  have hwanted : t.wanted i = s.wanted i := by
    rw [Gb.wanted, Gb.wanted, Gb.queue, Gb.queue, hparts]
    exact congrArg _ (queueOf_congr (by rw [hconn, hrew.1]) (by rw [hconn, hrew.2]) _)
  refine h.rewire [] ht.symm hrew (by simp) (ht ▸ ⟨h.told.1, h.told.2, h.told.3, h.told.4⟩) ?_
  refine ⟨hw.flag_of htrace hparts (by rw [hconn, hrew.flag]), fun _ _ => ⟨hnone, ?_⟩,
    fun _ hn => absurd hnone hn, fun _ hq => ?_, fun ha _ => ?_, fun ha hn => ?_, fun _ _ => ?_⟩
  · rw [hconn, ← hc]
    exact hfd
  · rw [hnone] at hq
    cases hq
  · rw [hwanted, hconn, ← hc]
    exact hw.aligned (hall ha) (.inr hth)
  · rw [hconn, ← hc]
    exact hw.idle (hall ha) (hparts ▸ hn)
  · rw [Gb.Reads, hconn, ← hc]
    exact hreads

lemma wp_setupResponse (h : Inv .rest s) (hth : (s.conn i).setupThread = .requested)
    (reply : List UInt8) :
    wp (setupResponse i reply) (fun _ t => Inv .rest t ∧ s.trace <:+ t.trace ∧
      (t.conn i).setupThread = .none) Sane s := by
  simp only [setupResponse, connExec, httpExec, wp_bind, wp_get, wp_logEvent]
  generalize hreply : (if (s.conn i).fd = .closed then [] else reply) = heard
  have hfail : ∀ t : Session, Inv .rest t → (t.conn i).setupThread = .requested →
      s.trace <:+ t.trace → wp (setupFailed i) (fun _ t => Inv .rest t ∧ s.trace <:+ t.trace ∧
        (t.conn i).setupThread = .none) Sane t := by
    intro t ht hq hs
    refine wp_mono (wp_setupFailed ht (by simp [hq])) ?_ (fun _ _ h => h)
    exact fun _ u hu => ⟨hu.1, hs.trans hu.2.1, hu.2.2⟩
  cases hblock : readHeaderBlock 0 [] heard with
  | none =>
    have hh := h.heard hth heard (c := s.conn i) ⟨rfl, rfl, rfl, rfl, rfl⟩ rfl rfl rfl rfl rfl
    simp only [update_eq_self] at hh
    simp only [wp_pure, Bool.false_and, Bool.false_eq_true, if_false]
    exact hfail _ hh hth (List.suffix_cons _ _)
  | some headers =>
    have hh := h.heard hth heard (c := { s.conn i with
      response := some ⟨(s.conn i).status, headers⟩
      status := (scanStatus headers).getD (s.conn i).status }) ⟨rfl, rfl, rfl, rfl, rfl⟩ rfl rfl rfl
      rfl rfl
    have hsin : Sincere (.header s.toGb .setupThread i heard :: s.trace) :=
      h.sincere.cons trivial (by simp)
    simp only [wp_bind, wp_modifyConn, wp_ensure, sane_nullPointer, hsin, implies_true, and_true,
      wp_pure, update_self, Bool.true_and, decide_eq_true_eq, wp_ite, update_idem]
    refine fun hten => ⟨fun htwo => ⟨?_, List.suffix_cons _ _⟩, fun _ => ?_⟩
    · have hopen : (s.conn i).fd ≠ .closed := by
        rintro hfd
        rw [if_pos hfd] at hreply
        rw [← hreply] at hblock
        cases hblock
      have hd := hh.setupDone (i := i) (by simp only [update_self]; exact hth)
        (by simp only [update_self]; exact hopen)
        ⟨⟨(s.conn i).status, headers⟩, by simp only [update_self], hten, htwo⟩
      simpa only [update_self, update_idem] using hd
    · exact hfail _ hh (by simp only [update_self]; exact hth) (List.suffix_cons _ _)

lemma wp_joinSetupThread (h : Inv .rest s) (connects : Bool) (reply : List UInt8) :
    wp (joinSetupThread i connects reply) (fun _ t => Inv .rest t ∧ s.trace <:+ t.trace ∧
      (t.conn i).setupThread = .none ∧ ((s.conn i).setupThread = .none → t = s)) Sane s := by
  have hsecond : ∀ t : Session, Inv .rest t → s.trace <:+ t.trace →
      (t.conn i).setupThread ≠ .created → ((s.conn i).setupThread = .none → t = s) →
      wp (do
        let c ← connAt i
        whenever (c.setupThread = .requested) (setupResponse i reply))
        (fun _ t => Inv .rest t ∧ s.trace <:+ t.trace ∧ (t.conn i).setupThread = .none ∧
          ((s.conn i).setupThread = .none → t = s)) Sane t := by
    intro t ht hs hne hsame
    simp only [wp_bind, wp_connAt, sane_connOutOfBounds, ht.sincere, implies_true, and_true,
      wp_whenever]
    refine fun _ => ⟨fun hq => ?_, fun hq => ⟨ht, hs, ?_, hsame⟩⟩
    · refine wp_mono (wp_setupResponse ht hq reply) (fun _ u hu => ?_) (fun _ _ h => h)
      exact ⟨hu.1, hs.trans hu.2.1, hu.2.2, fun hn => by rw [hsame hn, hn] at hq; cases hq⟩
    · cases hth : (t.conn i).setupThread with
      | none => rfl
      | created => exact absurd hth hne
      | requested => exact absurd hth hq
  simp only [joinSetupThread]
  rw [wp_bind, wp_connAt]
  refine ⟨fun _ => ?_, fun _ => (sane_connOutOfBounds s).mpr h.sincere⟩
  rw [wp_bind, wp_whenever]
  refine ⟨fun hq => ?_, fun hq => hsecond s h (List.suffix_refl _) hq fun _ => rfl⟩
  refine wp_mono (wp_setupRequest h hq connects) (fun _ t ht => ?_) (fun _ _ h => h)
  exact hsecond t ht.1 ht.2.1 ht.2.2 fun hn => by rw [hn] at hq; cases hq

/-- The part of `connect_state` is noted; a thread may start where none runs and nothing is read. -/
lemma Inv.setupState (h : Inv .rest s) (state : Bool) (thread : SetupThread)
    (hrun : thread ≠ .none → thread = .created ∧ state ∧
      (s.All Event.Alone → (s.conn i).enabled = false)) :
    Inv .rest { s with conn := update s.conn i { s.conn i with
      state := state, setupThread := thread } } := by
  generalize hc : ({ s.conn i with state := state, setupThread := thread } : Conn) = c
  have hrew : Rewired (s.conn i) c := hc ▸ ⟨rfl, rfl, rfl, rfl, rfl⟩
  generalize ht : ({ s with conn := update s.conn i c } : Session) = t
  have hconn : t.conn i = c := ht ▸ update_self ..
  have htrace : t.trace = [] ++ s.trace := ht ▸ rfl
  have hparts : t.parts i = s.parts i := ht ▸ rfl
  have hall : ∀ {P : Event → Prop}, t.All P → s.All P := fun ha => ((all_append_iff htrace).mp ha).2
  have hw := h.wire i
  have hactive : Active .rest t.toGb i → Active .rest s.toGb i := by
    rw [Active, Active, hconn, ← hc]
    exact id
  have hasked : (t.conn i).setupThread ≠ .requested := by
    rw [hconn, ← hc]
    intro hq
    have hq' : thread = .requested := hq
    have hcreated := (hrun (by simp [hq'])).1
    rw [hq'] at hcreated
    cases hcreated
  have hwanted : t.wanted i = s.wanted i := by
    rw [Gb.wanted, Gb.wanted, Gb.queue, Gb.queue, hparts]
    exact congrArg _ (queueOf_congr (by rw [hconn, hrew.1]) (by rw [hconn, hrew.2]) _)
  refine h.rewire [] ht.symm hrew (by simp) (ht ▸ ⟨h.told.1, h.told.2, h.told.3, h.told.4⟩) ?_
  refine ⟨hw.flag_of htrace hparts (by rw [hconn, hrew.flag]), fun ha hi => ?_, fun _ hn => ?_,
    fun _ hq => absurd hq hasked, fun ha hi => ?_, fun ha hn => ?_, fun ha hi => ?_⟩
  · rw [hconn, ← hc]
    refine ⟨?_, (hw.calm (hall ha) (hactive hi)).2⟩
    by_contra hn
    have hoff := (hrun hn).2.2 (hall ha)
    exact (hactive hi).elim (fun he => by simp [hoff] at he) id
  · rw [hconn, ← hc] at hn ⊢
    exact (hrun hn).2.1
  · rw [hwanted, hconn, ← hc]
    exact hw.aligned (hall ha) (.inl (hactive (hi.resolve_right hasked)))
  · rw [hconn, ← hc]
    exact hw.idle (hall ha) (hparts ▸ hn)
  · rw [Gb.Reads, hconn, ← hc]
    exact hw.reads (hall ha) (hactive hi)

lemma wp_createSetupThread (h : Inv .rest s) (hth : (s.conn i).setupThread = .none)
    (hoff : s.All Event.Alone → (s.conn i).enabled = false) (created : Bool) :
    wp (createSetupThread i created) (fun _ t => Inv .rest t) Sane s := by
  simp only [createSetupThread, wp_bind, wp_modifyConn, wp_ite, wp_modify, update_self, update_idem]
  refine ⟨fun _ => ?_, fun _ => ?_⟩
  · exact h.setupState true .created fun _ => ⟨rfl, rfl, hoff⟩
  · have hs := h.setupState (i := i) true .none fun hn => absurd rfl hn
    simp only [← hth] at hs
    exact hs.over .error s.run (fun hn => by cases hn) id

/-- Where no header is awaited beside a thread, a thread marks its connection, so the thread that
`check_conn` waits for without a mark does not run. -/
lemma wp_checkConn (h : Inv .rest s) (x : CheckInputs) (i : Link) :
    wp (checkConn x i) (fun _ t => Inv .rest t) Sane s := by
  simp only [checkConn]
  rw [wp_bind, wp_connAt]
  refine ⟨fun _ => ?_, fun _ => (sane_connOutOfBounds s).mpr h.sincere⟩
  rw [wp_whenever]
  refine ⟨fun hidle => ?_, fun _ => h⟩
  rw [wp_ite]
  refine ⟨fun _ => ?_, fun hstate => ?_⟩
  · rw [wp_whenever]
    refine ⟨fun _ => ?_, fun _ => h⟩
    rw [wp_bind]
    refine wp_mono (wp_joinSetupThread h _ _) (fun _ t ht => ?_) (fun _ _ h => h)
    have hs := ht.1.setupState (i := i) false .none fun hn => absurd rfl hn
    simpa only [wp_modifyConn, ← ht.2.2.1] using hs
  · rw [wp_bind]
    refine wp_mono (wp_joinSetupThread h _ _) (fun _ t ht => ?_) (fun _ _ h => h)
    refine wp_createSetupThread ht.1 ht.2.2.1 (fun ha => ?_) _
    have has : s.All Event.Alone := fun e he => ha e (ht.2.1.subset he)
    have hnone : (s.conn i).setupThread = .none := by
      by_contra hn
      exact hstate ((h.wire i).state has hn)
    rw [ht.2.2.2 hnone]
    simpa using hidle.1

lemma wp_connCheck (h : Inv .rest s) (x : CheckInputs) :
    wp (connCheck x) (fun _ t => Inv .rest t) Sane s := by
  simp only [connCheck, wp_bind, wp_get]
  refine wp_mono (wp_each h fun i _ t ht => wp_checkConn ht x i) ?_ (fun _ _ h => h)
  intro _ t ht
  simp only [wp_whenever, wp_modify]
  exact ⟨fun _ => ht.over .complete t.run (fun hn => by cases hn) id, fun _ => ht⟩

/-- No step of a session breaks an invariant, whatever the connections receive. -/
lemma wp_exec (h : Inv .rest s) (hex : s.exact) (l : Label) (hl : l.Enabled s) :
    wp l.exec (fun _ t => Inv .rest t) Sane s := by
  cases l with
  | read i r x => exact wp_handle h hex hl.2.1 hl.2.2.2.1 r hl.2.2.2.2
  | check x => exact wp_connCheck h x
  | setupRequest i connects =>
    exact wp_mono (wp_setupRequest h hl.2 connects) (fun _ _ h => h.1) (fun _ _ h => h)
  | setupResponse i reply =>
    exact wp_mono (wp_setupResponse h hl.2 reply) (fun _ _ h => h.1) (fun _ _ h => h)
  | announce => exact wp_mono h.announce (fun _ _ h => h.1) (fun _ _ h => h)
  | selectFailed => exact h.over .error s.run (fun hn => by cases hn) id
  | stop => exact h.over s.ready false id (fun hn => by cases hn)

end

end GreenBag
