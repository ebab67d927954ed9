import GreenBag.Starting

/-! `check_conn`: which connections are being set up again once it is done. -/

namespace GreenBag

open Programs Function

/-- The connection can be read or is being set up. -/
def Conn.Underway (c : Conn) : Prop := c.enabled ∨ c.setupThread ≠ .none

/-- The thread that is waited for gets a response that is accepted. -/
def Conn.Joins (c : Conn) (connects : Bool) (reply : List UInt8) : Prop :=
  (c.setupThread = .created → c.fd = .socket ∨ connects) ∧
    (c.setupThread = .requested → c.fd ≠ .closed) ∧
    ∃ headers, readHeaderBlock 0 [] reply = some headers ∧ Accepts c.status headers

/-- What has to be the case before `check_conn` for a connection to be underway behind it. -/
def Conn.Resumes (c : Conn) (timedOut connects : Bool) (reply : List UInt8) : Prop :=
  c.enabled ∨ c.currentbyte < c.lastbyte ∧ c.state = false ∨
    c.setupThread ≠ .none ∧
      (c.currentbyte < c.lastbyte → timedOut → c.Joins connects reply)

section

variable {s : Session} {i : Link}

/-- Only one connection is changed. -/
def OnlyAt (i : Link) (s t : Session) : Prop :=
  t.conf = s.conf ∧ ∀ j, j ≠ i → t.conn j = s.conn j

structure Joined (connects : Bool) (reply : List UInt8) (c c' : Conn) : Prop where
  thread : c'.setupThread = .none
  cursor : c'.currentbyte = c.currentbyte ∧ c'.lastbyte = c.lastbyte
  enabled : c'.enabled ↔ c.enabled ∨ c.setupThread ≠ .none ∧ c.Joins connects reply

lemma OnlyAt.update (s : Session) (i : Link) (c : Conn) (es : List Event) :
    OnlyAt i s { s with conn := update s.conn i c, trace := es } :=
  ⟨rfl, fun _ hj => update_of_ne hj ..⟩

lemma wp_setupResponse_joined (hth : (s.conn i).setupThread = .requested) (connects : Bool)
    (reply : List UInt8) :
    wp (setupResponse i reply) (fun _ t => OnlyAt i s t ∧
      Joined connects reply (s.conn i) (t.conn i)) (fun _ _ => True) s := by
  simp only [setupResponse, connExec, httpExec, setupFailed, connDisconnect, wp_bind, wp_get,
    wp_logEvent]
  by_cases hfd : (s.conn i).fd = .closed
  · have hno : ¬ (s.conn i).Joins connects reply := fun hj => hj.2.1 hth hfd
    simp only [hfd, if_true, readHeaderBlock, wp_pure, Bool.false_and, Bool.false_eq_true,
      if_false, wp_bind, wp_modifyConn, update_self, update_idem]
    exact ⟨.update .., rfl, ⟨rfl, rfl⟩, by simp [hno]⟩
  · rw [if_neg hfd]
    cases hb : readHeaderBlock 0 [] reply with
    | none =>
      have hno : ¬ (s.conn i).Joins connects reply := fun hj => by simp [Conn.Joins, hb] at hj
      simp only [wp_pure, Bool.false_and, Bool.false_eq_true, if_false, wp_bind, wp_modifyConn,
        update_self, update_idem]
      exact ⟨.update .., rfl, ⟨rfl, rfl⟩, by simp [hno]⟩
    | some headers =>
      simp only [wp_bind, wp_modifyConn, wp_ensure, wp_pure, wp_ite, update_self, update_idem,
        Bool.true_and, decide_eq_true_eq, implies_true, and_true]
      have hj : 10 ∈ headers → ((s.conn i).Joins connects reply ↔
          ((scanStatus headers).getD (s.conn i).status).tdiv 100 = 2) := fun h₁₀ => by
        simp [Conn.Joins, hth, hfd, hb, Accepts, h₁₀]
      refine fun h₁₀ => ⟨fun htwo => ?_, fun htwo => ?_⟩
      · exact ⟨.update .., rfl, ⟨rfl, rfl⟩, by simp [hth, (hj h₁₀).mpr htwo]⟩
      · have hno : ¬ (s.conn i).Joins connects reply := fun h => htwo ((hj h₁₀).mp h)
        exact ⟨.update .., rfl, ⟨rfl, rfl⟩, by simp [hno]⟩

/-- A thread that asks leaves its connection open, one that cannot connect ends. -/
lemma wp_setupRequest_asked (connects : Bool) :
    wp (setupRequest i connects) (fun _ t => OnlyAt i s t ∧
      (t.conn i).currentbyte = (s.conn i).currentbyte ∧ (t.conn i).lastbyte = (s.conn i).lastbyte ∧
      (t.conn i).enabled = (s.conn i).enabled ∧ (t.conn i).status = (s.conn i).status ∧
      if (s.conn i).fd = .socket ∨ connects then
        (t.conn i).setupThread = .requested ∧ (t.conn i).fd = .socket
      else (t.conn i).setupThread = .none) (fun _ _ => True) s := by
  simp only [setupRequest, connSetup, connInit, connDisconnect, sendGet, setupFailed, wp_bind,
    wp_connAt, implies_true, and_true, wp_ite, wp_pure, wp_whenever, wp_modifyConn, wp_logEvent,
    wp_get, update_self, update_idem, true_implies, not_true_eq_false, false_implies,
    Bool.false_eq_true, true_and, not_false_eq_true]
  refine fun _ => ⟨fun hfd => ?_, fun hfd => ⟨fun hc => ?_, fun hc => ?_⟩⟩
  · exact ⟨.update .., by simp [hfd]⟩
  · exact ⟨.update .., by simp [hc]⟩
  · exact ⟨.update .., by simp [hfd, hc]⟩

lemma OnlyAt.trans {t u : Session} (h : OnlyAt i s t) (h' : OnlyAt i t u) : OnlyAt i s u :=
  ⟨h'.1.trans h.1, fun j hj => (h'.2 j hj).trans (h.2 j hj)⟩

lemma wp_joinSetupThread_joined (connects : Bool) (reply : List UInt8) :
    wp (joinSetupThread i connects reply) (fun _ t => OnlyAt i s t ∧
      Joined connects reply (s.conn i) (t.conn i)) (fun _ _ => True) s := by
  have hidle : ∀ t : Session, OnlyAt i s t → (t.conn i).setupThread = .none →
      (t.conn i).currentbyte = (s.conn i).currentbyte ∧ (t.conn i).lastbyte = (s.conn i).lastbyte →
      ((t.conn i).enabled ↔ (s.conn i).enabled ∨ (s.conn i).setupThread ≠ .none ∧
        (s.conn i).Joins connects reply) →
      wp (do
        let c ← connAt i
        whenever (c.setupThread = .requested) (setupResponse i reply))
        (fun _ t => OnlyAt i s t ∧ Joined connects reply (s.conn i) (t.conn i)) (fun _ _ => True) t := by
    intro t ht hn hc he
    simp only [wp_bind, wp_connAt, implies_true, and_true, wp_whenever, hn, reduceCtorEq,
      false_implies, true_and, not_false_eq_true, true_implies]
    exact fun _ => ⟨ht, hn, hc, he⟩
  have hasked : ∀ t : Session, OnlyAt i s t → (t.conn i).setupThread = .requested →
      (t.conn i).currentbyte = (s.conn i).currentbyte ∧ (t.conn i).lastbyte = (s.conn i).lastbyte →
      (t.conn i).enabled = (s.conn i).enabled → (s.conn i).setupThread ≠ .none →
      ((t.conn i).Joins connects reply ↔ (s.conn i).Joins connects reply) →
      wp (do
        let c ← connAt i
        whenever (c.setupThread = .requested) (setupResponse i reply))
        (fun _ t => OnlyAt i s t ∧ Joined connects reply (s.conn i) (t.conn i)) (fun _ _ => True) t := by
    intro t ht hq hc he hs hj
    simp only [wp_bind, wp_connAt, implies_true, and_true, wp_whenever, hq, not_true_eq_false,
      false_implies, true_implies]
    refine fun _ => wp_mono (wp_setupResponse_joined hq connects reply) ?_ (fun _ _ h => h)
    rintro _ u ⟨hu, h₁, h₂, h₃⟩
    refine ⟨ht.trans hu, h₁, ⟨h₂.1.trans hc.1, h₂.2.trans hc.2⟩, ?_⟩
    rw [h₃, he, hj]
    simp [hq, hs]
  simp only [joinSetupThread]
  rw [wp_bind, wp_connAt]
  refine ⟨fun _ => ?_, fun _ => trivial⟩
  rw [wp_bind, wp_whenever]
  refine ⟨fun hth => ?_, fun hth => ?_⟩
  · have hne : (s.conn i).setupThread ≠ .none := by simp [hth]
    refine wp_mono (wp_setupRequest_asked connects) ?_ (fun _ _ h => h)
    rintro _ t ⟨ht, hcur, hlast, hen, hstatus, hif⟩
    split_ifs at hif with hopen
    · refine hasked t ht hif.1 ⟨hcur, hlast⟩ hen hne ?_
      simp [Conn.Joins, hif, hth, hstatus, hopen]
    · refine hidle t ht hif ⟨hcur, hlast⟩ ?_
      have hno : ¬ (s.conn i).Joins connects reply := fun hj => hopen (hj.1 hth)
      simp [hen, hno]
  · cases hn : (s.conn i).setupThread with
    | none => exact hidle s ⟨rfl, fun _ _ => rfl⟩ hn ⟨rfl, rfl⟩ (by simp [hn])
    | created => exact absurd hn hth
    | requested =>
      exact hasked s ⟨rfl, fun _ _ => rfl⟩ hn ⟨rfl, rfl⟩ rfl (by simp [hn]) Iff.rfl

/-- A connection before and behind a check. -/
structure Checked (x : CheckInputs) (i : Link) (c c' : Conn) : Prop where
  cursor : c'.currentbyte = c.currentbyte ∧ c'.lastbyte = c.lastbyte
  underway : c'.Underway ↔ c.Resumes (x.timedOut i) (x.connects i) (x.reply i)
  thread : c.enabled = false → c.state = false → c.setupThread = .none →
    (c'.setupThread = .created ↔ c.currentbyte < c.lastbyte)

lemma wp_checkConn_checked (x : CheckInputs) (hx : x.created i) :
    wp (checkConn x i) (fun _ t => OnlyAt i s t ∧ Checked x i (s.conn i) (t.conn i))
      (fun _ _ => True) s := by
  simp only [checkConn]
  rw [wp_bind, wp_connAt]
  refine ⟨fun _ => ?_, fun _ => trivial⟩
  rw [wp_whenever]
  refine ⟨fun hgo => ?_, fun hstay => ?_⟩
  · have hoff : (s.conn i).enabled = false := by simpa using hgo.1
    have hlt := hgo.2
    rw [wp_ite]
    refine ⟨fun hstate => ?_, fun hstate => ?_⟩
    · rw [wp_whenever]
      refine ⟨fun hout => ?_, fun hout => ?_⟩
      · rw [wp_bind]
        refine wp_mono (wp_joinSetupThread_joined ..) ?_ (fun _ _ h => h)
        rintro _ t ⟨ht, hj⟩
        simp only [wp_modifyConn]
        refine ⟨ht.trans (.update ..), ?_, ?_, fun _ hs => ?_⟩
        · simpa using hj.cursor
        · simp [Conn.Underway, Conn.Resumes, hj.thread, hj.enabled, hoff, hstate, hlt, hout]
        · rw [hstate] at hs
          cases hs
      · refine ⟨⟨rfl, fun _ _ => rfl⟩, ⟨rfl, rfl⟩, ?_, fun _ hs => ?_⟩
        · simp [Conn.Underway, Conn.Resumes, hoff, hstate, hout]
        · rw [hstate] at hs
          cases hs
    · rw [wp_bind]
      refine wp_mono (wp_joinSetupThread_joined ..) ?_ (fun _ _ h => h)
      rintro _ t ⟨ht, hj⟩
      simp only [createSetupThread, wp_bind, wp_modifyConn, hx, if_true, update_self, update_idem]
      refine ⟨ht.trans (.update ..), hj.cursor, ?_, fun _ _ _ => ?_⟩
      · simp [Conn.Underway, Conn.Resumes, hlt, hstate]
      · simp [hlt]
  · refine ⟨⟨rfl, fun _ _ => rfl⟩, ⟨rfl, rfl⟩, ?_, fun hoff _ hn => ?_⟩
    · simp only [Conn.Underway, Conn.Resumes]
      simp only [not_and, Bool.not_eq_true] at hstay
      cases he : (s.conn i).enabled
      · have hlt := hstay he
        simp [hlt]
      · simp
    · simp only [hoff, hn, Bool.false_eq_true, not_false_eq_true, true_and] at hstay ⊢
      simp [hstay]

/-- Behind `check_conn` a connection is underway exactly if it resumes. One that is disabled without a
thread gets one for its cursor exactly if more than one byte is missing. -/
theorem underway_iff_resumes {t : Session} (h : s.Reached) {x : CheckInputs}
    (hx : ∀ j, x.created j) (ht : connCheck x s = .ok () t) (i : Link) :
    ((t.conn i).Underway ↔ (s.conn i).Resumes (x.timedOut i) (x.connects i) (x.reply i)) ∧
      ((s.conn i).enabled = false → (s.conn i).state = false → (s.conn i).setupThread = .none →
        ((t.conn i).setupThread = .created ∧ (t.conn i).currentbyte = (s.conn i).currentbyte ∧
            (t.conn i).lastbyte = (s.conn i).lastbyte ↔
          (s.conn i).currentbyte < (s.conn i).lastbyte)) := by
  have hlinks : s.links = [.lte, .wifi] := by simp [Gb.links, h.two]
  have hw : wp (connCheck x) (fun _ t => Checked x i (s.conn i) (t.conn i)) (fun _ _ => True) s := by
    simp only [connCheck, wp_bind, wp_get, hlinks, each_cons, each_nil, wp_pure, wp_whenever,
      wp_modify]
    refine wp_mono (wp_checkConn_checked x (hx .lte)) (fun _ u hu => ?_) (fun _ _ h => h)
    refine wp_mono (wp_checkConn_checked x (hx .wifi)) (fun _ v hv => ?_) (fun _ _ h => h)
    suffices hc : Checked x i (s.conn i) (v.conn i) from ⟨fun _ => hc, fun _ => hc⟩
    cases i
    · rw [hv.1.2 .lte (by simp)]
      exact hu.2
    · rw [← hu.1.2 .wifi (by simp)]
      exact hv.2
  obtain ⟨hc, hu, hth⟩ := ((wp_iff _).mp hw).1 () t ht
  exact ⟨hu, fun h₁ h₂ h₃ => by rw [← hth h₁ h₂ h₃]; simp [hc]⟩

instance (c : Conn) : Decidable c.Underway := inferInstanceAs (Decidable (_ ∨ _))

/-- The first connection is set up, the second one is not. -/
theorem underway_iff_resumes_of_start : ∃ s t : Session, s.Reached ∧ (t.conn .lte).Underway ∧
    ((t.conn .lte).Underway ↔ (s.conn .lte).Resumes true true okReply) ∧
      ((s.conn .lte).enabled = false → (s.conn .lte).state = false →
        (s.conn .lte).setupThread = .none →
          ((t.conn .lte).setupThread = .created ∧
              (t.conn .lte).currentbyte = (s.conn .lte).currentbyte ∧
              (t.conn .lte).lastbyte = (s.conn .lte).lastbyte ↔
            (s.conn .lte).currentbyte < (s.conn .lte).lastbyte)) := by
  obtain ⟨s, hs, hr⟩ := exists_of_reaches plainConf 16
    (upSteps .lte ++ [.read .lte .error calmInputs])
    (P := LeadsTo (connCheck againInputs) fun t => (t.conn .lte).Underway)
    (by decide +kernel) (by decide) (by decide +kernel)
  obtain ⟨t, ht, hu⟩ := exists_of_ok hr
  exact ⟨s, t, hs, hu, underway_iff_resumes hs (x := againInputs) (fun _ => rfl) ht .lte⟩

/-- The only byte of a chunk is missing when its connection fails, and no thread is started for it. -/
theorem last_byte_abandoned : ∃ s t : Session, s.Reached ∧
    connCheck againInputs s = .ok () t ∧ s.offsetInfo.connection .wifi ≠ none ∧
    (s.conn .wifi).currentbyte = 1 ∧ (s.conn .wifi).lastbyte = 1 ∧ (s.conn .wifi).state = false ∧
    ¬ (t.conn .wifi).Underway := by
  obtain ⟨s, hs, hr, hrest⟩ := exists_of_reaches { plainConf with numOfSegments := 1 } 2
    (upSteps .wifi ++ [.read .wifi .error calmInputs])
    (P := fun s => LeadsTo (connCheck againInputs) (fun t => ¬ (t.conn .wifi).Underway) s ∧
      s.offsetInfo.connection .wifi ≠ none ∧ (s.conn .wifi).currentbyte = 1 ∧
      (s.conn .wifi).lastbyte = 1 ∧ (s.conn .wifi).state = false)
    (by decide +kernel) (by decide) (by decide +kernel)
  obtain ⟨t, ht, hu⟩ := exists_of_ok hr
  exact ⟨s, t, hs, ht, hrest.1, hrest.2.1, hrest.2.2.1, hrest.2.2.2, hu⟩

end

end GreenBag
