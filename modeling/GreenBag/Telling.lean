import GreenBag.Pushing

/-! `algo_general` tells both connections of a new segment: pipelined requests, and a new start for a
connection that had no work or was robbed. -/

namespace GreenBag

open Programs Ranges Schedules Function

@[simp] lemma wp_gbReceiveHttpHeaderResponse {s : Session} {crash : Fault → Session → Prop}
    {post : Bool → Session → Prop} (site : Site) (i : Link) (reply : List UInt8) :
    wp (gbReceiveHttpHeaderResponse site i reply) post crash s ↔
      (readHeaderBlock 0 [] reply = none →
        post false { s with trace := .header s.toGb site i reply :: s.trace }) ∧
      ∀ headers, readHeaderBlock 0 [] reply = some headers → post true { s with
        trace := .header s.toGb site i reply :: s.trace
        conn := update s.conn i
          { s.conn i with response := some ⟨(s.conn i).status, headers⟩ } } := by
  simp only [gbReceiveHttpHeaderResponse, wp_bind, wp_logEvent]
  cases readHeaderBlock 0 [] reply <;> simp

lemma wp_checkingLastSubseg {s : Session} {i : Link} {post : Unit → Session → Prop}
    (hs : Sincere s.trace) (hp : ∀ flag, post () { s with
      conn := update s.conn i { s.conn i with lastSegmentFlag := flag } }) :
    wp (checkingLastSubseg i) post Sane s := by
  simp only [checkingLastSubseg, wp_bind, wp_get, wp_follow, wp_demand, sane_danglingPointer,
    sane_nullPointer, hs, implies_true, and_true, wp_whenever, wp_modifyConn]
  refine fun _ _ _ _ _ _ _ _ => ⟨fun _ => hp true, fun _ => ?_⟩
  have hsame := hp (s.conn i).lastSegmentFlag
  simpa using hsame

/-- A connection at the start of a chunk. -/
def Conn.pointedTo (c : Conn) (d : Chunk) (flag : Bool) : Conn :=
  { c with currentbyte := d.startByte, lastbyte := d.lastByte, lastSegmentFlag := flag }

/-- The session once a connection was pointed to the first chunk of a segment. -/
def Session.movedTo (s : Session) (i : Link) (id : ℕ) (d : Chunk) (flag : Bool) : Session := { s with
  conn := update s.conn i ((s.conn i).pointedTo d flag)
  offsetInfo := { s.offsetInfo with connection := update s.offsetInfo.connection i (some id) } }

lemma wp_moveTo {s : Session} {i : Link} {post : Unit → Session → Prop} {id : ℕ} {g : Segment}
    {p : Subsegment} {d : Chunk} {ds : List Chunk} (hs : Sincere s.trace)
    (hd : s.offsetInfo.deref id = some g) (hg : g.subsegment i = some p) (hds : p.chunkList = d :: ds)
    (hp : ∀ flag, post () (s.movedTo i id d flag)) : wp (moveTo i id) post Sane s := by
  simp only [moveTo, wp_bind, wp_follow, wp_demand, Option.some.injEq, forall_eq', hd, hg, hds,
    reduceCtorEq, false_implies, and_true, wp_modifyOffsetInfo, List.head?_cons, wp_modifyConn]
  refine wp_checkingLastSubseg hs fun flag => ?_
  simpa [Session.movedTo, Conn.pointedTo] using hp flag

/-- A connection once a header was awaited for it: with the header it goes on. -/
def Conn.awaited (c : Conn) (reply : List UInt8) : Conn :=
  match readHeaderBlock 0 [] reply with
  | none => c
  | some headers => { c with
      response := some ⟨c.status, headers⟩, enabled := true, state := false,
      pipelineRequestsSent := false }

section

variable {i j : Link} {front : List Segment} {g : Segment} {told : Link → Bool} {s u : Session}
  {es : List Event} {p : Subsegment} {c : Conn} {w : Gb} {site : Site} {reply : List UInt8}
  {idle : Link → Bool}

/-- A connection that was asked for its part of the segment comes back once its header was
awaited. -/
lemma Staged.await (h : Staged i front g told s) (hj : told i.other = false)
    (hnil : parts i.other front = []) (hp : g.subsegment i.other = some p)
    (hsite : site = .idleConn ∨ site = .recoveredConn) (hw : w.conn i.other = c)
    (hu : u = { s with
      trace := .header w site i.other reply :: es ++ s.trace
      conn := update s.conn i.other (c.awaited reply)
      offsetInfo := { s.offsetInfo with
        connection := update s.offsetInfo.connection i.other (some g.id), connIdle := idle } })
    (hloud : ∀ e ∈ es, ¬ e.Quiet ∧ e.WritesAll)
    (htold : Told { s with trace := es ++ s.trace })
    (hcur : ∃ d ds, p.chunkList = d :: ds ∧ c.currentbyte = d.startByte ∧ c.lastbyte = d.lastByte)
    (hfd : c.fd ≠ .closed)
    (hout : ({ s with trace := es ++ s.trace } : Session).All Event.InOrder →
      c.outstanding = p.chunkList.map Chunk.range)
    (hreads : ({ s with trace := es ++ s.trace } : Session).All (fun e => e.Alone ∧ e.Accepted) →
      c.setupThread = .none → c.enabled → ∃ r, c.response = some r ∧ Accepts r.status r.block)
    (hgood : c.bytesPerSecond = (s.conn i.other).bytesPerSecond ∧
      c.bytesDone = (s.conn i.other).bytesDone) :
    Staged i front g (update told i.other true) u := by
  have htrace : u.trace = [.header w site i.other reply] ++ (es ++ s.trace) := hu ▸ rfl
  have hev : ∀ {P : Event → Prop}, u.All P →
      P (.header w site i.other reply) ∧ ({ s with trace := es ++ s.trace } : Session).All P := by
    intro P ha
    obtain ⟨h₁, h₂⟩ := (all_append_iff (s := { s with trace := es ++ s.trace }) htrace).mp ha
    exact ⟨h₁ _ List.mem_cons_self, h₂⟩
  obtain ⟨d, ds, hds, hstart, hlast⟩ := hcur
  have hkeep : (c.awaited reply).currentbyte = c.currentbyte ∧
      (c.awaited reply).lastbyte = c.lastbyte ∧ (c.awaited reply).setupThread = c.setupThread ∧
      (c.awaited reply).fd = c.fd ∧ (c.awaited reply).outstanding = c.outstanding ∧
      (c.awaited reply).bytesPerSecond = c.bytesPerSecond ∧
      (c.awaited reply).bytesDone = c.bytesDone := by
    unfold Conn.awaited
    split <;> exact ⟨rfl, rfl, rfl, rfl, rfl, rfl, rfl⟩
  obtain ⟨k₁, k₂, k₃, k₄, k₅, k₆, k₇⟩ := hkeep
  have hthread : u.All Event.Alone → c.setupThread = .none := by
    intro ha
    have he := (hev ha).1
    rw [← hw]
    rcases hsite with rfl | rfl <;> exact he
  refine h.adopt (c := c.awaited reply) hj hnil hp hu (fun e he => ?_) ?_ ⟨?_, fun ha => ?_, ?_, ?_,
    ?_, fun ha hen => ?_⟩ ?_
  · rcases List.mem_cons.mp he with rfl | he
    · exact ⟨id, trivial⟩
    · exact hloud e he
  · refine htold.extend htrace (by simp) (fun ha s' site' j' r hm => ?_) (by simp)
      (by simp [Event.Sound])
    obtain ⟨rfl, rfl, rfl, rfl⟩ := Event.header.inj (List.mem_singleton.mp hm)
    rw [hw, hout (hev ha).2, hds]
    simp
  · exact ⟨d, ds, hds, k₁.trans hstart, k₂.trans hlast⟩
  · have he := (hev ha).1
    have hsome : (readHeaderBlock 0 [] reply).isSome := by
      rcases hsite with rfl | rfl <;> exact he
    obtain ⟨headers, hh⟩ := Option.isSome_iff_exists.mp hsome
    simp only [Conn.awaited, hh]
  · rw [k₃]
    exact hthread
  · rw [k₄]
    exact hfd
  · rw [k₅]
    exact fun ha => hout (hev ha).2
  · obtain ⟨he, hs⟩ := hev ha
    cases hh : readHeaderBlock 0 [] reply with
    | none =>
      simp only [Conn.awaited, hh] at hen ⊢
      exact hreads hs (hthread fun e hm => (ha e hm).1) hen
    | some headers =>
      simp only [Conn.awaited, hh]
      refine ⟨_, rfl, ?_⟩
      have hacc := he.2
      rcases hsite with rfl | rfl <;> exact hw ▸ hacc headers hh
  · exact ⟨k₆.trans hgood.1, k₇.trans hgood.2⟩

lemma Staged.mem_links (h : Staged i front g told s) (j : Link) : j ∈ s.links :=
  h.handing.rep.mem_links j

lemma Staged.sincere (h : Staged i front g told s) : Sincere s.trace :=
  ⟨h.handing.told.sound, h.handing.log.guess⟩

lemma Staged.tail_eq (h : Staged i front g told s) : s.offsetInfo.tail = some g.id := by
  rw [h.linked.tail_eq, h.segments]
  simp

lemma Staged.deref_eq (h : Staged i front g told s) : s.offsetInfo.deref g.id = some g :=
  h.linked.deref_eq h.segments

lemma wp_tell (h : Staged i front g told s) (hj : told j = false) (hne : parts j front ≠ [])
    (hrec : g.recoverySegment → j = i) (connects : Bool) :
    wp (sendHttpRequestForSubsegment j (g.subsegment j) connects) (fun _ t =>
      (∀ k, SameCursor k s t) ∧ t.offsetInfo = s.offsetInfo ∧
        Staged i front g (update told j true) t) Sane s := by
  cases hp : g.subsegment j with
  | none => exact ⟨fun _ => .of_conn rfl rfl (List.suffix_refl _), rfl, h.skip hj hp hrec⟩
  | some p =>
    refine wp_mono (wp_sendHttpRequestForSubsegment p connects (h.mem_links j) h.sincere) ?_
      (fun _ _ h => h)
    rintro sent t ⟨-, es, hes, rfl⟩
    refine ⟨fun k => ?_, rfl, h.extend hj hne hp hrec hes⟩
    by_cases hk : k = j
    · subst hk
      exact ⟨by simp [Conn.sent], by simp [Conn.sent], rfl, es, rfl⟩
    · exact .of_conn (update_of_ne hk ..) rfl ⟨es, rfl⟩

lemma wp_tellIdle (h : Staged i front g told s) (hj : told i.other = false)
    (hnil : parts i.other front = []) (hr : g.recoverySegment = false)
    (hp : g.subsegment i.other = some p) (connects : Bool) (reply : List UInt8) :
    wp (do
      let sent ← sendHttpRequestForSubsegment i.other (some p) connects
      whenever sent (returnDownloadingForIdleConn i.other reply)) (fun _ t =>
        SameCursor i s t ∧ Staged i front g (update told i.other true) t) Sane s := by
  have hpointer : s.offsetInfo.connection i.other = none := by
    rw [h.pointer i.other hj (by simp [hr]), firstWith_eq_none.mpr hnil]
  have hgood := h.good i.other p hp
  obtain ⟨d, ds, hds⟩ := List.exists_cons_of_ne_nil hgood.nonempty
  have hw := h.handing.wire i.other
  have hparts : (s.veiled front g told).parts i.other = [] := (parts_untold hj front).1.trans hnil
  rw [wp_bind]
  refine wp_mono (wp_sendHttpRequestForSubsegment p connects (h.mem_links i.other) h.sincere)
    ?_ (fun _ _ h => h)
  rintro sent t ⟨rfl, es, hes, rfl⟩
  have hsin := hes.sincere h.sincere
  simp only [wp_whenever, true_implies, not_true_eq_false, false_implies, and_true,
    returnDownloadingForIdleConn, wp_bind, wp_get, hpointer, wp_follow, h.tail_eq,
    Option.some.injEq, forall_eq', h.deref_eq, reduceCtorEq]
  refine wp_moveTo hsin h.deref_eq hp hds fun flag => ?_
  generalize hc : ((s.conn i.other).sent s.size p.chunkList).pointedTo d flag = c
  have hout : ∀ {t : Session}, t.trace = es ++ s.trace → t.All Event.InOrder →
      c.outstanding = p.chunkList.map Chunk.range := by
    intro t ht ha
    obtain ⟨hes', hs⟩ := (all_append_iff (s := s) ht).mp ha
    obtain ⟨hfd, hb⟩ := hes.ordered hes' hgood.nonempty
    have hidle : (s.conn i.other).outstanding = [] := hw.idle hs hparts
    simp only [update_self] at hfd
    have hopen : (s.conn i.other).reopened.outstanding = [] := by
      rw [Conn.reopened]
      split_ifs
      · rfl
      · exact hidle
    rw [← hc]
    simp only [Conn.pointedTo, Conn.sent, Conn.asked_eq hfd hb, hopen, List.nil_append]
  have hreads : ∀ {t : Session}, t.trace = es ++ s.trace →
      t.All (fun e => e.Alone ∧ e.Accepted) → c.enabled →
        ∃ r, c.response = some r ∧ Accepts r.status r.block := by
    intro t ht ha hen
    have hs := ((all_append_iff (s := s) ht).mp ha).2
    have hen' : (s.conn i.other).enabled := by
      rw [← hc] at hen
      simpa only [Conn.pointedTo, Conn.sent, Conn.reopened_enabled] using hen
    have hfd : (s.conn i.other).fd ≠ .closed := (hw.calm (hs.imp fun _ he => he.1) (.inl hen')).2
    rw [← hc]
    simp only [Conn.pointedTo, Conn.sent, Conn.reopened_eq hfd]
    exact hw.reads hs (.inl hen')
  have key : ∀ (idle : Link → Bool) (c' : Conn), c' = c.awaited reply →
      let w : Gb := { s.toGb with
        conn := update s.conn i.other c
        offsetInfo := { s.offsetInfo with
          connection := update s.offsetInfo.connection i.other (some g.id) } }
      let u : Session := { s with
        trace := .header w .idleConn i.other reply :: es ++ s.trace
        conn := update s.conn i.other c'
        offsetInfo := { s.offsetInfo with
          connection := update s.offsetInfo.connection i.other (some g.id), connIdle := idle } }
      SameCursor i s u ∧ Staged i front g (update told i.other true) u := by
    rintro idle _ rfl w u
    refine ⟨.of_conn (update_of_ne (Link.other_ne i).symm ..) rfl ⟨_ :: es, rfl⟩,
      h.await hj hnil hp (.inl rfl) (update_self ..) rfl hes.loud ?_
        ⟨d, ds, hds, hc ▸ rfl, hc ▸ rfl⟩ ?_ (hout rfl) (fun ha _ => hreads rfl ha) ?_⟩
    · exact hes.told (u := s) ⟨h.handing.told.1, h.handing.told.2, h.handing.told.3,
        h.handing.told.4⟩ rfl (h.owes hj hp rfl rfl rfl)
    · rw [← hc]
      exact (s.conn i.other).reopened_fd
    · rw [← hc]
      simp [Conn.pointedTo, Conn.sent]
  simp only [Session.movedTo, update_self, update_idem, hc, wp_gbReceiveHttpHeaderResponse,
    wp_modifyConn, wp_modifyOffsetInfo, Bool.false_eq_true, false_implies,
    not_false_eq_true, true_implies, true_and, not_true_eq_false, and_true]
  exact ⟨fun hh => key s.offsetInfo.connIdle c (by rw [Conn.awaited, hh]),
    fun headers hh => key _ _ (by rw [Conn.awaited, hh])⟩

/-- The other connection was robbed: it starts anew with its part, or rests. -/
lemma wp_tellRecovered (h : Staged i front g told s) (hj : told i.other = false)
    (hr : g.recoverySegment = true) (connects : Bool) (reply : List UInt8) :
    wp (returnDownloadingForRecoveredConn i.other connects reply) (fun _ t =>
      SameCursor i s t ∧ Staged i front g (update told i.other true) t) Sane s := by
  obtain ⟨hen, hparts⟩ := h.handing.halted (by rw [hr, hj]; rfl)
  have hnil : parts i.other front = [] := (parts_untold hj front).1.symm.trans hparts
  simp only [returnDownloadingForRecoveredConn, wp_bind, wp_get, h.tail_eq, wp_follow,
    Option.some.injEq, forall_eq', h.deref_eq, reduceCtorEq, false_implies, and_true]
  cases hp : g.subsegment i.other with
  | none =>
    simp only [wp_bind, wp_modifyOffsetInfo, wp_modifyConn]
    exact ⟨.of_conn (update_of_ne (Link.other_ne i).symm ..) rfl (List.suffix_refl _),
      h.release hj hnil hp⟩
  | some p =>
    have hgood := h.good i.other p hp
    obtain ⟨d, ds, hds⟩ := List.exists_cons_of_ne_nil hgood.nonempty
    simp only [wp_bind, connInit, connDisconnect, wp_ite, wp_modifyConn, wp_pure, wp_ensure,
      sane_exit, h.sincere, implies_true, and_true, true_implies, Bool.false_eq_true, false_implies]
    intro _
    refine wp_moveTo h.sincere h.deref_eq hp hds fun flag => ?_
    refine wp_mono (wp_sendHttpRequestForSubsegment p connects (h.mem_links i.other) h.sincere)
      ?_ (fun _ _ h => h)
    rintro sent t ⟨-, es, hes, rfl⟩
    simp only [Session.movedTo, update_self, update_idem] at hes ⊢
    generalize hc₀ : Conn.pointedTo _ d flag = c₀ at hes ⊢
    have hfd : c₀.fd = .socket := hc₀ ▸ rfl
    rw [Conn.reopened_eq (by rw [hfd]; exact Fd.noConfusion)] at hes
    generalize hc : c₀.sent s.size p.chunkList = c
    have hc' : c = { c₀ with
        outstanding := c₀.asked s.size p.chunkList, pipelineRequestsSent := true, state := true } := by
      rw [← hc, Conn.sent, Conn.reopened_eq (by rw [hfd]; exact Fd.noConfusion)]
    have key : ∀ (idle : Link → Bool) (c' : Conn), c' = c.awaited reply →
        let w : Gb := { s.toGb with
          conn := update s.conn i.other c
          offsetInfo := { s.offsetInfo with
            connection := update s.offsetInfo.connection i.other (some g.id) } }
        let u : Session := { s with
          trace := .header w .recoveredConn i.other reply :: es ++ s.trace
          conn := update s.conn i.other c'
          offsetInfo := { s.offsetInfo with
            connection := update s.offsetInfo.connection i.other (some g.id), connIdle := idle } }
        SameCursor i s u ∧ Staged i front g (update told i.other true) u := by
      rintro idle _ rfl w u
      refine ⟨.of_conn (update_of_ne (Link.other_ne i).symm ..) rfl ⟨_ :: es, rfl⟩,
        h.await hj hnil hp (.inr rfl) (update_self ..) rfl hes.loud ?_ ?_ ?_ (fun ha => ?_)
          (fun _ _ he => ?_) ?_⟩
      · exact hes.told (u := s) ⟨h.handing.told.1, h.handing.told.2, h.handing.told.3,
          h.handing.told.4⟩ rfl (h.owes hj hp rfl rfl rfl)
      · exact ⟨d, ds, hds, by rw [hc', ← hc₀]; rfl, by rw [hc', ← hc₀]; rfl⟩
      · rw [hc', ← hc₀]
        exact Fd.noConfusion
      · obtain ⟨-, hb⟩ := hes.ordered ((all_append_iff (s := s) rfl).mp ha).1 hgood.nonempty
        rw [hc']
        simp only [Conn.asked_eq hfd hb]
        rw [← hc₀]
        exact List.nil_append _
      · have hen' : (s.conn i.other).enabled = false := hen
        rw [hc', ← hc₀] at he
        exact absurd (hen'.symm.trans he) Bool.false_ne_true
      · rw [hc', ← hc₀]
        exact ⟨rfl, rfl⟩
    simp only [update_self, update_idem, wp_gbReceiveHttpHeaderResponse, wp_whenever, wp_modifyConn,
      Bool.false_eq_true, false_implies, not_false_eq_true, true_implies, true_and, not_true_eq_false,
      and_true]
    exact ⟨fun hh => key s.offsetInfo.connIdle c (by rw [Conn.awaited, hh]),
      fun headers hh => key _ _ (by rw [Conn.awaited, hh])⟩

/-- The connection that is read was told of its part; now the other one is. -/
lemma wp_tellOther (h : Staged i front g told s) (hj : told i.other = false) (x : Inputs) :
    wp (if g.recoverySegment then
        returnDownloadingForRecoveredConn i.other (x.connects i.other) (x.reply .recoveredConn)
      else do
        let sent ← sendHttpRequestForSubsegment i.other (g.subsegment i.other) (x.connects i.other)
        whenever sent (returnDownloadingForIdleConn i.other (x.reply .idleConn))) (fun _ t =>
      SameCursor i s t ∧ Staged i front g (update told i.other true) t) Sane s := by
  rw [wp_ite]
  refine ⟨fun hr => wp_tellRecovered h hj hr _ _, fun hr => ?_⟩
  have hr' : g.recoverySegment = false := by simpa using hr
  cases hp : g.subsegment i.other with
  | none => exact ⟨.of_conn rfl rfl (List.suffix_refl _), h.skip hj hp fun hrec => absurd hrec hr⟩
  | some p =>
    by_cases hnil : parts i.other front = []
    · exact wp_tellIdle h hj hnil hr' hp _ _
    · have htell := wp_tell h hj hnil (fun hrec => absurd hrec hr) (x.connects i.other)
      rw [hp] at htell
      rw [wp_bind]
      refine wp_mono htell ?_ (fun _ _ h => h)
      rintro sent t ⟨hcur, ho, ht⟩
      have hbusy : t.offsetInfo.connection i.other ≠ none := by
        rw [ho, h.pointer i.other hj fun hrec => absurd hrec hr]
        exact fun hn => hnil (firstWith_eq_none.mp hn)
      simp only [returnDownloadingForIdleConn, wp_whenever, wp_bind, wp_get, hbusy, false_implies,
        not_false_eq_true, true_implies, true_and]
      exact ⟨fun _ => ⟨hcur i, ht⟩, fun _ => ⟨hcur i, ht⟩⟩

end

lemma Inv.flagged {φ : Phase} {s : Session} (h : Inv φ s) (i : Link) (flag : Bool) :
    Inv φ { s with conn := update s.conn i { s.conn i with lastSegmentFlag := flag } } ∧
      Murmur s { s with conn := update s.conn i { s.conn i with lastSegmentFlag := flag } } := by
  refine h.silent ?_ rfl rfl rfl rfl fun j => ?_
  · simp only [Gb.core, Gb.mk.injEq, true_and, and_true]
    funext j
    by_cases hj : j = i
    · rw [hj, update_self]
    · rw [update_of_ne hj]
  · by_cases hj : j = i
    · subst hj
      simpa using h.goodput j
    · simpa [update_of_ne hj] using h.goodput j

lemma wp_checkingLastSegment {φ : Phase} {s : Session} (h : Inv φ s) :
    wp checkingLastSegment (fun _ t => Inv φ t ∧ Murmur s t) Sane s := by
  simp only [checkingLastSegment, wp_bind, wp_get]
  refine wp_each ⟨h, .refl s⟩ ?_
  rintro i - t ⟨ht, hm⟩
  rw [wp_bind, wp_get]
  cases (t.offsetInfo.connection i).bind (t.offsetInfo.getFirstNextSegmentAssignedToConn · i) with
  | none => exact ⟨ht, hm⟩
  | some id =>
    simp only [wp_bind, wp_follow, wp_demand, sane_danglingPointer, sane_nullPointer, ht.sincere,
      implies_true, and_true, wp_whenever, wp_modifyConn]
    intro _ _ _ _ _ _
    exact ⟨fun _ => ⟨(ht.flagged i true).1, hm.trans (ht.flagged i true).2⟩, fun _ => ⟨ht, hm⟩⟩

lemma wp_planAhead {s : Session} {i : Link} {x : Inputs} (h : Inv (.reading i) s) (hex : s.exact)
    (hun : (s.conn i).pipelineRequestsSent = false) (he : ∀ j, 0 < x.elapsed j) :
    wp (planAhead i x) (fun _ t => Inv (.reading i) t ∧ SameCursor i s t) Sane s := by
  simp only [planAhead, wp_bind]
  refine wp_mono (wp_gbSetupNextSegment h hex hun he) ?_ (fun _ _ h => h)
  rintro planned t ⟨hcur, ht⟩
  rw [wp_whenever]
  refine ⟨?_, fun hn => ?_⟩
  · rintro rfl
    obtain ⟨front, g, hg⟩ := ht
    have hbusy : parts i (front ++ [g.only fun _ => false]) ≠ [] := hg.handing.rep.fits
    have hne : parts i front ≠ [] := by
      rwa [(parts_untold rfl front).1] at hbusy
    simp only [wp_bind, wp_get, wp_follow, hg.tail_eq, Option.some.injEq, forall_eq', hg.deref_eq,
      reduceCtorEq, false_implies, and_true]
    refine wp_mono (wp_tell hg rfl hne (fun _ => rfl) _) ?_ (fun _ _ h => h)
    rintro - u ⟨hcu, -, hu⟩
    have hfinish : ∀ (_ : Unit) v, SameCursor i u v ∧
        Staged i front g (update (update (fun _ => false) i true) i.other true) v →
        wp checkingLastSegment (fun _ w => Inv (.reading i) w ∧ SameCursor i s w) Sane v := by
      rintro - v ⟨hcv, hv⟩
      have hdone := hv.done fun j => by
        obtain rfl | rfl := i.eq_or_other j <;> simp [update_apply]
      refine wp_mono (wp_checkingLastSegment hdone) ?_ (fun _ _ h => h)
      rintro - w ⟨hw, hm⟩
      exact ⟨hw, ((hcur.cursor.trans (hcu i)).trans hcv).trans (hm.unmoved i).cursor⟩
    have hother := wp_tellOther hu (update_of_ne (Link.other_ne i) ..) x
    rw [wp_ite] at hother ⊢
    refine ⟨fun hr => ?_, fun hr => ?_⟩
    · rw [wp_bind]
      exact wp_mono (hother.1 hr) hfinish (fun _ _ h => h)
    · have hsent := hother.2 hr
      simp only [wp_bind] at hsent ⊢
      exact wp_mono hsent (fun _ _ hv => wp_mono hv hfinish fun _ _ h => h) (fun _ _ h => h)
  · have hn' : planned = false := by simpa using hn
    rw [hn'] at ht
    exact ⟨ht, hcur.cursor⟩

end GreenBag
