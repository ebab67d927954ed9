import GreenBag.Starting

/-! What the connections have asked for and what they get. -/

namespace GreenBag

open Programs Ranges Schedules

section

variable {s : Session} {i : Link}

lemma Rep.wanted_eq {s : Gb} (h : Rep .rest s) (i : Link) : s.wanted i = s.plan i := by
  rw [h.plan_eq]
  by_cases hp : s.parts i = []
  · simp [Gb.wanted, Gb.queue, hp, queueOf]
  · obtain ⟨d, ds, ps, hc⟩ := h.cursor hp
    have hle := hc.slack
    simp only [Phase.slack, add_zero] at hle
    rw [hc.wanted, if_pos hle]

/-- As long as no share overflows and requests and responses do not cross, a connection that can be read
has asked for its plan, and no header is awaited where nothing was asked for. -/
theorem outstanding_eq_plan (h : s.Reached) (hf : s.Fits) (ha : s.All Event.InOrder) :
    (∀ i, (s.conn i).enabled → (s.conn i).outstanding = s.plan i) ∧
      ∀ s' site i reply, .header s' site i reply ∈ s.trace → (s'.conn i).outstanding ≠ [] := by
  refine ⟨fun i hi => ?_, (h.inv hf).told.awaited ha⟩
  rw [← (h.inv hf).rep.wanted_eq i]
  exact ((h.inv hf).wire i).aligned ha (.inl (.inl hi))

/-- Two connections that are set up before anything is planned. -/
theorem outstanding_eq_plan_of_two : ∃ s : Session, (s.conn .lte).pipelineRequestsSent = false ∧
    (∀ i, (s.conn i).enabled → (s.conn i).outstanding = s.plan i) ∧
      ∀ s' site i reply, .header s' site i reply ∈ s.trace → (s'.conn i).outstanding ≠ [] := by
  obtain ⟨s, hs, hf, ha, hsent⟩ := exists_of_reaches plainConf 16
    (upSteps .lte ++ upSteps .wifi ++ [readStep .wifi 4, readStep .lte 4])
    (P := fun s => s.Fits ∧ s.All Event.InOrder ∧ (s.conn .lte).pipelineRequestsSent = false)
    (by decide +kernel) (by decide) (by decide +kernel)
  exact ⟨s, hsent, outstanding_eq_plan hs hf ha⟩

/-- A connection set up after the other one planned ahead asks for its first chunk only. -/
theorem outstanding_short_of_plan : ∃ s : Session, s.Reached ∧ s.Fits ∧ (s.conn .wifi).enabled ∧
    (s.conn .wifi).outstanding = [⟨2, 3⟩] ∧ s.plan .wifi = [⟨2, 3⟩, ⟨6, 7⟩] :=
  exists_of_reaches plainConf 8 (upSteps .lte ++ [readStep .lte 2] ++ upSteps .wifi)
    (by decide +kernel) (by decide) (by decide +kernel)

example : Reaches (fun s => s.All Event.InOrder) (run plainConf 16 (upSteps .lte ++ upSteps .wifi)) := by
  decide +kernel

/-- The pointer, the cursors and the flag of a connection agree with the list: either there is nothing
for it, or its segment is the first with a part for it and its cursor lies in the first chunk there. -/
def Gb.Kept (s : Gb) (i : Link) : Prop :=
  (s.offsetInfo.connection i = none ∧ ∀ g ∈ s.offsetInfo.segments, g.subsegment i = none) ∨
    ∃ pre g post p c cs, s.offsetInfo.segments = pre ++ g :: post ∧
      (∀ k ∈ pre, k.subsegment i = none) ∧ g.subsegment i = some p ∧ p.chunkList = c :: cs ∧
      s.offsetInfo.connection i = some g.id ∧ (s.conn i).lastbyte = c.lastByte ∧
      c.startByte ≤ (s.conn i).currentbyte ∧ (s.conn i).currentbyte ≤ (s.conn i).lastbyte ∧
      ((s.conn i).pipelineRequestsSent ↔ ∃ k ∈ post, k.subsegment i ≠ none)

lemma Inv.kept (h : Inv .rest s) (ha : s.All Event.Served) (i : Link) : s.Kept i := by
  have hpointer := h.rep.pointer i rfl
  by_cases hp : s.parts i = []
  · exact .inl ⟨hpointer.trans (firstWith_eq_none.mpr hp), parts_eq_nil.mp hp⟩
  · obtain ⟨d, ds, ps, hc⟩ := h.rep.cursor hp
    obtain ⟨p, hparts, hds⟩ := hc.parts
    obtain ⟨pre, g, post, hs, hpre, hg, hpost⟩ := exists_split hparts
    have hslack := hc.slack
    simp only [Phase.slack, add_zero] at hslack
    rw [hs, firstWith_split hpre hg] at hpointer
    have hlater : (∃ k ∈ post, k.subsegment i ≠ none) ↔ 2 ≤ (s.parts i).length := by
      have hne : (∃ k ∈ post, k.subsegment i ≠ none) ↔ parts i post ≠ [] := by
        simp [parts_eq_nil]
      rw [hne, hpost, hparts]
      cases ps <;> simp
    refine .inr ⟨pre, g, post, p, d, ds, hs, parts_eq_nil.mp hpre, hg, hds, hpointer, hc.last,
      hc.start, hslack, ?_⟩
    rw [hlater]
    exact ⟨(h.wire i).flag ha hp, (h.rep.lane i).flag⟩

/-- As long as no share overflows and a connection that comes back gets its header, the bookkeeping is
right, and no next segment is missing. -/
theorem bookkeeping_kept (hf : s.Fits) (ha : s.All Event.Served) :
    (s.Reached → ∀ i, s.Kept i) ∧ ¬ s.Crashed .nullNextSegment :=
  ⟨fun h => (h.inv hf).kept ha, fun h => (h.sane hf).2 ha⟩

/-- Like `lateInputs`, but a connection that was recovered gets no header. -/
def deafInputs : Inputs := { lateInputs with
  reply := fun site => if site = .recoveredConn then [] else okReply }

/-- The second connection is recovered but gets no header; it is set up anew and read to the end of
its only part, with the flag still set. -/
def deafSteps : List Label :=
  upSteps .lte ++ upSteps .wifi ++ [readStep .wifi 1, .read .lte (.bytes 600 true) deafInputs,
    .check againInputs, .check againInputs] ++ upSteps .wifi ++ [readStep .wifi 900]

/-- A recovery that finds the server listening. -/
theorem bookkeeping_kept_of_recovery : ∃ s : Session, s.numRecoveries = 1 ∧ s.Reached ∧
    ((s.Reached → ∀ i, s.Kept i) ∧ ¬ s.Crashed .nullNextSegment) := by
  obtain ⟨s, hs, hf, ha, hn⟩ := exists_of_reaches { plainConf with recoveryMode := true } 2400
    (upSteps .lte ++ upSteps .wifi ++ [readStep .wifi 1, .read .lte (.bytes 600 true) lateInputs])
    (P := fun s => s.Fits ∧ s.All Event.Served ∧ s.numRecoveries = 1) (by decide +kernel) (by decide)
    (by decide +kernel)
  exact ⟨s, hn, hs, bookkeeping_kept hf ha⟩

theorem next_segment_missing : ∃ s : Session, s.Crashed .nullNextSegment ∧ s.Fits ∧
    s.All Event.WritesAll ∧ (s.conn .wifi).pipelineRequestsSent ∧ s.outfile.length = 3 :=
  exists_of_failsWith { plainConf with recoveryMode := true } 2400 deafSteps (by decide +kernel)
    (by decide) (by decide +kernel) (by decide +kernel)

lemma exists_ok_gbReceive (site : Site) (reply : List UInt8) :
    (∃ t, gbReceiveHttpHeaderResponse site i reply s = .ok true t) ↔
      ∃ headers, readHeaderBlock 0 [] reply = some headers := by
  have hw : wp (gbReceiveHttpHeaderResponse site i reply)
      (fun b _ => b = true ↔ ∃ headers, readHeaderBlock 0 [] reply = some headers)
      (fun _ _ => False) s := by
    simp only [gbReceiveHttpHeaderResponse, wp_bind, wp_logEvent]
    cases readHeaderBlock 0 [] reply <;> simp
  obtain ⟨b, t, ht, hb⟩ := exists_of_wp hw
  rw [ht, ← hb]
  constructor
  · rintro ⟨u, hu⟩
    cases hu
    rfl
  · rintro rfl
    exact ⟨t, rfl⟩

lemma exists_ok_connExec (hfd : (s.conn i).fd ≠ .closed) (reply : List UInt8) :
    (∃ t, connExec i reply s = .ok true t) ↔
      ∃ headers, readHeaderBlock 0 [] reply = some headers ∧ Accepts (s.conn i).status headers := by
  have hpost : ∀ P : Prop, (P ↔ ∃ headers, readHeaderBlock 0 [] reply = some headers ∧
        Accepts (s.conn i).status headers) →
      wp (connExec i reply) (fun b _ => b = true ↔ P) (fun _ _ => ¬ P) s := by
    intro P hP
    simp only [connExec, httpExec, wp_bind, wp_get, wp_logEvent, if_neg hfd]
    cases hb : readHeaderBlock 0 [] reply with
    | none => simp [hP, hb]
    | some headers =>
      simp only [wp_bind, wp_modifyConn, Function.update_self, wp_ensure, wp_pure,
        Bool.true_and, decide_eq_true_eq, hP, hb, Option.some.injEq, exists_eq_left', Accepts]
      tauto
  obtain ⟨hok, herr⟩ := (wp_iff _).mp (hpost _ Iff.rfl)
  refine ⟨fun hex => ?_, fun hh => ?_⟩
  · obtain ⟨t, ht⟩ := hex
    exact (hok true t ht).mp rfl
  cases hr : connExec i reply s with
  | ok b t => exact ⟨t, by rw [(hok b t hr).mpr hh]⟩
  | error e t => exact absurd hh (herr e t hr)

/-- The pipelined path decides like `conn_exec` exactly if the block does not end or is one that
`conn_exec` accepts; where this is so all along and no share overflows, only bodies of accepted responses
are written. -/
theorem pipelined_acceptance (h : s.Reached) (hf : s.Fits) (ha : s.All fun e => e.Alone ∧ e.Accepted) :
    (∀ s' i r, .wrote s' i r ∈ s.trace → s'.Reads i) ∧
    ∀ (s' : Session) i site reply, (s'.conn i).fd ≠ .closed →
      (((∃ t, gbReceiveHttpHeaderResponse site i reply s' = .ok true t) ↔
          ∃ t, connExec i reply s' = .ok true t) ↔
        ∀ headers, readHeaderBlock 0 [] reply = some headers →
          Accepts (s'.conn i).status headers) := by
  refine ⟨(h.inv hf).told.wrote ha, fun s' i site reply hfd => ?_⟩
  rw [exists_ok_gbReceive, exists_ok_connExec hfd]
  cases readHeaderBlock 0 [] reply <;> simp

instance (s : Gb) (i : Link) : Decidable (s.Reads i) :=
  decidable_of_iff (∃ r ∈ (s.conn i).response.toList, Accepts r.status r.block) (by simp [Gb.Reads])

instance : DecidablePred Event.Accepted
  | .header s site i reply => decidable_of_iff (site = .setupThread ∨
      ∀ headers ∈ (readHeaderBlock 0 [] reply).toList, Accepts (s.conn i).status headers)
      (by cases site <;> simp [Event.Accepted])
  | .wrote _ _ _ | .writeFailed _ _ | .inorder _ _ _ | .announced _ _ | .get _ _ _ _ _ | .stolen _ _
  | .called _ _ _ => .isTrue trivial

/-- A chunk is finished and the next one is read behind its header. -/
theorem pipelined_acceptance_of_next : ∃ s : Session, s.bytesDone = 5 ∧
    (∀ s' i r, .wrote s' i r ∈ s.trace → s'.Reads i) ∧
    ∀ (s' : Session) i site reply, (s'.conn i).fd ≠ .closed →
      (((∃ t, gbReceiveHttpHeaderResponse site i reply s' = .ok true t) ↔
          ∃ t, connExec i reply s' = .ok true t) ↔
        ∀ headers, readHeaderBlock 0 [] reply = some headers →
          Accepts (s'.conn i).status headers) := by
  obtain ⟨s, hs, hf, ha, hb⟩ := exists_of_reaches plainConf 16
    (upSteps .lte ++ upSteps .wifi ++ [readStep .lte 4, readStep .lte 1])
    (P := fun s => s.Fits ∧ s.All (fun e => e.Alone ∧ e.Accepted) ∧ s.bytesDone = 5) (by decide +kernel)
    (by decide) (by decide +kernel)
  exact ⟨s, hb, pipelined_acceptance hs hf ha⟩

example : Reaches (fun s => s.All Event.Alone)
    (run plainConf 16 (upSteps .lte ++ upSteps .wifi ++ [readStep .lte 4])) := by
  decide +kernel

/-- The header block `HTTP/1.1 404`. -/
def notFoundReply : List UInt8 := [72, 84, 84, 80, 47, 49, 46, 49, 32, 52, 48, 52, 10, 10]

/-- A body is written that belongs to no accepted response. -/
def Event.unread : Event → Bool
  | .wrote s' i _ => ¬ s'.Reads i
  | _ => false

/-- A byte of an error page is written. -/
theorem error_page_written : ∃ s : Session, s.Reached ∧ s.Fits ∧ ∃ s' i r,
    .wrote s' i r ∈ s.trace ∧ ¬ s'.Reads i := by
  obtain ⟨s, hs, hf, hw⟩ := exists_of_reaches plainConf 16
    (upSteps .lte ++ upSteps .wifi ++ [.read .lte (.bytes 4 true)
      { calmInputs with reply := fun _ => notFoundReply }, readStep .lte 1])
    (P := fun s => s.Fits ∧ s.trace.any Event.unread) (by decide +kernel) (by decide) (by decide +kernel)
  obtain ⟨e, he, hr⟩ := List.any_eq_true.mp hw
  unfold Event.unread at hr
  split at hr
  · rename_i s' i r
    exact ⟨s, hs, hf, s', i, r, he, by simpa using hr⟩
  · cases hr

/-- As long as no share overflows, a request is for the missing part of a chunk of its connection, and
says so, unless it is made for a connection without work or ends with byte 0 of a longer file. -/
theorem exactGet_iff_plain (h : s.Reached) (hf : s.Fits) :
    ∀ s' site i a b, .get s' site i a b ∈ s.trace → (ExactGet s' i a b ↔ PlainGet s' site i b) :=
  (h.inv hf).told.gets

theorem exactGet_iff_plain_of_two : ∃ s : Session, s.trace.length = 4 ∧
    ∀ s' site i a b, .get s' site i a b ∈ s.trace → (ExactGet s' i a b ↔ PlainGet s' site i b) := by
  obtain ⟨s, hs, hl⟩ := exists_of_reaches plainConf 16 (upSteps .lte ++ upSteps .wifi)
    (P := fun s => s.trace.length = 4 ∧ s.Fits) (by decide +kernel) (by decide) (by decide +kernel)
  exact ⟨s, hl.1, exactGet_iff_plain hs hl.2⟩

/-- A setup thread asks for bytes behind the end of the file. -/
def Event.outside : Event → Bool
  | .get s' .setupThread .wifi _ b => s'.size ≤ b
  | _ => false

/-- A connection without work asks for bytes behind the end of the file. -/
theorem get_outside_file : ∃ s : Session, s.Reached ∧ s.Fits ∧ ∃ s' a b,
    .get s' .setupThread .wifi a b ∈ s.trace ∧ ¬ ExactGet s' .wifi a b := by
  obtain ⟨s, hs, hf, hg⟩ := exists_of_reaches lteFirstConf 16 [.setupRequest .wifi true]
    (P := fun s => s.Fits ∧ s.trace.any Event.outside) (by decide +kernel) (by decide) (by decide +kernel)
  obtain ⟨e, he, hb⟩ := List.any_eq_true.mp hg
  unfold Event.outside at hb
  split at hb
  · rename_i s' a b
    have hle : s'.size ≤ b := by simpa using hb
    exact ⟨s, hs, hf, s', a, b, he, fun hx => by have := hx.inside; omega⟩
  · cases hb

end

end GreenBag
