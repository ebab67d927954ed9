import GreenBag.Zooming
import GreenBag.Completing

/-! The thread of `gb_process`: the loop around `algo_general`, in any order with the steps of the setup
threads and of the thread that serves the client. -/

namespace GreenBag

open Programs Machines Ranges

/-- Where the thread is: before an announcement and the test of the loop, before `select`, before the
connections that are still to be looked at, at `conn_check`, behind the loop, or at its end. -/
inductive Place
  | announce
  | select
  | visit (pending : List Link)
  | check
  | leave
  | done
  deriving DecidableEq, Repr

structure Process where
  session : Session
  place : Place

abbrev Processing := EStateM Fault Process

def sessionPart : Part Process Session where
  view := Process.session
  put p s := { p with session := s }
  view_put _ _ := rfl

def onSession {α : Type} (x : Program α) : Processing α := zoom sessionPart x

def goTo (place : Place) : Processing Unit := modify fun p => { p with place := place }

/-- The count that is passed to `read`. -/
def Gb.readSize (s : Gb) (i : Link) : ℤ :=
  let remaining := (s.conn i).lastbyte - (s.conn i).currentbyte + 1
  if remaining ≥ s.conf.bufferSize then s.conf.bufferSize else remaining

/-- `algo_general` up to `select`. Without a connected socket it waits for the setup threads. -/
def algoSelect (failed : Bool) : Processing Unit := do
  let p ← get
  if ∀ i ∈ p.session.links, (p.session.conn i).fd ≠ .socket then goTo .check
  else if failed then do
    onSession (modify fun s => { s with ready := .error })
    goTo .announce
  else goTo (.visit p.session.links)

/-- The body of the loop over the connections. -/
def algoVisit (i : Link) (rest : List Link) (isSet : Bool) (r : Received) (x : Inputs) :
    Processing Unit := do
  let p ← get
  whenever ((p.session.conn i).enabled ∧ (p.session.conn i).fd ≠ .closed ∧ isSet)
    (onSession (handle i x r))
  goTo (.visit rest)

/-- Behind the loop over the connections. -/
def algoLeave : Processing Unit := do
  let p ← get
  goTo (if p.session.ready = .no then .check else .announce)

def algoCheck (x : CheckInputs) : Processing Unit := do
  onSession (connCheck x)
  goTo .announce

/-- The announcement behind `algo_general` with the test of the loop, and the one behind the loop. -/
def gbProcessAnnounce : Processing Unit := do
  onSession updateLastDownloadedByte
  let p ← get
  goTo (if p.place = .leave then .done
    else if p.session.ready = .no ∧ p.session.run then .select else .leave)

inductive ProcessLabel
  /-- A step of another thread. -/
  | other (l : Label)
  | select (failed : Bool)
  | visit (isSet : Bool) (r : Received) (x : Inputs)
  | leave
  | check (x : CheckInputs)
  | announce

/-- The steps of the setup threads, and that the client was served. -/
def Label.Other : Label → Prop
  | .setupRequest _ _ => True
  | .setupResponse _ _ => True
  | .stop => True
  | _ => False

/-- `read` returns no more than it was asked for. -/
def ReadReturns (s : Gb) (i : Link) : Received → Prop
  | .bytes n _ => 1 ≤ n ∧ (0 ≤ s.readSize i → n ≤ s.readSize i)
  | _ => True

namespace ProcessLabel

/-- The connection that is looked at next. -/
def Visits (p : Process) (isSet : Bool) (r : Received) (x : Inputs) : Place → Prop
  | .visit (i :: _) => isSet → (∀ j, 0 < x.elapsed j) ∧ ReadReturns p.session.toGb i r
  | _ => False

def Enabled (p : Process) : ProcessLabel → Prop
  | .other l => l.Other ∧ l.Enabled p.session
  | .select _ => p.place = .select
  | .visit isSet r x => Visits p isSet r x p.place
  | .leave => p.place = .visit []
  | .check _ => p.place = .check
  | .announce => p.place = .announce ∨ p.place = .leave

def execVisit (isSet : Bool) (r : Received) (x : Inputs) : Place → Processing Unit
  | .visit (i :: rest) => algoVisit i rest isSet r x
  | _ => pure ()

def exec : ProcessLabel → Processing Unit
  | .other l => onSession l.exec
  | .select failed => algoSelect failed
  | .visit isSet r x => do
    let p ← get
    execVisit isSet r x p.place
  | .leave => algoLeave
  | .check x => algoCheck x
  | .announce => gbProcessAnnounce

end ProcessLabel

/-- The step that the session takes in a step of the threads, if it takes one. -/
def ProcessLabel.taken (p : Process) : ProcessLabel → Option Label
  | .other l => some l
  | .select failed =>
    if ∀ i ∈ p.session.links, (p.session.conn i).fd ≠ .socket then none
    else if failed then some .selectFailed else none
  | .visit isSet r x =>
    match p.place with
    | .visit (i :: _) =>
      if (p.session.conn i).enabled ∧ (p.session.conn i).fd ≠ .closed ∧ isSet then some (.read i r x) else none
    | _ => none
  | .leave => none
  | .check x => some (.check x)
  | .announce => some .announce

/-- The thread when `gb_start` returned, with a buffer that has a size. -/
def process : Machine Process Fault ProcessLabel where
  start p := session.start p.session ∧ p.place = .announce ∧ 0 ≤ p.session.conf.bufferSize
  enabled := ProcessLabel.Enabled
  exec := ProcessLabel.exec

def Process.Reached (p : Process) : Prop := Reachable process (fun _ => True) p

def Process.Crashed (p : Process) (e : Fault) : Prop := Crashes process (fun _ => True) e p

/-! ### Steps of the other threads -/

/-- What the other threads leave to the thread of the loop. -/
structure Governed (s t : Session) : Prop where
  ready : t.ready = s.ready
  run : t.run → s.run
  last : t.lastDownloadedByte = s.lastDownloadedByte

def governing : Frame Fault Session where
  rel := Governed
  fault _ _ := True
  refl _ := ⟨rfl, id, rfl⟩
  trans h h' := ⟨h'.ready.trans h.ready, fun hu => h.run (h'.run hu), h'.last.trans h.last⟩

section

variable {i : Link}

lemma governs_modifyConn (f : Conn → Conn) : Keeps governing (modifyConn i f) :=
  .modify fun _ => ⟨rfl, id, rfl⟩

lemma governs_logEvent (f : Gb → Event) : Keeps governing (logEvent f) := .modify fun _ => ⟨rfl, id, rfl⟩

lemma governs_connAt (i : Link) : Keeps governing (connAt i) :=
  .bind .get fun _ => .bind (.ensure fun _ => trivial) fun _ => .pure _

lemma governs_connInit (i : Link) (connects : Bool) : Keeps governing (connInit i connects) := by
  apply Keeps.ite
  · exact fun _ => .bind (governs_modifyConn _) fun _ => .pure _
  · exact fun _ => .bind (governs_modifyConn _) fun _ => .pure _

lemma governs_sendGet (site : Site) (i : Link) (first last : ℤ) : Keeps governing (sendGet site i first last) :=
  .bind (governs_logEvent _) fun _ => .bind .get fun _ => governs_modifyConn _

lemma governs_setupFailed (i : Link) : Keeps governing (setupFailed i) :=
  .bind (governs_modifyConn _) fun _ => governs_modifyConn _

lemma governs_setupRequest (i : Link) (connects : Bool) : Keeps governing (setupRequest i connects) := by
  apply Keeps.bind
  · apply Keeps.bind (governs_connAt _)
    intro c
    apply Keeps.bind (.ite (fun _ => .pure _) fun _ => governs_connInit _ _)
    exact fun _ => .bind (.whenever fun _ => governs_sendGet _ _ _ _) fun _ => .pure _
  · exact fun _ => .ite (fun _ => governs_modifyConn _) fun _ => governs_setupFailed i

lemma governs_httpExec (i : Link) (reply : List UInt8) : Keeps governing (httpExec i reply) := by
  apply Keeps.bind .get
  intro s
  apply Keeps.bind (governs_logEvent _)
  intro _
  generalize readHeaderBlock 0 [] _ = headers
  cases headers with
  | none => exact .pure _
  | some headers =>
    exact .bind (governs_modifyConn _) fun _ => .bind (.ensure fun _ => trivial) fun _ => .pure _

lemma governs_setupResponse (i : Link) (reply : List UInt8) : Keeps governing (setupResponse i reply) := by
  apply Keeps.bind
  · exact .bind (governs_httpExec _ _) fun _ => .bind .get fun _ => .pure _
  · exact fun _ => .ite (fun _ => governs_modifyConn _) fun _ => governs_setupFailed i

lemma governs_other {l : Label} (hl : l.Other) : Keeps governing l.exec := by
  cases l with
  | setupRequest i connects => exact governs_setupRequest i connects
  | setupResponse i reply => exact governs_setupResponse i reply
  | stop => exact .modify fun _ => ⟨rfl, nofun, rfl⟩
  | read => exact hl.elim
  | check => exact hl.elim
  | announce => exact hl.elim
  | selectFailed => exact hl.elim

end

/-! ### The events of the session -/

lemma goes_session (l : Label) : Keeps (going.on sessionPart) (onSession l.exec) := (follows_exec l).keeps.zoom

lemma goes_goTo (place : Place) : Keeps (going.on sessionPart) (goTo place) :=
  .modify fun p => going.refl p.session

lemma goes_execVisit (isSet : Bool) (r : Received) (x : Inputs) (place : Place) :
    Keeps (going.on sessionPart) (ProcessLabel.execVisit isSet r x place) := by
  cases place with
  | visit is =>
    cases is with
    | nil => exact .pure _
    | cons i rest =>
      refine .bind .get fun p => .bind (.whenever fun _ => ?_) fun _ => goes_goTo _
      exact goes_session (.read i r x)
  | _ => exact .pure _

/-- Each step of the threads adds to the events of the session. -/
lemma goes_exec (l : ProcessLabel) : Keeps (going.on sessionPart) l.exec := by
  cases l with
  | other l => exact goes_session l
  | select failed =>
    refine .bind .get fun p => .ite (fun _ => goes_goTo _) fun _ => .ite (fun _ => ?_) fun _ => goes_goTo _
    exact .bind (goes_session .selectFailed) fun _ => goes_goTo _
  | visit isSet r x => exact .bind .get fun p => goes_execVisit isSet r x p.place
  | leave => exact .bind .get fun p => goes_goTo _
  | check x => exact .bind (goes_session (.check x)) fun _ => goes_goTo _
  | announce => exact .bind (goes_session .announce) fun _ => .bind .get fun p => goes_goTo _

/-! ### Counts that are passed to `read` -/

section

variable {s t : Session} {l : Label} {j : Link}

/-- How much of its current chunk a connection has to fetch. -/
def Gb.remaining (s : Gb) (i : Link) : ℤ := (s.conn i).lastbyte - (s.conn i).currentbyte + 1

lemma Rep.remaining_nonneg {s : Gb} (h : Rep .rest s) (hp : s.parts j ≠ []) : 0 ≤ s.remaining j := by
  obtain ⟨d, ds, ps, hcur⟩ := h.cursor hp
  have hs := hcur.slack
  simp only [Phase.slack] at hs
  simp only [Gb.remaining]
  omega

lemma Session.Reached.remaining_nonneg (h : s.Reached) (hf : s.Fits) (hw : s.All Event.WritesAll) (j : Link) :
    0 ≤ s.remaining j := by
  by_cases hp : s.parts j = []
  · rcases ((h.inv hf).whole hw).idle j rfl hp with hi | hi
    · simp only [Conn.looksIdle, decide_eq_true_eq] at hi
      simp only [Gb.remaining]
      omega
    · obtain ⟨-, hc, hl⟩ := hi
      simp only [Gb.remaining]
      omega
  · exact (h.inv hf).rep.remaining_nonneg hp

/-- Whatever another connection or another thread does, a connection is not asked for less than nothing,
even when bytes were lost. -/
lemma Session.Reached.remaining_step (h : s.Reached) (hl : l.Enabled s) (ho : l.Spares (some j))
    (ht : session.exec l s = .ok () t) (hf : t.Fits) (hj : 0 ≤ s.remaining j) : 0 ≤ t.remaining j := by
  have hreached : t.Reached := .step l h hl trivial ht
  have hrep := (hreached.inv hf).rep
  have htally := ((wp_iff _).mp (wp_exec_tallied ho hl)).1 () t ht
  have hconn : (l.received s).conn j = s.conn j := by
    cases l with
    | read i r x =>
      cases r with
      | bytes n written =>
        have hji : j ≠ i := fun h => ho (congrArg some h)
        exact conn_received_ne hji
      | error => rfl
      | closed => rfl
    | check x => rfl
    | setupRequest i connects => rfl
    | setupResponse i reply => rfl
    | announce => rfl
    | selectFailed => rfl
    | stop => rfl
  rcases htally.steered j rfl with ⟨hc, -⟩ | hc | hp
  · simp only [Gb.cursor, hconn, Prod.mk.injEq] at hc
    simp only [Gb.remaining, hc.1, hc.2]
    exact hj
  · simp only [Gb.cursor, Prod.mk.injEq] at hc
    simp only [Gb.remaining]
    omega
  · apply hrep.remaining_nonneg
    intro hnil
    rw [hrep.pointer j rfl] at hp
    exact hp (firstWith_eq_none.mpr hnil)

lemma Session.buffer_step (hl : l.Enabled s) (ht : session.exec l s = .ok () t) :
    t.conf.bufferSize = s.conf.bufferSize := by
  have htally := ((wp_iff _).mp (wp_exec_tallied l.spares_none hl)).1 () t ht
  rw [htally.buffer]
  cases l with
  | read i r x =>
    cases r with
    | bytes n written => cases written <;> rfl
    | error => rfl
    | closed => rfl
  | _ => rfl

end

/-! ### The loop -/

/-- What holds of the thread in each of its places. -/
structure Processed (p : Process) : Prop where
  reached : p.session.Reached
  buffer : 0 ≤ p.session.conf.bufferSize
  ready : p.place = .select ∨ p.place = .check → p.session.ready = .no
  pending : ∀ is, p.place = .visit is → is.Nodup ∧ ∀ j ∈ is, 0 ≤ p.session.remaining j
  ended : p.place = .leave ∨ p.place = .done → ¬ (p.session.ready = .no ∧ p.session.run)
  last : p.place = .done → p.session.lastDownloadedByte = p.session.size

section

variable {p : Process}

/-- The session took the step, or none. -/
def Took (s : Session) : Option Label → Session → Prop
  | none, t => t = s
  | some l, t => l.Enabled s ∧ session.exec l s = .ok () t

/-- The session crashed in a step. -/
def Broke (s : Session) (e : Fault) (t : Session) : Prop :=
  ∃ l : Label, l.Enabled s ∧ session.exec l s = .error e t

lemma Broke.crashed {s t : Session} {e : Fault} (h : Broke s e t) (hs : s.Reached) : t.Crashed e := by
  obtain ⟨l, hl, ht⟩ := h
  exact ⟨s, l, hs, hl, trivial, ht⟩

lemma Processed.wp_session (h : Processed p) {l : Label} (hl : l.Enabled p.session) {place : Session → Place}
    (hp : ∀ t, t.Reached → session.exec l p.session = .ok () t → t.Fits → Processed ⟨t, place t⟩) :
    wp (session.exec l) (fun _ t => (t.Fits → Processed ⟨t, place t⟩) ∧ Took p.session (some l) t)
      (fun e t => Broke p.session e t) p.session := by
  apply wp_mono (wp_result (session.exec l) p.session)
  · exact fun _ t ht => ⟨hp t (.step l h.reached hl trivial ht) ht, hl, ht⟩
  · exact fun e t ht => ⟨l, hl, ht⟩

lemma Processed.other (h : Processed p) {l : Label} (ho : l.Other) (hl : l.Enabled p.session) :
    wp (onSession l.exec) (fun _ q => (q.session.Fits → Processed q) ∧ Took p.session (some l) q.session)
      (fun e q => Broke p.session e q.session) p := by
  rw [onSession, wp_zoom]
  refine h.wp_session hl fun t hr ht hf => ?_
  have hg : Governed p.session t := ((wp_iff _).mp (governs_other ho p.session)).1 () t ht
  have hspares : ∀ j, l.Spares (some j) := by
    intro j
    cases l with
    | read => exact ho.elim
    | _ => trivial
  refine ⟨hr, (Session.buffer_step hl ht).symm ▸ h.buffer, fun hp => hg.ready.trans (h.ready hp),
    fun is hp => ?_, fun hp hn => ?_, fun hp => ?_⟩
  · obtain ⟨hn, hj⟩ := h.pending is hp
    exact ⟨hn, fun j hm => h.reached.remaining_step hl (hspares j) ht hf (hj j hm)⟩
  · exact h.ended hp ⟨hg.ready ▸ hn.1, hg.run hn.2⟩
  · have htally := ((wp_iff _).mp (wp_exec_tallied (hspares .lte) hl)).1 () t ht
    have hrec : l.received p.session = p.session := by
      cases l with
      | read => exact ho.elim
      | _ => rfl
    rw [hrec] at htally
    exact hg.last.trans ((h.last hp).trans htally.size.symm)

lemma processed_announce {t : Session} (hr : t.Reached) (hb : 0 ≤ t.conf.bufferSize) :
    Processed ⟨t, .announce⟩ :=
  ⟨hr, hb, by simp, by simp, by simp, by simp⟩

lemma Processed.selects (h : Processed p) (hf : p.session.Fits) (hp : p.place = .select) (failed : Bool) :
    wp (algoSelect failed) (fun _ q => (q.session.Fits → Processed q) ∧
      Took p.session ((ProcessLabel.select failed).taken p) q.session) (fun e q => Broke p.session e q.session) p := by
  have hready := h.ready (.inl hp)
  simp only [algoSelect, goTo, onSession, wp_bind, wp_get, wp_ite, wp_zoom, wp_modify, ProcessLabel.taken]
  refine ⟨fun hno => ?_, fun hsome => ⟨fun hfail => ?_, fun hfail => ?_⟩⟩
  · rw [if_pos hno]
    exact ⟨fun _ => ⟨h.reached, h.buffer, fun _ => hready, by simp, by simp, by simp⟩, rfl⟩
  · rw [if_neg hsome, if_pos hfail]
    have hstep : ({ p.session with ready := .error } : Session).Reached :=
      .step .selectFailed h.reached hready trivial rfl
    exact ⟨fun _ => processed_announce hstep h.buffer, hready, rfl⟩
  · rw [if_neg hsome, if_neg hfail]
    refine ⟨fun _ => ⟨h.reached, h.buffer, by simp, fun is his => ?_, by simp, by simp⟩, rfl⟩
    obtain rfl : p.session.links = is := by simpa using his
    refine ⟨?_, fun j _ => h.reached.remaining_nonneg hf ((h.reached.inv hf).log.noFailure hready) j⟩
    rw [Gb.links, h.reached.two]
    decide

lemma readSize_le (s : Gb) (i : Link) : s.readSize i ≤ s.conf.bufferSize ∧ s.readSize i ≤ s.remaining i := by
  simp only [Gb.readSize, Gb.remaining]
  split_ifs <;> omega

lemma readSize_nonneg {s : Gb} {i : Link} (hb : 0 ≤ s.conf.bufferSize) (hr : 0 ≤ s.remaining i) :
    0 ≤ s.readSize i := by
  simp only [Gb.remaining] at hr
  simp only [Gb.readSize]
  split_ifs <;> omega

lemma Processed.visits (h : Processed p) {i : Link} {rest : List Link} (hp : p.place = .visit (i :: rest))
    {isSet : Bool} {r : Received} {x : Inputs}
    (hx : isSet → (∀ j, 0 < x.elapsed j) ∧ ReadReturns p.session.toGb i r) :
    wp (algoVisit i rest isSet r x) (fun _ q => (q.session.Fits → Processed q) ∧
      Took p.session ((ProcessLabel.visit isSet r x).taken p) q.session)
      (fun e q => Broke p.session e q.session) p := by
  obtain ⟨hn, hrem⟩ := h.pending _ hp
  obtain ⟨hi, hrest⟩ := List.nodup_cons.mp hn
  simp only [algoVisit, goTo, onSession, wp_bind, wp_get, wp_whenever, wp_zoom, wp_modify, ProcessLabel.taken, hp]
  refine ⟨fun hc => ?_, fun hc => ?_⟩
  · rw [if_pos hc]
    obtain ⟨he, hfd, hset⟩ := hc
    obtain ⟨helapsed, hread⟩ := hx hset
    have hl : (Label.read i r x).Enabled p.session := by
      refine ⟨Gb.mem_links h.reached.two i, he, hfd, helapsed, ?_⟩
      cases r with
      | error => trivial
      | closed => trivial
      | bytes n written =>
        have hsize := hread.2 (readSize_nonneg h.buffer (hrem i List.mem_cons_self))
        obtain ⟨hb, hm⟩ := readSize_le p.session.toGb i
        simp only [Gb.remaining] at hm
        exact ⟨hread.1, by omega, by omega⟩
    refine h.wp_session hl fun t hr ht hf => ?_
    refine ⟨hr, (Session.buffer_step hl ht).symm ▸ h.buffer, by simp, fun is his => ?_, by simp, by simp⟩
    obtain rfl : rest = is := by simpa using his
    refine ⟨hrest, fun j hj => h.reached.remaining_step hl ?_ ht hf (hrem j (List.mem_cons_of_mem _ hj))⟩
    have hji : some j ≠ some i := fun he => hi (Option.some.inj he ▸ hj)
    cases r with
    | bytes n written => exact hji
    | error => trivial
    | closed => trivial
  · rw [if_neg hc]
    refine ⟨fun _ => ⟨h.reached, h.buffer, by simp, fun is his => ?_, by simp, by simp⟩, rfl⟩
    obtain rfl : rest = is := by simpa using his
    exact ⟨hrest, fun j hj => hrem j (List.mem_cons_of_mem _ hj)⟩

lemma Processed.leaves (h : Processed p) :
    wp algoLeave (fun _ q => (q.session.Fits → Processed q) ∧ q.session = p.session)
      (fun e q => Broke p.session e q.session) p := by
  simp only [algoLeave, goTo, wp_bind, wp_get, wp_modify]
  refine ⟨fun _ => ?_, trivial⟩
  split_ifs with hr
  · exact ⟨h.reached, h.buffer, fun _ => hr, by simp, by simp, by simp⟩
  · exact processed_announce h.reached h.buffer

lemma Processed.checks (h : Processed p) (hp : p.place = .check) (x : CheckInputs) :
    wp (algoCheck x) (fun _ q => (q.session.Fits → Processed q) ∧ Took p.session (some (.check x)) q.session)
      (fun e q => Broke p.session e q.session) p := by
  have hl : (Label.check x).Enabled p.session := h.ready (.inr hp)
  simp only [algoCheck, goTo, onSession, wp_bind, wp_zoom, wp_modify]
  refine h.wp_session hl fun t hr ht _ => ?_
  exact processed_announce hr ((Session.buffer_step hl ht).symm ▸ h.buffer)

/-- A session that goes on announces its in-order offset, another one the size of the file. -/
lemma wp_announced (s : Session) : wp updateLastDownloadedByte (fun _ t => t.ready = s.ready ∧ t.run = s.run ∧
    t.lastDownloadedByte = if s.ready = .no ∧ s.run then s.inorderOffset else t.size)
    (fun _ _ => True) s := by
  simp only [updateLastDownloadedByte, wp_bind, wp_get, wp_ensure, wp_modify, wp_logEvent]
  exact ⟨fun _ => ⟨trivial, trivial, trivial⟩, fun _ => trivial⟩

lemma Processed.announcing (h : Processed p) :
    wp gbProcessAnnounce (fun _ q => (q.session.Fits → Processed q) ∧ Took p.session (some .announce) q.session)
      (fun e q => Broke p.session e q.session) p := by
  have hl : Label.announce.Enabled p.session := trivial
  simp only [gbProcessAnnounce, goTo, onSession, wp_bind, wp_zoom, wp_get, wp_modify]
  refine @Processed.wp_session p h .announce hl (fun t => if p.place = .leave then .done
    else if t.ready = .no ∧ t.run then .select else .leave) fun t hr ht _ => ?_
  have hb := (Session.buffer_step hl ht).symm ▸ h.buffer
  obtain ⟨hready, hrun, hlast⟩ := ((wp_iff _).mp (wp_announced p.session)).1 () t ht
  by_cases hleave : p.place = .leave
  · rw [if_pos hleave]
    have hended := h.ended (.inl hleave)
    rw [if_neg hended] at hlast
    refine ⟨hr, hb, by simp, by simp, fun _ => ?_, fun _ => hlast⟩
    rwa [hready, hrun]
  · rw [if_neg hleave]
    split_ifs with hgo
    · exact ⟨hr, hb, fun _ => hgo.1, by simp, by simp, by simp⟩
    · exact ⟨hr, hb, by simp, by simp, fun _ => hgo, by simp⟩

/-- Each step of the thread, and of those beside it, is one of the session or none. -/
lemma Processed.wp_exec (h : Processed p) (hf : p.session.Fits) {l : ProcessLabel} (hl : process.enabled p l) :
    wp (process.exec l) (fun _ q => (q.session.Fits → Processed q) ∧ Took p.session (l.taken p) q.session)
      (fun e q => Broke p.session e q.session) p := by
  cases l with
  | other l => exact h.other hl.1 hl.2
  | select failed => exact h.selects hf hl failed
  | visit isSet r x =>
    have hv : ProcessLabel.Visits p isSet r x p.place := hl
    show wp (get >>= fun p => ProcessLabel.execVisit isSet r x p.place) _ _ p
    rw [wp_bind, wp_get]
    cases hp : p.place with
    | visit is =>
      rw [hp] at hv
      cases is with
      | nil => exact hv.elim
      | cons i rest => exact h.visits hp hv
    | _ =>
      rw [hp] at hv
      exact hv.elim
  | leave => exact h.leaves
  | check x => exact h.checks hl x
  | announce => exact h.announcing

lemma processed_of_start (h : process.start p) : Processed p := by
  obtain ⟨hs, hp, hb⟩ := h
  refine ⟨.start hs, hb, ?_, ?_, ?_, ?_⟩ <;> simp [hp]

lemma wp_exec_fitting (h : p.session.Fits → Processed p) {l : ProcessLabel} (hl : process.enabled p l) :
    wp (process.exec l) (fun _ q => q.session.Fits → Processed q)
      (fun e q => q.session.Fits → p.session.Reached ∧ Broke p.session e q.session) p := by
  by_cases hf : p.session.Fits
  · exact wp_mono ((h hf).wp_exec hf hl) (fun _ _ hq => hq.1) fun _ _ hq _ => ⟨(h hf).reached, hq⟩
  · refine wp_mono (goes_exec l p) (fun _ q hq hqf => ?_) fun _ q hq hqf => ?_
    · exact absurd (GoesOn.fits hq hqf) hf
    · exact absurd (GoesOn.fits hq.2 hqf) hf

lemma Process.Reached.processed (h : p.Reached) (hf : p.session.Fits) : Processed p :=
  h.invariant (I := fun p : Process => p.session.Fits → Processed p) (fun _ hp _ => processed_of_start hp)
    (fun _ _ hp hl _ => wp_mono (wp_exec_fitting hp hl) (fun _ _ hq => hq) fun _ _ _ => trivial) hf

end

/-- Whatever the order of the threads, as long as no share overflows the loop of `gb_process` does nothing
that the steps of a session cannot do in some order, also where it crashes, and `read` is never asked for a
negative number of bytes nor for more than fit in the buffer. -/
theorem process_refines :
    (∀ p : Process, p.Reached → p.session.Fits → p.session.Reached) ∧
      (∀ (p : Process) e, p.Crashed e → p.session.Fits → p.session.Crashed e) ∧
      ∀ (p : Process) i rest, p.Reached → p.session.Fits → p.place = .visit (i :: rest) →
        0 ≤ p.session.readSize i ∧ p.session.readSize i ≤ p.session.conf.bufferSize := by
  refine ⟨fun p h hf => (h.processed hf).reached, fun p e h => ?_, fun p i rest h hf hp => ?_⟩
  · exact h.invariant (I := fun p : Process => p.session.Fits → Processed p)
      (C := fun e q => q.session.Fits → q.session.Crashed e) (fun _ hp _ => processed_of_start hp)
      fun _ _ hp hl _ => wp_mono (wp_exec_fitting hp hl) (fun _ _ hq => hq) fun _ _ hq hqf =>
        (hq hqf).2.crashed (hq hqf).1
  · have hprocessed := h.processed hf
    have hrem := (hprocessed.pending _ hp).2 i List.mem_cons_self
    exact ⟨readSize_nonneg hprocessed.buffer hrem, (readSize_le _ _).1⟩

/-- When the thread ends, the size of the file is announced, and unless the session was stopped, it failed
or has written the whole file, each byte once. -/
theorem process_done {p : Process} (h : p.Reached) (hf : p.session.Fits) (hp : p.place = .done) :
    p.session.lastDownloadedByte = p.session.size ∧
      (p.session.run → p.session.ready = .error ∨ Tiles p.session.outfile 0 p.session.size) := by
  have hprocessed := h.processed hf
  have hreached := hprocessed.reached
  refine ⟨hprocessed.last hp, fun hrun => ?_⟩
  cases hready : p.session.ready with
  | no => exact absurd ⟨hready, hrun⟩ (hprocessed.ended (.inr hp))
  | complete => exact .inr ((hreached.inv hf).rep.tiles ((hreached.thrifty hf).complete hready))
  | error => exact .inl rfl

/-! ### A run -/

instance : DecidablePred Label.Other
  | .setupRequest _ _ => isTrue trivial
  | .setupResponse _ _ => isTrue trivial
  | .stop => isTrue trivial
  | .read _ _ _ => isFalse id
  | .check _ => isFalse id
  | .announce => isFalse id
  | .selectFailed => isFalse id

instance (s : Gb) (i : Link) : DecidablePred (ReadReturns s i)
  | .bytes _ _ => inferInstanceAs (Decidable (_ ∧ _))
  | .error => isTrue trivial
  | .closed => isTrue trivial

instance (p : Process) (isSet : Bool) (r : Received) (x : Inputs) :
    DecidablePred (ProcessLabel.Visits p isSet r x)
  | .visit (_ :: _) => inferInstanceAs (Decidable (_ → _ ∧ _))
  | .visit [] => isFalse id
  | .announce => isFalse id
  | .select => isFalse id
  | .check => isFalse id
  | .leave => isFalse id
  | .done => isFalse id

instance (p : Process) : DecidablePred (ProcessLabel.Enabled p)
  | .other _ => inferInstanceAs (Decidable (_ ∧ _))
  | .select _ => inferInstanceAs (Decidable (_ = _))
  | .visit isSet r x => inferInstanceAs (Decidable (ProcessLabel.Visits p isSet r x p.place))
  | .leave => inferInstanceAs (Decidable (_ = _))
  | .check _ => inferInstanceAs (Decidable (_ = _))
  | .announce => inferInstanceAs (Decidable (_ ∨ _))

instance (p : Process) (l : ProcessLabel) : Decidable (process.enabled p l) :=
  inferInstanceAs (Decidable (ProcessLabel.Enabled p l))

/-- The thread of a session that was opened and started. -/
def startedProcess (conf : Conf) (size : ℤ) : Process :=
  ⟨after (gbOpen *> gbStart fun _ => true) (gbNew freshStatics conf size true 206), .announce⟩

lemma startedProcess_start {conf : Conf} {size : ℤ} (hc : conf.Admissible false) (hs : 1 ≤ size)
    (hrun : result (gbOpen *> gbStart fun _ => true) (gbNew freshStatics conf size true 206) = some ())
    (hb : 0 ≤ (startedProcess conf size).session.conf.bufferSize) : process.start (startedProcess conf size) :=
  ⟨⟨false, freshStatics, conf, size, 206, fun _ => true, hc, hs, ok_of_result hrun⟩, rfl, hb⟩

/-- A round of the loop in which both connections are read. -/
def readRound (n m : ℤ) : List ProcessLabel :=
  [.announce, .select false, .visit true (.bytes n true) calmInputs,
    .visit true (.bytes m true) calmInputs, .leave, .check againInputs]

/-- Both connections are set up while the thread waits, and the file is read in two rounds. -/
def twoRounds : List ProcessLabel :=
  (upSteps .lte ++ upSteps .wifi).map .other ++ readRound 4 4 ++ readRound 4 4 ++ [.announce, .announce]

lemma plainProcess_start : process.start (startedProcess plainConf 16) :=
  startedProcess_start (by decide +kernel) (by decide) (by decide +kernel) (by decide +kernel)

/-- Where both connections are set up, the first has four bytes to fetch. -/
theorem process_refines_of_select : ∃ p : Process, p.session.Reached ∧ p.session.readSize .lte = 4 ∧
    0 ≤ p.session.readSize .lte ∧ p.session.readSize .lte ≤ p.session.conf.bufferSize := by
  obtain ⟨p, hp, hf, hplace, hsize⟩ := exists_of_ends (.start plainProcess_start)
    ((upSteps .lte ++ upSteps .wifi).map .other ++ [.announce, .select false]) (fun _ _ => trivial)
    (P := fun p => p.session.Fits ∧ p.place = .visit [.lte, .wifi] ∧ p.session.readSize .lte = 4) (by decide +kernel)
  exact ⟨p, process_refines.1 p hp hf, hsize, process_refines.2.2 p .lte [.wifi] hp hf hplace⟩

/-- The file is read in two rounds. -/
theorem process_done_of_rounds : ∃ p : Process, p.session.run = true ∧
    p.session.lastDownloadedByte = p.session.size ∧
      (p.session.run → p.session.ready = .error ∨ Tiles p.session.outfile 0 p.session.size) := by
  obtain ⟨p, hp, hf, hdone, hrun⟩ := exists_of_ends (.start plainProcess_start) twoRounds (fun _ _ => trivial)
    (P := fun p => p.session.Fits ∧ p.place = .done ∧ p.session.run = true) (by decide +kernel)
  exact ⟨p, hrun, process_done hp hf hdone⟩

end GreenBag
