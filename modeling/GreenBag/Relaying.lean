import GreenBag.Processing
import GreenBag.Streaming

/-! The bytes themselves, on their way from the servers through the buffer file to the client of
`send_remote_file`. -/

namespace GreenBag

open Programs Machines Ranges

def byteAt (file : List UInt8) (b : ℤ) : UInt8 := file.getD b.toNat 0

/-- The thread of `gb_process` with the file that it writes. -/
structure Recording where
  process : Process
  disk : ℤ → UInt8

def Recording.session (q : Recording) : Session := q.process.session

/-- A step, with the bytes that no server was asked for and the number of bytes that a failed `write` wrote. -/
structure RecordLabel where
  step : ProcessLabel
  junk : ℤ → UInt8
  short : ℤ

section

variable (file : List UInt8)

/-- The byte for `b` among the `n` bytes that are read. The server sends the ranges in the order of the
requests; behind the end of one comes the header of the next response. -/
def Gb.incoming (s : Gb) (i : Link) (n : ℤ) (junk : ℤ → UInt8) (b : ℤ) : UInt8 :=
  match (s.conn i).outstanding with
  | r :: _ =>
    if r.first + n - 1 ≤ r.last then byteAt file (r.first + (b - (s.conn i).currentbyte)) else junk b
  | [] => junk b

/-- The file behind the write of a step. -/
def Gb.recorded (s : Gb) (l : RecordLabel) (disk : ℤ → UInt8) : Option Label → ℤ → UInt8
  | some (.read i (.bytes n written) _) => fun b =>
    if (s.conn i).currentbyte ≤ b ∧ b < (s.conn i).currentbyte + (if written then n else l.short) then
      s.incoming file i n l.junk b
    else disk b
  | _ => disk

def processPart : Part Recording Process where
  view := Recording.process
  put q p := { q with process := p }
  view_put _ _ := rfl

def recordStep (l : RecordLabel) : EStateM Fault Recording Unit := do
  modify fun q => { q with disk := q.session.recorded file l q.disk (l.step.taken q.process) }
  zoom processPart (process.exec l.step)

/-- Nothing is known of what the file holds before. -/
def recording : Machine Recording Fault RecordLabel where
  start q := process.start q.process ∧ q.session.size = file.length
  enabled q l := process.enabled q.process l.step
  exec := recordStep file

end

instance (file : List UInt8) (q : Recording) (l : RecordLabel) : Decidable ((recording file).enabled q l) :=
  inferInstanceAs (Decidable (process.enabled q.process l.step))

/-- The guesses fit, and the size of the file is announced only once all bytes are done. -/
def Event.Timely (e : Event) : Prop := e.GuessesRight ∧ e.AnnouncedInTime

def Event.Straight (e : Event) : Prop := e.InOrder ∧ e.Timely

lemma Session.All.timely {s : Session} (h : s.All Event.Straight) : s.All Event.Timely :=
  fun e he => (h e he).2

lemma Session.All.ordered {s : Session} (h : s.All Event.Straight) : s.All Event.InOrder :=
  fun e he => (h e he).1

/-! ### What is announced -/

/-- All that is announced is written. -/
structure Posted (s : Session) : Prop where
  complete : s.CompleteTo s.lastDownloadedByte
  size : s.lastDownloadedByte ≤ s.size

section

variable {s t u : Session} {o : Option Link} {n : ℕ × ℕ} {i : Link} {l : Label} {P : Event → Prop}

lemma Posted.received (h : Posted s) (l : Label) : Posted (l.received s) := by
  cases l with
  | read i r x =>
    cases r with
    | bytes k written =>
      cases written with
      | false => exact ⟨h.complete, h.size⟩
      | true =>
        refine ⟨fun b h₀ hb hs => ?_, h.size⟩
        have hc := h.complete b h₀ hb hs
        have hout : ((Label.read i (.bytes k true) x).received s).outfile =
            ⟨(s.conn i).currentbyte, (s.conn i).currentbyte + k - 1⟩ :: s.outfile := rfl
        rw [hout, cover_cons]
        omega
    | error => exact h
    | closed => exact h
  | _ => exact h

lemma Posted.tallied (h : Posted s) (ht : Tallied o n s t) (hr : t.Reached) (hf : t.Fits)
    (ha : t.All Event.Timely) : Posted t := by
  rcases ht.announced with hl | ⟨u, hu, hout, hsize⟩
  · refine ⟨fun b h₀ hb hs => ?_, ?_⟩
    · rw [hl] at hb
      rw [ht.size] at hs
      rw [ht.outfile]
      exact h.complete b h₀ hb hs
    · rw [hl, ht.size]
      exact h.size
  · obtain ⟨hc, hle⟩ := (hr.inv hf).log.announced ha u t.lastDownloadedByte hu
    refine ⟨fun b h₀ hb hs => ?_, ?_⟩
    · rw [ht.size, ← hsize] at hs
      rw [ht.outfile, ← hout]
      exact hc b h₀ hb hs
    · rw [ht.size, ← hsize]
      exact hle

lemma all_of_received (h : (l.received s).All P) : s.All P := by
  cases l with
  | read i r x =>
    cases r with
    | bytes k written =>
      intro e he
      cases written with
      | false => exact h e (List.mem_cons_of_mem _ he)
      | true => exact h e (List.mem_cons_of_mem _ he)
    | error => exact h
    | closed => exact h
  | _ => exact h

lemma received_same (l : Label) (s : Session) :
    (l.received s).size = s.size ∧ (l.received s).lastDownloadedByte = s.lastDownloadedByte := by
  cases l with
  | read i r x =>
    cases r with
    | bytes k written => cases written <;> exact ⟨rfl, rfl⟩
    | error => exact ⟨rfl, rfl⟩
    | closed => exact ⟨rfl, rfl⟩
  | _ => exact ⟨rfl, rfl⟩

/-- What the steps of a session leave behind, as long as no share overflows. -/
structure Onward (s t : Session) : Prop extends GoesOn s t where
  size : t.Fits → t.size = s.size
  forward : t.Fits → t.All Event.Timely → s.lastDownloadedByte ≤ t.lastDownloadedByte

lemma Onward.all (h : Onward s t) (ha : t.All P) : s.All P := fun e he => ha e (h.trace.subset he)

lemma Onward.fits (h : Onward s t) (hf : t.Fits) : s.Fits := h.toGoesOn.fits hf

lemma Onward.refl (s : Session) : Onward s s := ⟨going.refl s, fun _ => rfl, fun _ _ => le_rfl⟩

lemma Onward.trans (h : Onward s t) (h' : Onward t u) : Onward s u :=
  ⟨going.trans h.toGoesOn h'.toGoesOn, fun hf => (h'.size hf).trans (h.size (h'.fits hf)),
    fun hf ha => (h.forward (h'.fits hf) (h'.all ha)).trans (h'.forward hf ha)⟩

/-- Behind a share that overflows, nothing is left to show. -/
lemma Onward.of_misfit (h : GoesOn s t) (hf : ¬ s.Fits) : Onward s t :=
  ⟨h, fun ht => absurd (h.fits ht) hf, fun ht => absurd (h.fits ht) hf⟩

lemma Tallied.later (h : Tallied o n (l.received s) t) (hg : GoesOn s t)
    (hp : s.All Event.Timely → Posted s) : Onward s t := by
  obtain ⟨hsize, hlast⟩ := received_same l s
  refine ⟨hg, fun _ => h.size.trans hsize, fun _ ha => ?_⟩
  have hf := h.forward
  rw [hsize, hlast, min_eq_left (hp (all_of_received (h.all ha))).size] at hf
  exact hf

/-! ### What is written -/

lemma parts_of_handled {k : ℤ} {written : Bool} {x : Inputs} (h : Inv .rest s)
    (ht : session.exec (.read i (.bytes k written) x) s = .ok () t) : s.parts i ≠ [] := by
  intro hp
  have hnone : s.offsetInfo.connection i = none := by
    rw [h.rep.pointer i rfl]
    exact firstWith_eq_none.mpr hp
  have hw : wp (handleBytes i k written x) (fun _ _ => False) (fun _ _ => True) s := by
    simp only [handleBytes]
    rw [wp_bind, wp_connAt]
    refine ⟨fun hl => ?_, fun _ => trivial⟩
    have hrest : ∀ rest : Unit → Program Unit,
        wp (rest ()) (fun _ _ => False) (fun _ _ => True) (s.received i k written) →
        wp (do
          modifyConn i fun c => { c with outstanding := consume k c.outstanding }
          let a ← writeReceivedData i k written
          rest a) (fun _ _ => False) (fun _ _ => True) s := by
      intro rest hr
      have hwrite := wp_writeReceivedData (s := s) (i := i) (C := fun _ _ => True)
        (Q := fun _ u => wp (rest ()) (fun _ _ => False) (fun _ _ => True) u) k written hl hr
      simpa only [wp_bind] using hwrite
    apply hrest
    have hgone : (s.received i k written).offsetInfo.connection i = none := by
      cases written <;> exact hnone
    simp [hgone]
  exact ((wp_iff _).mp hw).1 () t ht

lemma Inv.incoming (h : Inv .rest s) (ha : s.All Event.InOrder) (he : (s.conn i).enabled)
    (hp : s.parts i ≠ []) {k : ℤ} (h₁ : 1 ≤ k) (hk : k ≤ (s.conn i).lastbyte - (s.conn i).currentbyte + 1)
    (file : List UInt8) (junk : ℤ → UInt8) (b : ℤ) : s.incoming file i k junk b = byteAt file b := by
  obtain ⟨d, ds, ps, hcur⟩ := h.rep.cursor hp
  have hout : (s.conn i).outstanding = ⟨(s.conn i).currentbyte, (s.conn i).lastbyte⟩ ::
      (ds ++ ps.flatMap Subsegment.chunkList).map Chunk.range := by
    rw [(h.wire i).aligned ha (.inl (.inl he)), hcur.wanted, if_pos (by omega), hcur.queue]
  simp only [Gb.incoming, hout]
  rw [if_pos (by omega)]
  congr 1
  omega

end

/-- The file holds what the servers have, wherever it was written. -/
structure Recorded (file : List UInt8) (q : Recording) : Prop where
  processed : Processed q.process
  size : q.session.size = file.length
  posted : q.session.All Event.Timely → Posted q.session
  disk : q.session.All Event.InOrder → ∀ b, 0 < cover q.session.outfile b → q.disk b = byteAt file b

section

variable {file : List UInt8} {q : Recording} {l : RecordLabel}

lemma recorded_of_start (h : (recording file).start q) : Recorded file q := by
  obtain ⟨hs, hsize⟩ := h
  have hprocessed := processed_of_start hs
  obtain ⟨n, g, ho⟩ := opened_of_start hs.1
  have hlast : q.session.lastDownloadedByte = 0 := ho.offsets.2
  have hout : q.session.outfile = [] := ho.outfile
  refine ⟨hprocessed, hsize, fun _ => ⟨fun b h₀ hb _ => ?_, ?_⟩, fun _ b hb => ?_⟩
  · omega
  · rw [hlast, hsize]
    exact Int.natCast_nonneg _
  · rw [hout, cover_nil] at hb
    exact absurd hb (lt_irrefl 0)

/-- Whatever step the session takes, the file keeps what is right in it. -/
lemma Recorded.taken (h : Recorded file q) (hf : q.session.Fits) {o : Option Label} {t : Session} (ht : Took q.session o t)
    (ha : t.All Event.InOrder) {b : ℤ} (hb : 0 < cover t.outfile b) :
    q.session.recorded file l q.disk o b = byteAt file b := by
  cases o with
  | none =>
    obtain rfl : t = q.session := ht
    exact h.disk ha b hb
  | some k =>
    obtain ⟨hk, hstep⟩ := ht
    have hinv := h.processed.reached.inv hf
    have htally := ((wp_iff _).mp (wp_exec_tallied k.spares_none hk)).1 () t hstep
    have hrec := htally.all ha
    have hs := h.disk (all_of_received hrec)
    rw [htally.outfile] at hb
    cases k with
    | read i r x =>
      cases r with
      | bytes n written =>
        obtain ⟨-, he, -, -, h₁, -, hn⟩ := hk
        cases written with
        | false => exact absurd (hrec _ List.mem_cons_self).1 id
        | true =>
          simp only [Gb.recorded, if_true]
          split_ifs with hc
          · exact hinv.incoming (all_of_received hrec) he (parts_of_handled hinv hstep) h₁ hn file l.junk b
          · apply hs
            have hout : ((Label.read i (.bytes n true) x).received q.session).outfile =
                ⟨(q.session.conn i).currentbyte, (q.session.conn i).currentbyte + n - 1⟩ ::
                  q.session.outfile := rfl
            rw [hout, cover_cons, if_neg, Nat.zero_add] at hb
            · exact hb
            · intro hm
              obtain ⟨hm₁, hm₂⟩ := hm
              simp only at hm₁ hm₂
              omega
      | error => exact hs b hb
      | closed => exact hs b hb
    | _ => exact hs b hb

lemma Took.later {s t : Session} {o : Option Label} (h : Took s o t) (hg : GoesOn s t)
    (hp : s.All Event.Timely → Posted s) : Onward s t := by
  cases o with
  | none =>
    obtain rfl : t = s := h
    exact .refl t
  | some k => exact (((wp_iff _).mp (wp_exec_tallied k.spares_none h.1)).1 () t h.2).later hg hp

lemma Broke.later {s t : Session} {e : Fault} (h : Broke s e t) (hg : GoesOn s t)
    (hp : s.All Event.Timely → Posted s) : Onward s t := by
  obtain ⟨k, hk, ht⟩ := h
  exact (((wp_iff _).mp (wp_exec_tallied k.spares_none hk)).2 e t ht).later hg hp

lemma Took.posted {s t : Session} {o : Option Label} (h : Took s o t) (hr : s.Reached) (hs : Posted s)
    (hf : t.Fits) (ha : t.All Event.Timely) : Posted t := by
  cases o with
  | none =>
    obtain rfl : t = s := h
    exact hs
  | some k =>
    have htally := ((wp_iff _).mp (wp_exec_tallied k.spares_none h.1)).1 () t h.2
    exact (hs.received k).tallied htally (.step k hr h.1 trivial h.2) hf ha

lemma Recorded.wp_exec (h : Recorded file q) (hf : q.session.Fits) (hl : (recording file).enabled q l) :
    wp ((recording file).exec l) (fun _ q' => (q'.session.Fits → Recorded file q') ∧
      Onward q.session q'.session) (fun _ q' => Onward q.session q'.session) q := by
  show wp (recordStep file l) _ _ q
  rw [recordStep, wp_bind, wp_modify, wp_zoom]
  apply wp_mono (wp_and (h.processed.wp_exec hf hl) (goes_exec l.step _))
  · intro _ p hp
    obtain ⟨⟨hprocessed, htook⟩, hg⟩ := hp
    have hlater : Onward q.session p.session := htook.later hg h.posted
    refine ⟨fun hpf => ⟨hprocessed hpf, (hlater.size hpf).trans h.size, fun ha => ?_, fun ha b hb => ?_⟩, hlater⟩
    · exact htook.posted h.processed.reached (h.posted (hlater.all ha)) hpf ha
    · exact h.taken hf htook ha hb
  · exact fun e p hp => hp.1.later hp.2.2 h.posted

/-- So it is in every state, as long as no share overflows. -/
lemma wp_record (h : q.session.Fits → Recorded file q) (hl : (recording file).enabled q l) :
    wp ((recording file).exec l) (fun _ q' => (q'.session.Fits → Recorded file q') ∧
      Onward q.session q'.session) (fun _ q' => Onward q.session q'.session) q := by
  by_cases hf : q.session.Fits
  · exact (h hf).wp_exec hf hl
  · show wp (recordStep file l) _ _ q
    rw [recordStep, wp_bind, wp_modify, wp_zoom]
    refine wp_mono (goes_exec l.step _) (fun _ p hg => ⟨fun hpf => ?_, .of_misfit hg hf⟩)
      fun _ p hg => .of_misfit hg.2 hf
    exact absurd (GoesOn.fits hg hpf) hf

lemma Recording.Reached.recorded {allow : RecordLabel → Prop} (h : Reachable (recording file) allow q)
    (hf : q.session.Fits) : Recorded file q :=
  h.invariant (I := fun q : Recording => q.session.Fits → Recorded file q) (fun _ hq _ => recorded_of_start hq)
    (fun _ _ hq hl _ => wp_mono (wp_record hq hl) (fun _ _ h => h.1) fun _ _ _ => trivial) hf

/-! ### What is read from the file -/

/-- The file as it can be read, with its holes. -/
def Recording.content (q : Recording) : List UInt8 :=
  (List.range q.session.size.toNat).map fun k : ℕ => q.disk k

lemma byteAt_natCast {k : ℕ} (hk : k < file.length) : byteAt file k = file[k] := by
  rw [byteAt, Int.toNat_natCast, List.getD_eq_getElem?_getD, List.getElem?_eq_getElem hk, Option.getD_some]

lemma Recorded.content_length (h : Recorded file q) : q.content.length = file.length := by
  rw [Recording.content, List.length_map, List.length_range, h.size, Int.toNat_natCast]

/-- As far as bytes were announced, the file reads as the one on the servers. -/
lemma Recorded.content_take (h : Recorded file q) (ha : q.session.All Event.Straight) {m k : ℕ}
    (hk : (m + k : ℕ) ≤ q.session.lastDownloadedByte) :
    (q.content.drop m).take k = (file.drop m).take k := by
  have hposted := h.posted ha.timely
  apply List.ext_getElem
  · rw [List.length_take, List.length_take, List.length_drop, List.length_drop, h.content_length]
  · intro j hj hj'
    rw [List.length_take, List.length_drop] at hj'
    have hm : m + j < file.length := by omega
    have hsize := h.size
    simp only [List.getElem_take, List.getElem_drop, Recording.content, List.getElem_map, List.getElem_range]
    rw [h.disk ha.ordered _ (hposted.complete _ (by omega) (by omega) (by omega)), byteAt_natCast hm]

lemma Recorded.content_eq (h : Recorded file q) (ha : q.session.All Event.InOrder)
    (hc : q.session.CompleteTo q.session.size) : q.content = file := by
  have hsize := h.size
  apply List.ext_getElem h.content_length
  intro j hj hj'
  simp only [Recording.content, List.getElem_map, List.getElem_range]
  rw [h.disk ha _ (hc _ (by omega) (by omega) (by omega)), byteAt_natCast hj']

end

/-- A round only looks at the length of the file and at the bytes that it reads. -/
lemma streamRound_congr {file content : List UInt8} {r : Round} {s : Stream}
    (hl : content.length = file.length)
    (hb : s.firstNotSentByte ≤ r.tested →
      (content.drop s.position).take r.read = (file.drop s.position).take r.read) :
    streamRound content r s = streamRound file r s := by
  unfold streamRound
  have hget : (get : Streaming Stream) s = .ok s s := rfl
  rw [bind_of_ok hget, bind_of_ok hget]
  by_cases ht : s.firstNotSentByte ≤ r.tested
  · rw [hb ht, hl]
  · simp only [whenever, if_neg ht]

/-! ### Both threads -/

/-- What the calls of a round may return. -/
def SendResult.Fits (k : ℕ) : SendResult → Prop
  | .accepted n => k ≠ 0 → 1 ≤ n ∧ n ≤ k
  | .gone => True

instance (k : ℕ) : DecidablePred (SendResult.Fits k)
  | .accepted _ => inferInstanceAs (Decidable (_ → _ ∧ _))
  | .gone => isTrue trivial

def Stream.Called (s : Stream) (r : Round) : Prop :=
  (s.firstNotSentByte ≤ r.tested → (r.read : ℤ) ≤ s.readSize r) ∧ r.send.Fits r.read

instance (s : Stream) (r : Round) : Decidable (s.Called r) := inferInstanceAs (Decidable ((_ → _) ∧ _))

/-- The thread of `send_remote_file` beside the others, and how its loop ended. -/
structure Relay where
  recording : Recording
  stream : Stream
  ended : Option StreamEnd

def Relay.session (r : Relay) : Session := r.recording.session

abbrev Relaying := EStateM (Option Fault) Relay

def recordingPart : Part Relay Recording where
  view := Relay.recording
  put r q := { r with recording := q }
  view_put _ _ := rfl

inductive RelayLabel
  | others (ls : List RecordLabel)
  /-- The other threads take their steps before each look at `last_downloaded_byte`, and before `read`. -/
  | serve (compared taken read asserted : List RecordLabel) (count interrupts : ℕ) (send : SendResult) (seeks : Bool)

section

variable (file : List UInt8)

def others (ls : List RecordLabel) : Relaying Unit := zoom recordingPart (performs (recording file) ls)

def lastDownloaded : Relaying ℤ := do
  let r ← get
  return r.session.lastDownloadedByte

def readFile : Relaying (List UInt8) := do
  let r ← get
  return r.recording.content

def Relay.served (r : Relay) : EStateM.Result StreamEnd Stream Unit → Relay
  | .ok _ s => { r with stream := s }
  | .error e s => { r with stream := s, ended := some e }

def relayRound (ls₁ ls₂ ls₃ ls₄ : List RecordLabel) (count interrupts : ℕ) (send : SendResult) (seeks : Bool) :
    Relaying Unit := do
  let tested ← lastDownloaded
  others file ls₁
  let compared ← lastDownloaded
  others file ls₂
  let taken ← lastDownloaded
  others file ls₃
  let content ← readFile
  others file ls₄
  let asserted ← lastDownloaded
  let round : Round := ⟨tested, compared, taken, asserted, count, interrupts, send, seeks⟩
  let r ← get
  ensure none (r.stream.Called round)
  set (r.served (streamRound content round r.stream))

namespace RelayLabel

def Enabled (r : Relay) : RelayLabel → Prop
  | .others _ => True
  | .serve _ _ _ _ _ _ _ _ => r.ended = none

def exec : RelayLabel → Relaying Unit
  | .others ls => GreenBag.others file ls
  | .serve ls₁ ls₂ ls₃ ls₄ count interrupts send seeks =>
    relayRound file ls₁ ls₂ ls₃ ls₄ count interrupts send seeks

/-- The client takes all it is offered, and what is read fits the buffer. -/
def Whole : RelayLabel → Prop
  | .others _ => True
  | .serve _ _ _ _ count _ send _ => count ≤ bufFileBufSize ∧ ∀ n, send = .accepted n → count ≤ n

end RelayLabel

def relay : Machine Relay (Option Fault) RelayLabel where
  start r := (recording file).start r.recording ∧ r.stream = ⟨0, 0, [], 0⟩ ∧ r.ended = none
  enabled := RelayLabel.Enabled
  exec := RelayLabel.exec file

end

/-! ### What the client gets -/

/-- What holds of the stream, by how its loop ended. -/
def Stream.Fate (file : List UInt8) (s : Stream) : Option StreamEnd → Prop
  | none => s.Level file
  | some .finished => s.Faithful file ∧ s.accepted = file
  | some .connectionGone => s.Faithful file
  | some .seekFailed => s.Faithful file
  | some .overflow => False
  | some .assertion => False

section

variable {file : List UInt8} {s : Stream} {r : Round} {o : Option StreamEnd}

lemma Stream.Fate.faithful (h : s.Fate file o) : s.Faithful file := by
  cases o with
  | none => exact Stream.Level.faithful h
  | some e =>
    cases e with
    | finished => exact h.1
    | connectionGone => exact h
    | seekFailed => exact h
    | overflow => exact h.elim
    | assertion => exact h.elim

lemma wp_streamRound_ends (hl : s.Level file) (hm : s.Meets file r) (hw : r.Whole) :
    wp (streamRound file r) (fun _ t => t.lastDownloadedByte ≤ r.asserted)
      (fun e t => t.lastDownloadedByte ≤ r.asserted ∧ e ≠ .overflow ∧ e ≠ .assertion ∧
        (e = .finished → t.firstNotSentByte = file.length)) s := by
  have hread := hm.read_le
  have hfirst := hl.first
  obtain ⟨-, h₂, h₃, h₄, h₅, -, -⟩ := hm
  simp only [streamRound, look, wp_bind, wp_get, wp_modify]
  rw [wp_whenever]
  refine ⟨fun ht => ?_, fun _ => (h₂.trans h₃).trans h₄⟩
  have hread := hread ht
  generalize hb : (file.drop s.position).take r.read = bytes
  have hlen : bytes.length ≤ r.read := hb ▸ List.length_take_le _ _
  simp only [wp_bind, wp_modify, wp_ensure]
  refine ⟨fun _ => ?_, fun hn => absurd (hlen.trans hw.1) hn⟩
  refine wp_sendAgain (fun n hn => hlen.trans (hw.2 n hn)) ⟨h₄, by decide, by decide, nofun⟩ ?_
  refine ⟨fun _ => ⟨fun _ => ?_, fun _ => ⟨h₄, by decide, by decide, nofun⟩⟩, fun hne => ?_⟩
  · simp only [wp_get]
    refine ⟨fun _ => ⟨fun _ => le_rfl, fun hn => ?_⟩, fun hn => ?_⟩ <;> omega
  · exact ⟨h₄, by decide, by decide, fun _ => not_not.mp hne⟩

lemma wp_streamRound_fate (hl : s.Level file) (hm : s.Meets file r) (hw : r.Whole) :
    wp (streamRound file r) (fun _ t => t.Fate file none ∧ t.lastDownloadedByte ≤ r.asserted)
      (fun e t => t.Fate file (some e) ∧ t.lastDownloadedByte ≤ r.asserted) s := by
  apply wp_mono (wp_and (wp_streamRound hl hm hw) (wp_streamRound_ends hl hm hw))
  · exact fun _ t ht => ht
  · intro e t ht
    obtain ⟨hf, hle, hover, hassert, hfin⟩ := ht
    refine ⟨?_, hle⟩
    cases e with
    | finished => exact ⟨hf, hf.whole (hfin rfl)⟩
    | connectionGone => exact hf
    | seekFailed => exact hf
    | overflow => exact absurd rfl hover
    | assertion => exact absurd rfl hassert

end

/-- The client has what was announced, or less. -/
structure Relayed (file : List UInt8) (r : Relay) : Prop where
  recorded : Recorded file r.recording
  fate : r.session.All Event.Straight → r.stream.Fate file r.ended
  announced : r.session.All Event.Straight → r.stream.lastDownloadedByte ≤ r.session.lastDownloadedByte

section

variable {file : List UInt8} {r : Relay} {q : Recording}

lemma relayed_of_start (h : (relay file).start r) : Relayed file r := by
  obtain ⟨hq, hs, he⟩ := h
  have hrec := recorded_of_start hq
  refine ⟨hrec, fun _ => ?_, fun _ => ?_⟩
  · rw [hs, he]
    exact ⟨rfl, le_rfl, Int.natCast_nonneg _, rfl⟩
  · obtain ⟨n, g, ho⟩ := opened_of_start hq.1.1
    have hlast : r.session.lastDownloadedByte = 0 := ho.offsets.2
    rw [hs, hlast]

lemma Relayed.recording (h : r.session.Fits → Relayed file r) (hq : q.session.Fits → Recorded file q)
    (hl : Onward r.session q.session) (hf : q.session.Fits) : Relayed file { r with recording := q } := by
  have hr := h (hl.fits hf)
  exact ⟨hq hf, fun ha => hr.fate (hl.all ha), fun ha =>
    (hr.announced (hl.all ha)).trans (hl.forward hf ha.timely)⟩

lemma wp_others {Q : Unit → Relay → Prop} {C : Option Fault → Relay → Prop} {ls : List RecordLabel}
    (h : r.session.Fits → Recorded file r.recording)
    (hq : ∀ q : Recording, (q.session.Fits → Recorded file q) → Onward r.session q.session →
      Q () { r with recording := q })
    (hc : ∀ e (q : Recording), Onward r.session q.session → C e { r with recording := q }) :
    wp (others file ls) Q C r := by
  rw [others, wp_zoom]
  have hrun := wp_performs (M := recording file) (I := fun q : Recording => q.session.Fits → Recorded file q)
    (R := fun q q' => Onward q.session q'.session) (fun q => .refl q.session) (fun _ _ _ h h' => h.trans h')
    (fun _ _ hq hl => wp_record hq hl) ls h
  apply wp_mono hrun
  · exact fun _ q' hq' => hq q' hq'.1 hq'.2
  · exact fun e q' hq' => hc e q' hq'

/-- What the client got before the others crashed. -/
def Relay.Kept (file : List UInt8) (r : Relay) : Prop :=
  r.session.Fits → r.session.All Event.Straight →
    r.stream.Fate file r.ended ∧ r.stream.lastDownloadedByte ≤ r.session.lastDownloadedByte

lemma Relayed.kept (h : r.session.Fits → Relayed file r) : r.Kept file :=
  fun hf ha => ⟨(h hf).fate ha, (h hf).announced ha⟩

lemma Relayed.later (h : r.session.Fits → Relayed file r) (hl : Onward r.session q.session) :
    Relay.Kept file { r with recording := q } := by
  intro hf ha
  have hr := h (hl.fits hf)
  exact ⟨hr.fate (hl.all ha), (hr.announced (hl.all ha)).trans (hl.forward hf ha.timely)⟩

/-- The end of a round whose looks were taken in states that followed each other. -/
lemma Relayed.round (h : r.session.Fits → Relayed file r) {q₁ q₂ q₃ : Recording} {round : Round}
    (hr : r.ended = none) (h₃ : q₃.session.Fits → Recorded file q₃) (hrec : q.session.Fits → Recorded file q)
    (hl₁ : Onward r.session q₁.session) (hl₂ : Onward q₁.session q₂.session)
    (hl₃ : Onward q₂.session q₃.session) (hl₄ : Onward q₃.session q.session)
    (htested : round.tested = r.session.lastDownloadedByte)
    (hcompared : round.compared = q₁.session.lastDownloadedByte)
    (htaken : round.taken = q₂.session.lastDownloadedByte)
    (hasserted : round.asserted = q.session.lastDownloadedByte)
    (hcalled : r.stream.Called round) (hw : round.Whole) (hf : q.session.Fits) :
    Relayed file (Relay.served { r with recording := q } (streamRound q₃.content round r.stream)) := by
  have hf₃ := hl₄.fits hf
  have hf₂ := hl₃.fits hf₃
  have hf₁ := hl₂.fits hf₂
  have h₀ := h (hl₁.fits hf₁)
  have hrun : q.session.All Event.Straight → wp (streamRound q₃.content round)
      (fun _ t => t.Fate file none ∧ t.lastDownloadedByte ≤ round.asserted)
      (fun e t => t.Fate file (some e) ∧ t.lastDownloadedByte ≤ round.asserted) r.stream := by
    intro ha
    have ha₃ := hl₄.all ha
    have ha₂ := hl₃.all ha₃
    have ha₁ := hl₂.all ha₂
    have ha₀ := hl₁.all ha₁
    have hlevel : r.stream.Level file := by
      have hfate := h₀.fate ha₀
      rwa [hr] at hfate
    have hforward := hl₃.forward hf₃ ha₃.timely
    have hmeets : r.stream.Meets file round := by
      refine ⟨?_, ?_, ?_, ?_, ?_, hcalled.1, fun m hm hk => ?_⟩
      · exact htested ▸ h₀.announced ha₀
      · exact htested ▸ hcompared ▸ hl₁.forward hf₁ ha₁.timely
      · exact hcompared ▸ htaken ▸ hl₂.forward hf₂ ha₂.timely
      · exact htaken ▸ hasserted ▸ hforward.trans (hl₄.forward hf ha.timely)
      · exact hasserted ▸ (hrec hf).size ▸ ((hrec hf).posted ha.timely).size
      · have hfits := hcalled.2
        rw [hm] at hfits
        exact hfits hk
    have hcongr : streamRound q₃.content round r.stream = streamRound file round r.stream := by
      apply streamRound_congr (h₃ hf₃).content_length
      intro ht
      apply (h₃ hf₃).content_take ha₃
      have hread := hmeets.read_le ht
      have hstart := hlevel.first
      omega
    have hround := wp_streamRound_fate hlevel hmeets hw
    unfold wp at hround ⊢
    rwa [hcongr]
  have hresult := fun ha => (wp_iff _).mp (hrun ha)
  rw [hasserted] at hresult
  cases hx : streamRound q₃.content round r.stream with
  | ok u t =>
    refine ⟨hrec hf, fun ha => ?_, fun ha => ((hresult ha).1 u t hx).2⟩
    show t.Fate file r.ended
    rw [hr]
    exact ((hresult ha).1 u t hx).1
  | error e t => exact ⟨hrec hf, fun ha => ((hresult ha).2 e t hx).1, fun ha => ((hresult ha).2 e t hx).2⟩

lemma served_session (r : Relay) (x : EStateM.Result StreamEnd Stream Unit) : (r.served x).session = r.session := by
  cases x <;> rfl

lemma Relayed.wp_exec (h : r.session.Fits → Relayed file r) {l : RelayLabel} (he : (relay file).enabled r l)
    (hl : l.Whole) : wp ((relay file).exec l) (fun _ r' => r'.session.Fits → Relayed file r')
      (fun _ r' => r'.Kept file) r := by
  have hrecorded : r.session.Fits → Recorded file r.recording := fun hf => (h hf).recorded
  cases l with
  | others ls =>
    apply wp_others hrecorded
    · exact fun q hq hl => Relayed.recording h hq hl
    · exact fun e q hl => Relayed.later h hl
  | serve ls₁ ls₂ ls₃ ls₄ count interrupts send seeks =>
    show wp (relayRound file ls₁ ls₂ ls₃ ls₄ count interrupts send seeks) _ _ r
    simp only [relayRound, lastDownloaded, readFile, wp_bind, wp_get, wp_pure]
    apply wp_others hrecorded
    · intro q₁ h₁ hl₁
      apply wp_others (r := { r with recording := q₁ }) h₁
      · intro q₂ h₂ hl₂
        apply wp_others (r := { r with recording := q₂ }) h₂
        · intro q₃ h₃ hl₃
          apply wp_others (r := { r with recording := q₃ }) h₃
          · intro q₄ h₄ hl₄
            rw [wp_ensure]
            refine ⟨fun hc hf => ?_, fun _ => ?_⟩
            · rw [served_session] at hf
              exact Relayed.round (r := r) h he h₃ h₄ hl₁ hl₂ hl₃ hl₄ rfl rfl rfl rfl hc hl hf
            · exact Relayed.later (r := r) h (((hl₁.trans hl₂).trans hl₃).trans hl₄)
          · exact fun e q₄ hl₄ => Relayed.later (r := r) h (((hl₁.trans hl₂).trans hl₃).trans hl₄)
        · exact fun e q₃ hl₃ => Relayed.later (r := r) h ((hl₁.trans hl₂).trans hl₃)
      · exact fun e q₂ hl₂ => Relayed.later (r := r) h (hl₁.trans hl₂)
    · exact fun e q₁ hl₁ => Relayed.later (r := r) h hl₁

end

/-- As long as requests and responses do not cross and no share overflows, whatever was written to the file
is right, and a complete file is the one on the servers. -/
theorem recorded_right {file : List UInt8} {q : Recording} (h : Reachable (recording file) (fun _ => True) q)
    (hf : q.session.Fits) (ha : q.session.All Event.InOrder) :
    (∀ b, 0 < cover q.session.outfile b → q.disk b = byteAt file b) ∧
      (q.session.ready = .complete → q.content = file) := by
  have hrec := Recording.Reached.recorded h hf
  refine ⟨hrec.disk ha, fun hc => hrec.content_eq ha ?_⟩
  have hreached := hrec.processed.reached
  exact (hreached.inv hf).rep.completeTo_size ((hreached.thrifty hf).complete hc)

/-- The client has a prefix of the file, no more than was announced and all of it at the end. -/
structure Relay.Sent (file : List UInt8) (r : Relay) : Prop where
  pre : r.stream.accepted <+: file
  announced : r.stream.accepted.length ≤ r.session.lastDownloadedByte
  whole : r.ended = some .finished → r.stream.accepted = file
  sane : r.ended ≠ some .overflow ∧ r.ended ≠ some .assertion

lemma Relay.Kept.sent {file : List UInt8} {r : Relay} (h : r.Kept file) (hfits : r.session.Fits)
    (ha : r.session.All Event.Straight) : r.Sent file := by
  obtain ⟨hfate, hlast⟩ := h hfits ha
  have hf := hfate.faithful
  refine ⟨hf.pre, hf.limit.trans hlast, fun he => ?_, fun he => ?_, fun he => ?_⟩
  · rw [he] at hfate
    exact hfate.2
  · rw [he] at hfate
    exact hfate
  · rw [he] at hfate
    exact hfate

/-- From the servers to the client: in whatever order the threads take their steps, as long as no share
overflows, the client that takes all it is offered receives the file as the servers have it, from its start,
also when the download crashes. -/
theorem relay_faithful (file : List UInt8) :
    (∀ r, Reachable (relay file) RelayLabel.Whole r → r.session.Fits → r.session.All Event.Straight →
      r.Sent file) ∧
      ∀ e r, Crashes (relay file) RelayLabel.Whole e r → r.session.Fits → r.session.All Event.Straight →
        r.Sent file := by
  refine ⟨fun r h hf ha => ?_, fun e r h hf ha => ?_⟩
  · have hr : r.session.Fits → Relayed file r :=
      h.invariant (I := fun r : Relay => r.session.Fits → Relayed file r) (fun _ hs _ => relayed_of_start hs)
        fun _ _ hr he hl => wp_mono (Relayed.wp_exec hr he hl) (fun _ _ h => h) fun _ _ _ => trivial
    exact (Relayed.kept hr).sent hf ha
  · have hk : r.Kept file := h.invariant (I := fun r : Relay => r.session.Fits → Relayed file r)
      (C := fun _ r => r.Kept file) (fun _ hs _ => relayed_of_start hs) fun _ _ hr he hl =>
        Relayed.wp_exec hr he hl
    exact hk.sent hf ha

/-! ### A run -/

instance : DecidablePred Event.Timely := fun _ => inferInstanceAs (Decidable (_ ∧ _))

instance : DecidablePred Event.Straight := fun _ => inferInstanceAs (Decidable (_ ∧ _))

instance (r : Relay) : DecidablePred (RelayLabel.Enabled r)
  | .others _ => isTrue trivial
  | .serve _ _ _ _ _ _ _ _ => inferInstanceAs (Decidable (_ = _))

instance (file : List UInt8) (r : Relay) (l : RelayLabel) : Decidable ((relay file).enabled r l) :=
  inferInstanceAs (Decidable (RelayLabel.Enabled r l))

/-- A step of which everything is known. -/
def plainStep (l : ProcessLabel) : RecordLabel := ⟨l, fun _ => 0, 0⟩

def sixteen : List UInt8 := [1, 2, 3, 4, 5, 6, 7, 8, 9, 10, 11, 12, 13, 14, 15, 16]

def firstRecording : Recording := ⟨startedProcess plainConf 16, fun _ => 0⟩

lemma firstRecording_start : (recording sixteen).start firstRecording :=
  ⟨plainProcess_start, by decide +kernel⟩

theorem recorded_right_of_rounds : ∃ q : Recording, q.session.ready = .complete ∧ q.disk 9 = 10 ∧
    (∀ b, 0 < cover q.session.outfile b → q.disk b = byteAt sixteen b) ∧
      (q.session.ready = .complete → q.content = sixteen) := by
  obtain ⟨q, hq, hf, ha, hc, hd⟩ := exists_of_ends (N := recording sixteen) (.start firstRecording_start)
    (twoRounds.map plainStep) (fun _ _ => trivial)
    (P := fun q => q.session.Fits ∧ q.session.All Event.InOrder ∧ q.session.ready = .complete ∧
      q.disk 9 = 10) (by decide +kernel)
  exact ⟨q, hc, hd, recorded_right hq hf ha⟩

def halfRounds : List ProcessLabel :=
  (upSteps .lte ++ upSteps .wifi).map .other ++ readRound 4 4 ++ [.announce]

/-- The second half of the file comes in between two looks of a round. -/
def relaySteps : List RelayLabel :=
  [.others (halfRounds.map plainStep),
    .serve [] ((twoRounds.drop halfRounds.length).map plainStep) [] [] 16 1 (.accepted 16) true,
    .serve [] [] [] [] 0 0 (.accepted 0) true]

theorem relay_faithful_of_rounds : ∃ r : Relay, r.ended = some .finished ∧ r.Sent sixteen := by
  have hstart : (relay sixteen).start ⟨firstRecording, ⟨0, 0, [], 0⟩, none⟩ := ⟨firstRecording_start, rfl, rfl⟩
  have hwhole : ∀ l ∈ relaySteps, l.Whole := by
    simp [relaySteps, RelayLabel.Whole, bufFileBufSize]
  obtain ⟨r, hr, hf, ha, he⟩ := exists_of_ends (N := relay sixteen) (.start hstart) relaySteps hwhole
    (P := fun r => r.session.Fits ∧ r.session.All Event.Straight ∧ r.ended = some .finished) (by decide +kernel)
  exact ⟨r, he, (relay_faithful sixteen).1 r hr hf ha⟩

end GreenBag
