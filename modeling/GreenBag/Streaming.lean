import GreenBag.Machines

/-! The loop of `send_remote_file`, which sends the client what has been downloaded in order. -/

namespace GreenBag

open Programs Machines

/-- Why the loop ends. -/
inductive StreamEnd
  | finished
  | connectionGone
  | seekFailed
  | overflow
  | assertion
  deriving DecidableEq, Repr

/-- The end of a call of `send` that no signal interrupts. -/
inductive SendResult
  | accepted (n : ℕ)
  | gone
  deriving DecidableEq, Repr

/-- What one round of the loop meets. `last_downloaded_byte` is read four times in it: in the test,
in the comparison with the size of the buffer, in the difference, and in the assertion. -/
structure Round where
  tested : ℤ
  compared : ℤ
  taken : ℤ
  asserted : ℤ
  /-- How many bytes `read` returns; 0 where it fails. -/
  read : ℕ
  interrupts : ℕ
  send : SendResult
  seeks : Bool
  deriving DecidableEq, Repr

structure Stream where
  /-- Where the next `read` starts. -/
  position : ℕ
  firstNotSentByte : ℤ
  /-- What the client's socket has accepted. -/
  accepted : List UInt8
  /-- The value of `last_downloaded_byte` that was read last. -/
  lastDownloadedByte : ℤ
  deriving DecidableEq, Repr

abbrev Streaming := EStateM StreamEnd Stream

def bufFileBufSize : ℕ := 128

def look (value : ℤ) : Streaming Unit := modify fun s => { s with lastDownloadedByte := value }

/-- The number of bytes `read` is asked for. -/
def Stream.readSize (s : Stream) (r : Round) : ℤ :=
  if bufFileBufSize ≤ r.compared - s.firstNotSentByte then bufFileBufSize
  else r.taken - s.firstNotSentByte

/-- From `send_again` on, with the number of interrupted calls. -/
def sendAgain (bytes : List UInt8) (r : SendResult) : ℕ → Streaming Unit
  | 0 =>
    match r with
    | .accepted n => modify fun s => { s with accepted := s.accepted ++ bytes.take n }
    | .gone => throw .connectionGone
  | k + 1 => sendAgain bytes r k

def streamRound (file : List UInt8) (r : Round) : Streaming Unit := do
  let s ← get
  look r.tested
  whenever (s.firstNotSentByte ≤ r.tested) do
    look r.compared
    look r.taken
    let bytes := (file.drop s.position).take r.read
    ensure .overflow (bytes.length ≤ bufFileBufSize)
    modify fun s => { s with position := s.position + bytes.length }
    whenever (bytes ≠ []) (sendAgain bytes r.send r.interrupts)
    ensure .finished (s.firstNotSentByte ≠ file.length)
    ensure .seekFailed r.seeks
    modify fun s => { s with firstNotSentByte := s.position }
    look r.asserted
    let s ← get
    ensure .assertion (s.firstNotSentByte ≤ s.lastDownloadedByte)
    ensure .assertion (s.firstNotSentByte ≤ file.length)

/-- `last_downloaded_byte` never falls and stays within the file; `read` returns no more than it was
asked for, and `send` accepts at least one of the bytes it is offered. -/
structure Stream.Meets (file : List UInt8) (s : Stream) (r : Round) : Prop where
  tested : s.lastDownloadedByte ≤ r.tested
  compared : r.tested ≤ r.compared
  taken : r.compared ≤ r.taken
  asserted : r.taken ≤ r.asserted
  size : r.asserted ≤ file.length
  read : s.firstNotSentByte ≤ r.tested → (r.read : ℤ) ≤ s.readSize r
  send : ∀ n, r.send = .accepted n → r.read ≠ 0 → 1 ≤ n ∧ n ≤ r.read

def stream (file : List UInt8) : Machine Stream StreamEnd Round where
  start s := s = ⟨0, 0, [], 0⟩
  enabled s r := s.Meets file r
  exec := streamRound file

/-- The socket accepts all the bytes it is offered, and they fit in the buffer. -/
def Round.Whole (r : Round) : Prop :=
  r.read ≤ bufFileBufSize ∧ ∀ n, r.send = .accepted n → r.read ≤ n

/-- What was accepted is a prefix of the file, and no more than was downloaded. -/
structure Stream.Faithful (file : List UInt8) (s : Stream) : Prop where
  pre : s.accepted <+: file
  limit : s.accepted.length ≤ s.lastDownloadedByte
  whole : s.firstNotSentByte = file.length → s.accepted = file

/-- The client has accepted what was read. -/
structure Stream.Level (file : List UInt8) (s : Stream) : Prop where
  accepted : s.accepted = file.take s.position
  limit : s.position ≤ s.lastDownloadedByte
  size : s.lastDownloadedByte ≤ file.length
  first : s.firstNotSentByte = s.position

section

variable {file : List UInt8} {s t : Stream} {r : Round}

/-- The position has not fallen behind the bytes accepted since the last `lseek`. -/
lemma Stream.faithful_of_take {n : ℕ} (h : t.accepted = file.take n)
    (hn : n ≤ t.lastDownloadedByte) (hf : t.firstNotSentByte ≤ n) : t.Faithful file := by
  refine ⟨?_, ?_, fun he => ?_⟩
  · rw [h]
    exact file.take_prefix n
  · rw [h, List.length_take]
    omega
  · rw [h, List.take_of_length_le (by omega)]

lemma Stream.Level.faithful (h : s.Level file) : s.Faithful file :=
  Stream.faithful_of_take h.accepted h.limit h.first.le

lemma sendAgain_eq (bytes : List UInt8) (r : SendResult) (k : ℕ) :
    sendAgain bytes r k = sendAgain bytes r 0 := by
  induction k with
  | zero => rfl
  | succ k ih => rw [sendAgain, ih]

lemma Stream.Meets.read_le (h : s.Meets file r) (ht : s.firstNotSentByte ≤ r.tested) :
    s.firstNotSentByte + r.read ≤ r.taken := by
  have hr := h.read ht
  have hc := h.taken
  unfold Stream.readSize at hr
  split_ifs at hr <;> omega

/-- Where the bytes that were read are all accepted, the socket has accepted what was read. -/
lemma wp_sendAgain {bytes : List UInt8} {k : ℕ} {post : Unit → Stream → Prop}
    {crash : StreamEnd → Stream → Prop} (hr : ∀ n, r.send = .accepted n → bytes.length ≤ n)
    (hg : crash .connectionGone s)
    (hp : post () { s with accepted := s.accepted ++ bytes }) :
    wp (whenever (bytes ≠ []) (sendAgain bytes r.send k)) post crash s := by
  rw [wp_whenever]
  refine ⟨fun _ => ?_, fun hn => ?_⟩
  · rw [sendAgain_eq]
    cases hs : r.send with
    | accepted n =>
      rw [sendAgain, wp_modify, List.take_of_length_le (hr n hs)]
      exact hp
    | gone => exact hg
  · obtain rfl := not_not.mp hn
    rw [List.append_nil] at hp
    exact hp

lemma take_append_of_prefix {bytes : List UInt8} {n : ℕ} (h : bytes <+: file.drop n) :
    file.take n ++ bytes = file.take (n + bytes.length) := by
  rw [List.take_add, ← List.prefix_iff_eq_take.mp h]

lemma wp_streamRound (h : s.Level file) (hm : s.Meets file r) (hw : r.Whole) :
    wp (streamRound file r) (fun _ t => t.Level file) (fun _ t => t.Faithful file) s := by
  have hread := hm.read_le
  obtain ⟨h₁, h₂, h₃, h₄, h₅, -, -⟩ := hm
  simp only [streamRound, look, wp_bind, wp_get, wp_modify]
  rw [wp_whenever]
  refine ⟨fun ht => ?_, fun _ => ⟨h.accepted, h.limit.trans h₁, (by simp only; omega), h.first⟩⟩
  have hread := hread ht
  have hfirst := h.first
  generalize hb : (file.drop s.position).take r.read = bytes
  have hlen : bytes.length ≤ r.read := hb ▸ List.length_take_le _ _
  have htake : s.accepted ++ bytes = file.take (s.position + bytes.length) := by
    rw [h.accepted]
    exact take_append_of_prefix (hb ▸ List.take_prefix _ _)
  simp only [wp_bind, wp_modify, wp_ensure]
  refine ⟨fun _ => ?_, fun hn => absurd (hlen.trans hw.1) hn⟩
  refine wp_sendAgain (fun n hn => hlen.trans (hw.2 n hn)) ?_ ?_
  · exact Stream.faithful_of_take h.accepted (by simp only; omega) hfirst.le
  · have hsent : Stream.Faithful file ⟨s.position + bytes.length, s.firstNotSentByte,
        s.accepted ++ bytes, r.taken⟩ :=
      Stream.faithful_of_take htake (by simp only; omega) (by simp only; omega)
    refine ⟨fun _ => ⟨fun _ => ?_, fun _ => hsent⟩, fun _ => hsent⟩
    have hlevel : Stream.Level file ⟨s.position + bytes.length, (s.position + bytes.length : ℕ),
        s.accepted ++ bytes, r.asserted⟩ :=
      ⟨htake, (by simp only; omega), h₅, rfl⟩
    simp only [wp_get]
    exact ⟨fun _ => ⟨fun _ => hlevel, fun _ => hlevel.faithful⟩, fun _ => hlevel.faithful⟩

/-- Where every `send` accepts all it is offered, the client receives the file from its start. -/
theorem streams_faithfully (file : List UInt8) :
    (∀ s, Reachable (stream file) Round.Whole s → s.Faithful file) ∧
      ∀ e s, Crashes (stream file) Round.Whole e s → s.Faithful file := by
  have hstart : ∀ s, (stream file).start s → s.Level file := by
    rintro s rfl
    exact ⟨rfl, le_rfl, by simp, rfl⟩
  refine ⟨fun s hs => (hs.invariant hstart fun s r hl hm hw => ?_).faithful, fun e s hs => ?_⟩
  · exact wp_mono (wp_streamRound hl hm hw) (fun _ _ h => h) (fun _ _ _ => trivial)
  · exact hs.invariant hstart fun s r hl hm hw => wp_streamRound hl hm hw

/-- A round in which `last_downloaded_byte` does not change. -/
def steadyRound (limit : ℤ) (read n : ℕ) : Round :=
  ⟨limit, limit, limit, limit, read, 0, .accepted n, true⟩

lemma meets_steadyRound {limit : ℤ} {k n : ℕ} (h : s.lastDownloadedByte ≤ limit)
    (hs : limit ≤ file.length) (hk : s.firstNotSentByte + k ≤ limit) (hb : k ≤ bufFileBufSize)
    (hn : k ≠ 0 → 1 ≤ n ∧ n ≤ k) : s.Meets file (steadyRound limit k n) := by
  refine ⟨h, le_rfl, le_rfl, le_rfl, hs, fun _ => ?_, fun m hm => ?_⟩
  · simp only [Stream.readSize, steadyRound]
    split_ifs <;> omega
  · cases hm
    exact hn

end

/-- The second round sends the rest. -/
theorem streams_faithfully_of_three :
    Stream.Faithful [1, 2, 3] ⟨3, 3, [1, 2, 3], 3⟩ := by
  have h₁ : Reachable (stream [1, 2, 3]) Round.Whole ⟨2, 2, [1, 2], 2⟩ :=
    .step (steadyRound 2 2 2) (.start rfl) (meets_steadyRound (by decide) (by decide) (by decide)
      (by decide) (by decide)) ⟨by decide, fun n hn => by cases hn; decide⟩ rfl
  have h₂ : Reachable (stream [1, 2, 3]) Round.Whole ⟨3, 3, [1, 2, 3], 3⟩ :=
    .step (steadyRound 3 1 1) h₁ (meets_steadyRound (by decide) (by decide) (by decide)
      (by decide) (by decide)) ⟨by decide, fun n hn => by cases hn; decide⟩ rfl
  exact (streams_faithfully [1, 2, 3]).1 _ h₂

/-- The client takes one byte of the first two, and the other one is never sent. -/
theorem stream_drops_bytes : ∃ file s, Crashes (stream file) (fun _ => True) .finished s ∧
    s.firstNotSentByte = file.length ∧ ¬ s.accepted <+: file := by
  have h₁ : Reachable (stream [1, 2, 3]) (fun _ => True) ⟨2, 2, [1], 2⟩ :=
    .step (steadyRound 2 2 1) (.start rfl) (meets_steadyRound (by decide) (by decide) (by decide)
      (by decide) (by decide)) trivial rfl
  have h₂ : Reachable (stream [1, 2, 3]) (fun _ => True) ⟨3, 3, [1, 3], 3⟩ :=
    .step (steadyRound 3 1 1) h₁ (meets_steadyRound (by decide) (by decide) (by decide)
      (by decide) (by decide)) trivial rfl
  refine ⟨[1, 2, 3], ⟨3, 3, [1, 3], 3⟩, ⟨_, steadyRound 3 0 1, h₂, ?_, trivial, rfl⟩, rfl, ?_⟩
  · exact meets_steadyRound (by decide) (by decide) (by decide) (by decide) (by decide)
  · decide

end GreenBag
