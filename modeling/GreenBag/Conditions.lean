import GreenBag.Invariants
import GreenBag.Algorithm

/-! What the events of a run say, and what holds of a session as long as they are of the right
kind. -/

namespace GreenBag

open Programs Ranges

def Gb.CompleteTo (s : Gb) (value : ℤ) : Prop :=
  ∀ b, 0 ≤ b → b < value → b < s.size → 0 < cover s.outfile b

/-- What is still to be fetched, wherever it is. -/
def Gb.ahead (s : Gb) (held : List Chunk) : List Range :=
  s.plan .lte ++ s.plan .wifi ++ held.map Chunk.range ++ [s.unassigned]

def Gb.NothingBefore (s : Gb) (held : List Chunk) (value : ℤ) : Prop :=
  ∀ r ∈ s.ahead held, r.first ≤ r.last → value ≤ r.first

/-- Where both connections look idle, only the last byte may be missing. Where one does, the other
one's cursor must be the first missing byte. Where none does, no chunk held may lie before all
cursors and chunks that are looked at. -/
def GuessRight (s : Gb) (held : List Chunk) : Prop :=
  if (s.conn .lte).looksIdle then
    if (s.conn .wifi).looksIdle then s.NothingBefore held (s.size - 1)
    else s.NothingBefore held (s.conn .wifi).currentbyte
  else if (s.conn .wifi).looksIdle then s.NothingBefore held (s.conn .lte).currentbyte
  else ∀ c ∈ held, ∃ i, (s.conn i).currentbyte ≤ c.startByte ∨
    ∃ r ∈ (s.plan i).tail, r.first ≤ c.startByte

/-- The request is for what is missing of a chunk of the connection, and its text says so. -/
structure ExactGet (s : Gb) (i : Link) (a b : ℤ) : Prop where
  missing : ∃ c ∈ s.offsetInfo.segments.flatMap (Segment.chunks i), c.startByte ≤ a ∧
    c.lastByte = b ∧ ∀ x ∈ c.range, a ≤ x ↔ cover s.outfile x = 0
  inside : 0 ≤ a ∧ a ≤ b ∧ b ≤ s.size - 1
  text : denotedRange s.size (rangeHeader a b) = some ⟨a, b⟩

def PlainGet (s : Gb) (site : Site) (i : Link) (b : ℤ) : Prop :=
  (site = .setupThread → s.offsetInfo.connection i ≠ none) ∧ (b ≠ 0 ∨ s.size = 1)

/-- The rule of `conn_exec`, for a connection with the given status before. -/
def Accepts (status : ℤ) (headers : List UInt8) : Prop :=
  10 ∈ headers ∧ ((scanStatus headers).getD status).tdiv 100 = 2

instance (status : ℤ) (headers : List UInt8) : Decidable (Accepts status headers) :=
  inferInstanceAs (Decidable (_ ∧ _))

/-- What holds of a session where a connection plans its next segment. -/
structure Planning (i : Link) (s : Gb) : Prop where
  rep : Rep (.reading i) s
  goodput : ∀ j, 0 ≤ (s.conn j).bytesPerSecond
  unsent : (s.conn i).pipelineRequestsSent = false

/-- The connection whose share a call of `gb_determine_next_subsegment` computes, and the ratios. -/
def Gb.sharing (s : Gb) (mode : LinkMode) (i : Link) : Link × ℤ × ℤ :=
  match mode with
  | .single j => (j, 1, 0)
  | .dual =>
    if s.conf.fixedSubsegmentMode then (i, s.conf.initialChunkRate i, s.conf.initialChunkRate i.other)
    else (i, (s.conn i).bytesPerSecond, (s.conn i.other).bytesPerSecond)

/-- Nothing is too large for its type where such a call computes the share. -/
def Gb.SharesFit (s : Gb) (mode : LinkMode) (i : Link) : Prop :=
  ∀ g ∈ s.offsetInfo.tail.bind s.offsetInfo.deref, s.ShareFits g (s.sharing mode i).1
    (s.sharing mode i).2.1 (s.sharing mode i).2.2 s.conf.fixedSubsegmentMode

/-- No connection is planned to fetch less than nothing. -/
def Gb.Weighed (s : Gb) : Prop :=
  ∀ i, (s.offsetInfo.connection i ≠ none → 0 ≤ (s.conn i).lastbyte - (s.conn i).currentbyte + 1) ∧
    ∀ p ∈ s.parts i, 0 ≤ p.size

/-- The tail segment, with which `add_new_subsegment` works. -/
structure IsTail (front : List Segment) (g : Segment) (s : Gb) : Prop where
  linked : s.offsetInfo.Linked
  segments : s.offsetInfo.segments = front ++ [g]
  valid : ∀ c ∈ g.chunkList, c.Valid
  ascending : Ascending g.chunkList
  size : g.size = sizeSum g.chunkList

structure AtTail (front : List Segment) (g : Segment) (s : Gb) : Prop extends IsTail front g s where
  weighed : g.recoverySegment = false → s.Weighed

/-- A tail segment none of which is dealt out yet. -/
structure TailReady (i : Link) (front : List Segment) (g : Segment) (s : Gb) : Prop
    extends AtTail front g s where
  bare : g.subsegment = fun _ => none
  nonempty : g.chunkList ≠ []
  goodput : ∀ j, 0 ≤ (s.conn j).bytesPerSecond
  planning : g.recoverySegment = false → Planning i s

namespace Event

def WritesAll : Event → Prop
  | writeFailed _ _ => False
  | _ => True

def GuessesRight : Event → Prop
  | inorder s held _ => GuessRight s held
  | _ => True

/-- A last announcement is made only when all bytes are done. -/
def AnnouncedInTime : Event → Prop
  | announced s _ => s.ready = .no ∧ s.run ∨ s.bytesDone = s.size
  | _ => True

/-- A connection that comes back gets its header. -/
def Served : Event → Prop
  | header _ .idleConn _ reply => (readHeaderBlock 0 [] reply).isSome
  | header _ .recoveredConn _ reply => (readHeaderBlock 0 [] reply).isSome
  | _ => True

/-- No setup thread runs where a pipelined header is awaited. -/
def Alone : Event → Prop
  | header _ .setupThread _ _ => True
  | header s _ i _ => (s.conn i).setupThread = .none
  | _ => True

/-- A setup thread asks for all its connection has to fetch, on a connection where nothing is
outstanding; a pipelined request goes to a socket; no setup thread runs where chunks are taken
away. -/
def Ordered : Event → Prop
  | get s .setupThread i a b => s.plan i = [⟨a, b⟩] ∧ (s.conn i).outstanding = [] ∧
      (b ≠ 0 ∨ s.size = 1)
  | get s _ i _ b => (s.conn i).fd = .socket ∧ (b ≠ 0 ∨ s.size = 1)
  | stolen s i => (s.conn i).setupThread = .none
  | _ => True

/-- The condition under which requests and responses do not cross. -/
def InOrder (e : Event) : Prop := e.WritesAll ∧ e.Served ∧ e.Alone ∧ e.Ordered

/-- A pipelined header block that ends is one that `conn_exec` would accept. -/
def Accepted : Event → Prop
  | header _ .setupThread _ _ => True
  | header s _ i reply => ∀ headers, readHeaderBlock 0 [] reply = some headers →
      Accepts (s.conn i).status headers
  | _ => True

/-- The functions of a planning step are called in the states they are made for. -/
def Sound : Event → Prop
  | called s (.nextSubsegment _) i => ∃ front g, TailReady i front g s
  | called s _ i => Planning i s
  | stolen s i => Planning i.other s ∧ s.parts i ≠ []
  | _ => True

/-- No share overflows. -/
def SharesFit : Event → Prop
  | called s (.nextSubsegment mode) i => s.SharesFit mode i
  | _ => True

/-- Only the offsets are computed or announced, or a function is called. -/
def Quiet : Event → Prop
  | inorder _ _ _ => True
  | announced _ _ => True
  | called _ _ _ => True
  | _ => False

end Event

section Decidable

variable (s : Gb) (held : List Chunk)

instance (value : ℤ) : Decidable (s.NothingBefore held value) :=
  inferInstanceAs (Decidable (∀ r ∈ _, _))

instance : Decidable (GuessRight s held) := by
  unfold GuessRight
  infer_instance

instance : DecidablePred Event.WritesAll := fun e => by
  cases e <;> unfold Event.WritesAll <;> infer_instance

instance : DecidablePred Event.GuessesRight := fun e => by
  cases e <;> unfold Event.GuessesRight <;> infer_instance

instance : DecidablePred Event.AnnouncedInTime := fun e => by
  cases e <;> unfold Event.AnnouncedInTime <;> infer_instance

instance : DecidablePred Event.Served := fun e => by
  rcases e with _ | _ | _ | _ | _ | ⟨_, site, _, _⟩ | _ | _ <;> try cases site
  all_goals unfold Event.Served; infer_instance

instance : DecidablePred Event.Alone := fun e => by
  rcases e with _ | _ | _ | _ | _ | ⟨_, site, _, _⟩ | _ | _ <;> try cases site
  all_goals unfold Event.Alone; infer_instance

instance : DecidablePred Event.Ordered := fun e => by
  rcases e with _ | _ | _ | _ | ⟨_, site, _, _, _⟩ | _ | _ | _ <;> try cases site
  all_goals unfold Event.Ordered; infer_instance

instance (g : Segment) (i : Link) (r q : ℤ) (fixed : Bool) : Decidable (s.ShareFits g i r q fixed) :=
  inferInstanceAs (Decidable (PortionFits _ _ _))

instance (mode : LinkMode) (i : Link) : Decidable (s.SharesFit mode i) :=
  inferInstanceAs (Decidable (∀ g ∈ _, _))

instance : DecidablePred Event.SharesFit := fun e => by
  unfold Event.SharesFit
  split <;> infer_instance

instance : DecidablePred Event.InOrder := fun _ => inferInstanceAs (Decidable (_ ∧ _ ∧ _ ∧ _))

end Decidable

/-- All events so far are of a kind. -/
def Session.All (s : Session) (P : Event → Prop) : Prop := ∀ e ∈ s.trace, P e

instance (s : Session) (P : Event → Prop) [DecidablePred P] : Decidable (s.All P) :=
  inferInstanceAs (Decidable (∀ e ∈ s.trace, P e))

/-- Integers are read as exact, or no share of the run overflows. -/
def Session.Fits (s : Session) : Prop := s.exact ∨ s.All Event.SharesFit

instance Session.instDecidableFits (s : Session) : Decidable s.Fits := inferInstanceAs (Decidable (_ ∨ _))

/-- The invariants about the in-order offset and what is announced. -/
structure Log (s : Session) : Prop where
  noFailure : s.ready = .no → s.All Event.WritesAll
  guess : s.All Event.WritesAll → ∀ s' held value, .inorder s' held value ∈ s.trace →
    (s'.CompleteTo value ↔ GuessRight s' held)
  complete : s.All (fun e => e.WritesAll ∧ e.GuessesRight) →
    s.CompleteTo s.inorderOffset ∧ s.inorderOffset ≤ s.size ∧
      (s.inorderOffset = s.size → ∃ i, s.Placeholder i)
  order : s.ready = .no → s.run → s.lastDownloadedByte ≤ s.inorderOffset
  announced : s.All (fun e => e.GuessesRight ∧ e.AnnouncedInTime) →
    ∀ s' value, .announced s' value ∈ s.trace → s'.CompleteTo value ∧ value ≤ s'.size

/-- What a server still has to send, a chunk read to its end left out. -/
def Gb.wanted (s : Gb) (i : Link) : List Range :=
  (s.queue i).dropWhile (fun r => r.last < r.first)

/-- The connection can be read, or is being handled. -/
def Active (φ : Phase) (s : Gb) (i : Link) : Prop := (s.conn i).enabled ∨ φ.Busy i

/-- The body being read belongs to a response that `conn_exec` would have accepted. -/
def Gb.Reads (s : Gb) (i : Link) : Prop :=
  ∃ r, (s.conn i).response = some r ∧ Accepts r.status r.block

/-- What was asked for, awaited and written so far. -/
structure Told (s : Session) : Prop where
  gets : ∀ s' site i a b, .get s' site i a b ∈ s.trace → (ExactGet s' i a b ↔ PlainGet s' site i b)
  awaited : s.All Event.InOrder → ∀ s' site i reply, .header s' site i reply ∈ s.trace →
    (s'.conn i).outstanding ≠ []
  wrote : s.All (fun e => e.Alone ∧ e.Accepted) → ∀ s' i r, .wrote s' i r ∈ s.trace → s'.Reads i
  sound : s.All Event.Sound

/-- The invariants about the requests and responses of a connection. -/
structure Wire (φ : Phase) (s : Session) (i : Link) : Prop where
  flag : s.All Event.Served → s.parts i ≠ [] → (s.conn i).pipelineRequestsSent →
    2 ≤ (s.parts i).length
  calm : s.All Event.Alone → Active φ s.toGb i →
    (s.conn i).setupThread = .none ∧ (s.conn i).fd ≠ .closed
  state : s.All Event.Alone → (s.conn i).setupThread ≠ .none → (s.conn i).state
  requested : s.All Event.InOrder → (s.conn i).setupThread = .requested →
    (s.conn i).fd = .socket ∧ s.parts i ≠ []
  aligned : s.All Event.InOrder → Active φ s.toGb i ∨ (s.conn i).setupThread = .requested →
    (s.conn i).outstanding = s.wanted i
  idle : s.All Event.InOrder → s.parts i = [] → (s.conn i).outstanding = []
  reads : s.All (fun e => e.Alone ∧ e.Accepted) → Active φ s.toGb i → s.Reads i

/-- All that holds of a session in a phase of a handling. -/
structure Inv (φ : Phase) (s : Session) : Prop where
  rep : Rep φ s.toGb
  goodput : ∀ i, 0 ≤ (s.conn i).bytesPerSecond ∧ 0 ≤ (s.conn i).bytesDone
  whole : s.All Event.WritesAll → Whole φ s.toGb
  log : Log s
  told : Told s
  wire : ∀ i, Wire φ s i

/-- The calls were made in the states they are made for, and the in-order offsets are as good as the
guesses. -/
structure Sincere (trace : List Event) : Prop where
  sound : ∀ e ∈ trace, e.Sound
  guess : (∀ e ∈ trace, e.WritesAll) → ∀ s held value, .inorder s held value ∈ trace →
    (s.CompleteTo value ↔ GuessRight s held)

lemma Inv.sincere {φ : Phase} {s : Session} (h : Inv φ s) : Sincere s.trace :=
  ⟨h.told.sound, h.log.guess⟩

/-- What a crash means, for the faults that have a meaning. -/
def Reason : Fault → Session → Prop
  | .assertInorder, t => ¬ t.All (fun e => e.WritesAll ∧ e.GuessesRight)
  | .assertLastDownloaded, _ => False
  | .assertIdle, _ => False
  | .nullNextSegment, t => ¬ t.All Event.Served
  | _, _ => True

/-- What holds of a session that crashed. -/
def Sane (e : Fault) (t : Session) : Prop := Sincere t.trace ∧ Reason e t

end GreenBag
