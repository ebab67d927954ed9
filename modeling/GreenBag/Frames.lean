import GreenBag.Quiet

/-! What the invariants depend on: frame lemmas for steps that change some connections and add to the
trace. -/

namespace GreenBag

open Programs Ranges Schedules Function

/-- The same but for what the schedule does not depend on. -/
structure Alike (s t : Gb) : Prop where
  conf : t.conf = s.conf
  size : t.size = s.size
  bytesDone : t.bytesDone = s.bytesDone
  outfile : t.outfile = s.outfile
  currentbyte : ∀ i, (t.conn i).currentbyte = (s.conn i).currentbyte
  lastbyte : ∀ i, (t.conn i).lastbyte = (s.conn i).lastbyte
  flag : ∀ i, 2 ≤ (s.parts i).length → (s.conn i).pipelineRequestsSent →
    (t.conn i).pipelineRequestsSent
  linked : s.offsetInfo.Linked → t.offsetInfo.Linked
  parts : ∀ i, t.parts i = s.parts i
  first : ∀ i, firstWith i t.offsetInfo.segments = firstWith i s.offsetInfo.segments
  connection : t.offsetInfo.connection = s.offsetInfo.connection
  initSegSize : t.offsetInfo.initSegSize = s.offsetInfo.initSegSize
  lastSegOffset : t.offsetInfo.lastSegOffset = s.offsetInfo.lastSegOffset
  remaining : t.offsetInfo.remainingChunks = s.offsetInfo.remainingChunks

section Alike

variable {φ : Phase} {s t : Gb}

lemma queueOf_congr {c c' : Conn} (hc : c'.currentbyte = c.currentbyte)
    (hl : c'.lastbyte = c.lastbyte) (ps : List Subsegment) : queueOf c' ps = queueOf c ps := by
  cases ps <;> simp only [queueOf, hc, hl]

lemma Alike.queue (h : Alike s t) (i : Link) : t.queue i = s.queue i := by
  rw [Gb.queue, Gb.queue, h.parts]
  exact queueOf_congr (h.currentbyte i) (h.lastbyte i) _

lemma Alike.frontier (h : Alike s t) : t.frontier = s.frontier := by
  simp only [Gb.frontier, h.lastSegOffset]

lemma Alike.schedule (h : Alike s t) : t.schedule φ = s.schedule φ := by
  simp only [Gb.schedule, h.queue, h.size, h.outfile, h.frontier]

lemma Alike.placeholder (h : Alike s t) (i : Link) : t.Placeholder i ↔ s.Placeholder i := by
  simp only [Gb.Placeholder, h.connection, h.currentbyte, h.lastbyte, h.size]

lemma Alike.completeTo (h : Alike s t) (value : ℤ) : t.CompleteTo value ↔ s.CompleteTo value := by
  simp only [Gb.CompleteTo, h.size, h.outfile]

lemma Alike.rep (h : Alike s t) (hr : Rep φ s) : Rep φ t := by
  refine ⟨h.conf ▸ hr.two, h.conf ▸ hr.rates, h.initSegSize ▸ hr.initSegSize, h.linked hr.linked,
    h.remaining.trans hr.remaining, ?_, fun i => ?_, fun i hi => ?_, ?_, ?_, ?_, ?_⟩
  · rw [h.frontier, h.lastSegOffset, h.size]
    exact hr.frontier
  · obtain ⟨hg, hc, hf, hz⟩ := hr.lane i
    rw [h.frontier, h.outfile, h.parts]
    refine ⟨hg, fun p qs d ds hp hd => ?_, fun hl => h.flag i hl (hf hl), hz⟩
    rw [h.currentbyte, h.lastbyte]
    exact hc p qs d ds hp hd
  · rw [h.connection, h.first]
    exact hr.pointer i hi
  · have hfit := hr.fits
    cases φ with
    | rest => trivial
    | reading i => simpa only [Phase.Fits, h.parts] using hfit
    | robbing i held =>
      simpa only [Phase.Fits, h.parts, h.frontier, h.currentbyte, h.lastbyte] using hfit
  · rw [h.schedule]
    exact hr.load
  · rw [h.outfile, h.size]
    exact hr.written
  · rw [h.outfile, h.bytesDone]
    exact hr.bytesDone

lemma Alike.whole (h : Alike s t) (hw : Whole φ s) : Whole φ t := by
  refine ⟨?_, fun i hi hp => ?_, ?_⟩
  · rw [h.schedule]
    exact hw.balanced
  · rw [h.parts] at hp
    rw [h.placeholder, Conn.looksIdle, h.currentbyte, h.lastbyte]
    exact hw.idle i hi hp
  · simpa only [h.placeholder] using hw.working

end Alike

section Trace

variable {s t : Session} {es : List Event} {P : Event → Prop}

lemma all_append_iff (h : t.trace = es ++ s.trace) : t.All P ↔ (∀ e ∈ es, P e) ∧ s.All P := by
  simp only [Session.All, h, List.forall_mem_append]

/-- A step that neither computes an in-order offset nor announces one. -/
lemma Log.extend (h : Log s) (ht : t.trace = es ++ s.trace) (hq : ∀ e ∈ es, ¬ e.Quiet)
    (hr : t.ready = .no → s.ready = .no ∧ ∀ e ∈ es, e.WritesAll) (hrun : t.run → s.run)
    (hsize : t.size = s.size) (hin : t.inorderOffset = s.inorderOffset)
    (hlast : t.lastDownloadedByte = s.lastDownloadedByte)
    (hc : ∀ value, s.CompleteTo value → t.CompleteTo value)
    (hp : (∃ i, s.Placeholder i) → s.CompleteTo s.size → ∃ i, t.Placeholder i) : Log t := by
  have hmem : ∀ e : Event, e.Quiet → e ∈ t.trace → e ∈ s.trace := by
    intro e he hm
    rw [ht] at hm
    exact (List.mem_append.mp hm).resolve_left (fun hm => hq e hm he)
  have hall : ∀ {P : Event → Prop}, t.All P → s.All P := fun ha => ((all_append_iff ht).mp ha).2
  refine ⟨fun hn => (all_append_iff ht).mpr ⟨(hr hn).2, h.noFailure (hr hn).1⟩, ?_, ?_, ?_, ?_⟩
  · exact fun ha s' held value hm => h.guess (hall ha) s' held value (hmem _ trivial hm)
  · intro ha
    obtain ⟨h₁, h₂, h₃⟩ := h.complete (hall ha)
    rw [hin, hsize]
    exact ⟨hc _ h₁, h₂, fun he => hp (h₃ he) (he ▸ h₁)⟩
  · rw [hin, hlast]
    exact fun hn hu => h.order (hr hn).1 (hrun hu)
  · exact fun ha s' value hm => h.announced (hall ha) s' value (hmem _ trivial hm)

lemma Told.extend (h : Told s) (ht : t.trace = es ++ s.trace)
    (hg : ∀ s' site i a b, .get s' site i a b ∈ es → (ExactGet s' i a b ↔ PlainGet s' site i b))
    (hh : t.All Event.InOrder → ∀ s' site i reply, .header s' site i reply ∈ es →
      (s'.conn i).outstanding ≠ [])
    (hw : t.All (fun e => e.Alone ∧ e.Accepted) → ∀ s' i r, .wrote s' i r ∈ es → s'.Reads i)
    (hs : ∀ e ∈ es, e.Sound) : Told t := by
  have hall : ∀ {P : Event → Prop}, t.All P → s.All P := fun ha => ((all_append_iff ht).mp ha).2
  refine ⟨?_, ?_, ?_, (all_append_iff ht).mpr ⟨hs, h.sound⟩⟩ <;> rw [ht]
  · intro s' site i a b hm
    exact (List.mem_append.mp hm).elim (hg s' site i a b) (h.gets s' site i a b)
  · intro ha s' site i reply hm
    exact (List.mem_append.mp hm).elim (hh ha s' site i reply)
      (h.awaited (hall ha) s' site i reply)
  · intro ha s' i r hm
    exact (List.mem_append.mp hm).elim (hw ha s' i r) (h.wrote (hall ha) s' i r)

variable {φ φ' : Phase} {i : Link}

/-- The connection is where it was on the wire; only the cursor and what is outstanding move. -/
lemma Wire.carry (h : Wire φ s i) (ht : t.trace = es ++ s.trace) (hp : t.parts i = s.parts i)
    (hflag : (t.conn i).pipelineRequestsSent = (s.conn i).pipelineRequestsSent)
    (hthread : (t.conn i).setupThread = (s.conn i).setupThread)
    (hfd : (t.conn i).fd = (s.conn i).fd) (hstate : (t.conn i).state = (s.conn i).state)
    (hresponse : (t.conn i).response = (s.conn i).response)
    (hact : Active φ' t.toGb i → Active φ s.toGb i)
    (haligned : t.All Event.InOrder → Active φ' t.toGb i ∨ (t.conn i).setupThread = .requested →
      (t.conn i).outstanding = t.wanted i)
    (hidle : t.All Event.InOrder → t.parts i = [] → (t.conn i).outstanding = []) :
    Wire φ' t i := by
  have hall : ∀ {P : Event → Prop}, t.All P → s.All P := fun ha => ((all_append_iff ht).mp ha).2
  refine ⟨?_, ?_, ?_, ?_, haligned, hidle, ?_⟩
  · rw [hflag, hp]
    exact fun ha => h.flag (hall ha)
  · rw [hthread, hfd]
    exact fun ha hi => h.calm (hall ha) (hact hi)
  · rw [hthread, hstate]
    exact fun ha => h.state (hall ha)
  · rw [hthread, hfd, hp]
    exact fun ha => h.requested (hall ha)
  · rw [Gb.Reads, hresponse]
    exact fun ha hi => h.reads (hall ha) (hact hi)

lemma Wire.frame (h : Wire φ s i) (ht : t.trace = es ++ s.trace) (hc : t.conn i = s.conn i)
    (hp : t.parts i = s.parts i) (hb : φ'.Busy i → φ.Busy i) : Wire φ' t i := by
  have hall : ∀ {P : Event → Prop}, t.All P → s.All P := fun ha => ((all_append_iff ht).mp ha).2
  have hact : Active φ' t.toGb i → Active φ s.toGb i := by
    rw [Active, hc]
    exact Or.imp id hb
  have hwant : t.wanted i = s.wanted i := by rw [Gb.wanted, Gb.wanted, Gb.queue, Gb.queue, hc, hp]
  refine h.carry ht hp ?_ ?_ ?_ ?_ ?_ hact ?_ ?_ <;> rw [hc]
  · rw [hwant]
    exact fun ha hi => h.aligned (hall ha) (hi.imp hact id)
  · rw [hp]
    exact fun ha => h.idle (hall ha)

end Trace

/-- Only one connection and its parts changed, and some events were added that neither compute an
in-order offset nor announce one nor tell of a failed write. -/
structure Apart (j : Link) (es : List Event) (s t : Session) : Prop where
  conf : t.conf = s.conf
  size : t.size = s.size
  bytesDone : t.bytesDone = s.bytesDone
  outfile : t.outfile = s.outfile
  ready : t.ready = s.ready
  run : t.run = s.run
  inorderOffset : t.inorderOffset = s.inorderOffset
  lastDownloadedByte : t.lastDownloadedByte = s.lastDownloadedByte
  initSegSize : t.offsetInfo.initSegSize = s.offsetInfo.initSegSize
  lastSegOffset : t.offsetInfo.lastSegOffset = s.offsetInfo.lastSegOffset
  remaining : t.offsetInfo.remainingChunks = s.offsetInfo.remainingChunks
  linked : t.offsetInfo.Linked
  conn : ∀ k, k ≠ j → t.conn k = s.conn k
  parts : ∀ k, k ≠ j → t.parts k = s.parts k
  first : ∀ k, k ≠ j → firstWith k t.offsetInfo.segments = firstWith k s.offsetInfo.segments
  connection : ∀ k, k ≠ j → t.offsetInfo.connection k = s.offsetInfo.connection k
  trace : t.trace = es ++ s.trace
  loud : ∀ e ∈ es, ¬ e.Quiet ∧ e.WritesAll

namespace Apart

variable {j : Link} {es : List Event} {s t : Session} {φ φ' : Phase}

lemma of_besides (es : List Event) {q : OffsetInfo} {c : Conn} (hq : s.offsetInfo.Besides j q)
    (ht : t = { s with trace := es ++ s.trace, conn := update s.conn j c, offsetInfo := q })
    (hloud : ∀ e ∈ es, ¬ e.Quiet ∧ e.WritesAll) : Apart j es s t := by
  subst ht
  exact ⟨rfl, rfl, rfl, rfl, rfl, rfl, rfl, rfl, hq.initSegSize, hq.lastSegOffset, hq.remaining,
    hq.linked, fun k hk => update_of_ne hk .., fun k hk => (hq.others k hk).1,
    fun k hk => (hq.others k hk).2, hq.connection, rfl, hloud⟩

lemma frontier (h : Apart j es s t) : t.frontier = s.frontier := by
  simp only [Gb.frontier, h.lastSegOffset]

lemma queue (h : Apart j es s t) {k : Link} (hk : k ≠ j) : t.queue k = s.queue k := by
  rw [Gb.queue, Gb.queue, h.parts k hk, h.conn k hk]

lemma placeholder (h : Apart j es s t) {k : Link} (hk : k ≠ j) :
    t.Placeholder k ↔ s.Placeholder k := by
  simp only [Gb.Placeholder, h.connection k hk, h.conn k hk, h.size]

lemma completeTo (h : Apart j es s t) (value : ℤ) : t.CompleteTo value ↔ s.CompleteTo value := by
  simp only [Gb.CompleteTo, h.size, h.outfile]

lemma all (h : Apart j es s t) {P : Event → Prop} (ha : t.All P) : s.All P :=
  ((all_append_iff h.trace).mp ha).2

lemma rep (h : Apart j es s t) (hr : Rep φ s.toGb)
    (hφ : ∀ k, k ≠ j → φ'.slack k = φ.slack k ∧ φ'.heldFrom k = φ.heldFrom k)
    (hlane : Lane t.frontier (φ'.slack j) t.outfile (t.conn j) (t.parts j))
    (hpointer : t.offsetInfo.connection j = firstWith j t.offsetInfo.segments)
    (hfits : φ'.Fits t.toGb) (hload : ∀ b, (t.schedule φ').load b ≤ 1) : Rep φ' t.toGb := by
  refine ⟨h.conf ▸ hr.two, h.conf ▸ hr.rates, h.initSegSize ▸ hr.initSegSize, h.linked,
    h.remaining.trans hr.remaining, ?_, fun k => ?_, fun k hk => ?_, hfits, hload, ?_, ?_⟩
  · rw [h.frontier, h.lastSegOffset, h.size]
    exact hr.frontier
  · by_cases hk : k = j
    · exact hk ▸ hlane
    · rw [h.frontier, h.outfile, h.conn k hk, h.parts k hk, (hφ k hk).1]
      exact hr.lane k
  · by_cases hkj : k = j
    · exact hkj ▸ hpointer
    · rw [h.connection k hkj, h.first k hkj]
      exact hr.pointer k ((hφ k hkj).2 ▸ hk)
  · rw [h.outfile, h.size]
    exact hr.written
  · rw [h.outfile, h.bytesDone]
    exact hr.bytesDone

lemma log (h : Apart j es s t) (hl : Log s)
    (hp : (∃ k, s.Placeholder k) → s.CompleteTo s.size → ∃ k, t.Placeholder k) : Log t :=
  hl.extend h.trace (fun e he => (h.loud e he).1)
    (fun hn => ⟨h.ready ▸ hn, fun e he => (h.loud e he).2⟩) (fun hu => h.run ▸ hu) h.size
    h.inorderOffset h.lastDownloadedByte (fun value => (h.completeTo value).mpr) hp

lemma wire (h : Apart j es s t) (hw : ∀ k, Wire φ s k) (hφ : ∀ k, k ≠ j → φ'.Busy k → φ.Busy k)
    (hj : Wire φ' t j) (k : Link) : Wire φ' t k := by
  by_cases hk : k = j
  · exact hk ▸ hj
  · exact (hw k).frame h.trace (h.conn k hk) (h.parts k hk) (hφ k hk)

lemma goodput (h : Apart j es s t)
    (hg : ∀ k, 0 ≤ (s.conn k).bytesPerSecond ∧ 0 ≤ (s.conn k).bytesDone)
    (hs : (t.conn j).bytesPerSecond = (s.conn j).bytesPerSecond)
    (hb : (t.conn j).bytesDone = (s.conn j).bytesDone) (k : Link) :
    0 ≤ (t.conn k).bytesPerSecond ∧ 0 ≤ (t.conn k).bytesDone := by
  by_cases hk : k = j
  · rw [hk, hs, hb]
    exact hg j
  · rw [h.conn k hk]
    exact hg k

end Apart

end GreenBag
