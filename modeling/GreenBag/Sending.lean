import GreenBag.Handing

/-! The requests for a new segment, and what they make of the connections. -/

namespace GreenBag

open Programs Ranges Schedules Function

/-- The text of a request for missing bytes is right unless the last of them is byte 0. -/
lemma exactGet_iff {s : Gb} {i : Link} {a b : ℤ}
    (hm : ∃ c ∈ s.offsetInfo.segments.flatMap (Segment.chunks i), c.startByte ≤ a ∧
      c.lastByte = b ∧ ∀ x ∈ c.range, a ≤ x ↔ cover s.outfile x = 0)
    (h₀ : 0 ≤ a) (hab : a ≤ b) (hb : b ≤ s.size - 1) :
    ExactGet s i a b ↔ b ≠ 0 ∨ s.size = 1 := by
  have htext : denotedRange s.size (rangeHeader a b) = some ⟨a, b⟩ ↔ b ≠ 0 ∨ s.size = 1 := by
    rw [denotedRange_rangeHeader h₀ (by omega), Option.some.injEq, Range.mk.injEq]
    by_cases h : b = 0
    · simp only [h, ne_eq, not_true_eq_false, if_false, true_and, false_or]
      omega
    · simp only [h, ne_eq, not_false_eq_true, if_true, true_and, true_or, iff_true]
      omega
  exact ⟨fun h => htext.mp h.text, fun h => ⟨hm, ⟨h₀, hab, hb⟩, htext.mpr h⟩⟩

def Gb.withOutstanding (s : Gb) (i : Link) (o : List Range) : Gb :=
  { s with conn := update s.conn i { s.conn i with outstanding := o } }

/-- The events of pipelined requests for the chunks. -/
structure Asked (s : Gb) (i : Link) (cs : List Chunk) (es : List Event) : Prop where
  only : ∀ e ∈ es, ∃ c ∈ cs, ∃ o,
    e = .get (s.withOutstanding i o) .subsegment i c.startByte c.lastByte
  all : ∀ c ∈ cs, ∃ o, .get (s.withOutstanding i o) .subsegment i c.startByte c.lastByte ∈ es

/-- What is outstanding after requests for the chunks. -/
def Conn.asked (c : Conn) (size : ℤ) (cs : List Chunk) : List Range :=
  if c.fd = .socket then
    c.outstanding ++ cs.map (fun d => requestedRange size d.startByte d.lastByte)
  else c.outstanding

lemma wp_gbGetRequests {crash : Fault → Session → Prop} (i : Link) (cs : List Chunk) (s : Session) :
    wp (gbGetRequests i cs) (fun _ t => ∃ es, Asked s.toGb i cs es ∧ t = { s with
      trace := es ++ s.trace
      conn := update s.conn i { s.conn i with outstanding := (s.conn i).asked s.size cs } })
      crash s := by
  induction cs generalizing s with
  | nil =>
    refine ⟨[], ⟨by simp, by simp⟩, ?_⟩
    simp [Conn.asked]
  | cons c cs ih =>
    simp only [gbGetRequests, gbGetRequest, sendGet, wp_bind, wp_logEvent, wp_get, wp_modifyConn]
    refine wp_mono (ih _) ?_ (fun _ _ h => h)
    rintro _ t ⟨es, hes, rfl⟩
    refine ⟨es ++ [.get s.toGb .subsegment i c.startByte c.lastByte], ⟨fun e he => ?_, fun d hd => ?_⟩,
      ?_⟩
    · rcases List.mem_append.mp he with he | he
      · obtain ⟨d, hd, o, rfl⟩ := hes.only e he
        exact ⟨d, List.mem_cons_of_mem _ hd, o, by simp [Gb.withOutstanding]⟩
      · refine ⟨c, List.mem_cons_self, (s.conn i).outstanding, ?_⟩
        rw [List.mem_singleton.mp he]
        simp [Gb.withOutstanding]
    · rcases List.mem_cons.mp hd with rfl | hd
      · exact ⟨(s.conn i).outstanding, by simp [Gb.withOutstanding]⟩
      · obtain ⟨o, ho⟩ := hes.all d hd
        refine ⟨o, List.mem_append_left _ ?_⟩
        simpa [Gb.withOutstanding] using ho
    · simp only [update_self, update_idem, Conn.asked, List.append_assoc, List.singleton_append]
      by_cases hf : (s.conn i).fd = .socket <;> simp [hf]

/-- A request on a closed connection opens it again first. -/
def Conn.reopened (c : Conn) : Conn :=
  if c.fd = .closed then { c with fd := .socket, outstanding := [], response := none } else c

/-- A connection once a subsegment was requested on it. -/
def Conn.sent (c : Conn) (size : ℤ) (cs : List Chunk) : Conn := { c.reopened with
  outstanding := c.reopened.asked size cs, pipelineRequestsSent := true, state := true }

lemma wp_sendHttpRequestForSubsegment {s : Session} {i : Link} (p : Subsegment) (connects : Bool)
    (hi : i ∈ s.links) (hs : Sincere s.trace) :
    wp (sendHttpRequestForSubsegment i (some p) connects) (fun sent t => sent = true ∧ ∃ es,
      Asked { s.toGb with conn := update s.conn i (s.conn i).reopened } i p.chunkList es ∧
        t = { s with
          trace := es ++ s.trace
          conn := update s.conn i ((s.conn i).sent s.size p.chunkList) }) Sane s := by
  have hsend : ∀ u : Session, u = { s with conn := update s.conn i (s.conn i).reopened } →
      wp (gbGetRequests i p.chunkList) (fun _ v => ∃ es,
        Asked { s.toGb with conn := update s.conn i (s.conn i).reopened } i p.chunkList es ∧
          { v with conn := update v.conn i { v.conn i with
              pipelineRequestsSent := true, state := true } } =
            { s with
              trace := es ++ s.trace
              conn := update s.conn i ((s.conn i).sent s.size p.chunkList) }) Sane u := by
    rintro u rfl
    refine wp_mono (wp_gbGetRequests i p.chunkList _) ?_ (fun _ _ h => h)
    rintro _ v ⟨es, hes, rfl⟩
    exact ⟨es, hes, by simp [Conn.sent]⟩
  simp only [sendHttpRequestForSubsegment, connInit, connDisconnect, wp_bind, wp_connAt, hi,
    true_implies, not_true_eq_false, false_implies, and_true, wp_whenever, wp_ite, wp_modifyConn,
    wp_pure, wp_ensure, sane_exit, hs, implies_true, true_and, Bool.false_eq_true]
  refine ⟨fun hc _ => hsend _ (by rw [Conn.reopened, if_pos hc]), fun hc => hsend s ?_⟩
  rw [Conn.reopened, if_neg hc, update_eq_self]

section Asked

variable {s : Gb} {i : Link} {cs : List Chunk} {es : List Event}

lemma Asked.loud (h : Asked s i cs es) : ∀ e ∈ es, ¬ e.Quiet ∧ e.WritesAll := by
  intro e he
  obtain ⟨c, -, o, rfl⟩ := h.only e he
  exact ⟨id, trivial⟩

lemma Asked.sincere {trace : List Event} (h : Asked s i cs es) (ht : Sincere trace) :
    Sincere (es ++ trace) := by
  refine ht.append (fun e he => ?_) fun e he => (h.loud e he).1
  obtain ⟨c, -, o, rfl⟩ := h.only e he
  trivial

/-- The chunk is one the connection still has to fetch all of. -/
structure Gb.Owes (s : Gb) (i : Link) (c : Chunk) : Prop where
  mem : c ∈ s.offsetInfo.segments.flatMap (Segment.chunks i)
  inside : c.Inside s.size
  missing : ∀ x ∈ c.range, cover s.outfile x = 0

lemma Gb.Owes.exactGet_iff {c : Chunk} (h : s.Owes i c) :
    ExactGet s i c.startByte c.lastByte ↔ c.lastByte ≠ 0 ∨ s.size = 1 := by
  obtain ⟨hv, h₀, h₁⟩ := h.inside
  have := hv.1
  have := hv.2
  exact GreenBag.exactGet_iff ⟨c, h.mem, le_rfl, rfl, fun x hx => ⟨fun _ => h.missing x hx,
    fun _ => hx.1⟩⟩ h₀ (by omega) (by omega)

lemma Asked.told {u t : Session} (h : Asked s i cs es) (hu : Told u) (ht : t.trace = es ++ u.trace)
    (hc : ∀ c ∈ cs, s.Owes i c) : Told t := by
  refine hu.extend ht (fun s' site j a b hm => ?_) (fun _ s' site j reply hm => ?_)
    (fun _ s' j r hm => ?_) (fun e hm => ?_) <;> obtain ⟨c, hcs, o, he⟩ := h.only _ hm
  · obtain ⟨rfl, rfl, rfl, rfl, rfl⟩ := Event.get.inj he
    have howes := hc c hcs
    have ho : (s.withOutstanding j o).Owes j c := ⟨howes.mem, howes.inside, howes.missing⟩
    rw [ho.exactGet_iff, PlainGet]
    simp
  · cases he
  · cases he
  · rw [he]
    trivial

lemma Asked.ordered (h : Asked s i cs es) (ha : ∀ e ∈ es, e.InOrder) (hne : cs ≠ []) :
    (s.conn i).fd = .socket ∧ ∀ c ∈ cs, c.lastByte ≠ 0 ∨ s.size = 1 := by
  have hone : ∀ c ∈ cs, (s.conn i).fd = .socket ∧ (c.lastByte ≠ 0 ∨ s.size = 1) := by
    intro c hc
    obtain ⟨o, ho⟩ := h.all c hc
    obtain ⟨hfd, hb⟩ := (ha _ ho).2.2.2
    simp only [Gb.withOutstanding, update_self] at hfd
    exact ⟨hfd, hb⟩
  obtain ⟨c, hc⟩ := List.exists_mem_of_ne_nil cs hne
  exact ⟨(hone c hc).1, fun d hd => (hone d hd).2⟩

lemma Conn.asked_eq {c : Conn} {size : ℤ} (hf : c.fd = .socket)
    (hb : ∀ d ∈ cs, d.lastByte ≠ 0 ∨ size = 1) :
    c.asked size cs = c.outstanding ++ cs.map Chunk.range := by
  rw [Conn.asked, if_pos hf]
  congr 1
  refine List.map_congr_left fun d hd => ?_
  simp only [requestedRange, Chunk.range, Range.mk.injEq, true_and]
  by_cases h : d.lastByte = 0
  · have := (hb d hd).resolve_left (fun hn => hn h)
    rw [if_neg (fun hn => hn h), h]
    omega
  · rw [if_pos h]

end Asked

lemma Conn.reopened_eq {c : Conn} (h : c.fd ≠ .closed) : c.reopened = c := if_neg h

@[simp] lemma Conn.reopened_currentbyte (c : Conn) : c.reopened.currentbyte = c.currentbyte := by
  unfold Conn.reopened
  split_ifs <;> rfl

@[simp] lemma Conn.reopened_lastbyte (c : Conn) : c.reopened.lastbyte = c.lastbyte := by
  unfold Conn.reopened
  split_ifs <;> rfl

@[simp] lemma Conn.reopened_enabled (c : Conn) : c.reopened.enabled = c.enabled := by
  unfold Conn.reopened
  split_ifs <;> rfl

@[simp] lemma Conn.reopened_setupThread (c : Conn) : c.reopened.setupThread = c.setupThread := by
  unfold Conn.reopened
  split_ifs <;> rfl

@[simp] lemma Conn.reopened_bytesDone (c : Conn) : c.reopened.bytesDone = c.bytesDone := by
  unfold Conn.reopened
  split_ifs <;> rfl

@[simp] lemma Conn.reopened_bytesPerSecond (c : Conn) :
    c.reopened.bytesPerSecond = c.bytesPerSecond := by
  unfold Conn.reopened
  split_ifs <;> rfl

@[simp] lemma Conn.reopened_status (c : Conn) : c.reopened.status = c.status := by
  unfold Conn.reopened
  split_ifs <;> rfl

lemma Conn.reopened_fd (c : Conn) : c.reopened.fd ≠ .closed := by
  unfold Conn.reopened
  split_ifs with h
  · exact Fd.noConfusion
  · exact h

lemma queueOf_append {c c' : Conn} {ps : List Subsegment} {p : Subsegment} (hne : ps ≠ [])
    (hc : c'.currentbyte = c.currentbyte) (hl : c'.lastbyte = c.lastbyte) :
    queueOf c' (ps ++ [p]) = queueOf c ps ++ p.chunkList.map Chunk.range := by
  obtain ⟨q, qs, rfl⟩ := List.exists_cons_of_ne_nil hne
  simp [queueOf, hc, hl]

lemma Lane.append {n slack : ℤ} {done : List Range} {c c' : Conn} {ps : List Subsegment}
    {p : Subsegment} (h : Lane n slack done c ps) (hne : ps ≠ []) (hp : p.Good n)
    (hs : p.size = sizeSum p.chunkList) (hc : c'.currentbyte = c.currentbyte) (hl : c'.lastbyte = c.lastbyte)
    (hf : c'.pipelineRequestsSent) : Lane n slack done c' (ps ++ [p]) := by
  obtain ⟨r, rs, rfl⟩ := List.exists_cons_of_ne_nil hne
  refine ⟨fun q hq => ?_, fun q qs d ds hqs hds => ?_, fun _ => hf, fun q hq => ?_⟩
  · rcases List.mem_append.mp hq with hq | hq
    · exact h.good q hq
    · exact List.mem_singleton.mp hq ▸ hp
  · obtain ⟨rfl, -⟩ := List.cons.inj hqs
    rw [hc, hl]
    exact h.cursor r rs d ds rfl hds
  · rcases List.mem_append.mp hq with hq | hq
    · exact h.sized q hq
    · exact List.mem_singleton.mp hq ▸ hs

lemma Wire.extended {φ : Phase} {s t : Session} {j : Link} {es : List Event} {p : Subsegment}
    (h : Wire φ s j) (ht : t.trace = es ++ s.trace)
    (hc : t.conn j = (s.conn j).sent s.size p.chunkList) (hp : t.parts j = s.parts j ++ [p])
    (hne : s.parts j ≠ []) (hv : ∀ c ∈ p.chunkList, c.Valid)
    (hord : t.All Event.InOrder → (s.conn j).reopened.fd = .socket ∧
      ∀ c ∈ p.chunkList, c.lastByte ≠ 0 ∨ s.size = 1) : Wire φ t j := by
  have hall : ∀ {P : Event → Prop}, t.All P → s.All P := fun ha => ((all_append_iff ht).mp ha).2
  have hact : Active φ t.toGb j → Active φ s.toGb j := by
    rw [Active, hc]
    simp only [Conn.sent, Conn.reopened_enabled]
    exact id
  have hnil : t.parts j ≠ [] := by
    rw [hp]
    simp
  have hqueue : t.queue j = s.queue j ++ p.chunkList.map Chunk.range := by
    rw [Gb.queue, hp, Gb.queue]
    exact queueOf_append hne (by simp [hc, Conn.sent]) (by simp [hc, Conn.sent])
  have hopen : t.All Event.Alone → Active φ t.toGb j → (s.conn j).fd ≠ .closed := fun ha hi =>
    (h.calm (hall ha) (hact hi)).2
  refine ⟨fun _ _ _ => ?_, fun ha hi => ⟨?_, ?_⟩, fun _ _ => by rw [hc]; rfl, fun ha hth => ?_,
    fun ha hi => ?_, fun _ hn => absurd hn hnil, fun ha hi => ?_⟩
  · have := List.length_pos_iff.mpr hne
    rw [hp, List.length_append, List.length_singleton]
    omega
  · rw [hc]
    simpa only [Conn.sent, Conn.reopened_setupThread] using (h.calm (hall ha) (hact hi)).1
  · rw [hc]
    exact (s.conn j).reopened_fd
  · rw [hc] at hth ⊢
    simp only [Conn.sent, Conn.reopened_setupThread] at hth
    obtain ⟨hfd, -⟩ := h.requested (hall ha) hth
    refine ⟨?_, hnil⟩
    simp only [Conn.sent, Conn.reopened_eq (by rw [hfd]; exact Fd.noConfusion : (s.conn j).fd ≠ _), hfd]
  · have hfd : (s.conn j).fd ≠ .closed := by
      rcases hi with hi | hth
      · exact hopen (ha.imp fun _ he => he.2.2.1) hi
      · rw [hc] at hth
        simp only [Conn.sent, Conn.reopened_setupThread] at hth
        rw [(h.requested (hall ha) hth).1]
        exact Fd.noConfusion
    obtain ⟨hs, hb⟩ := hord ha
    have hout := h.aligned (hall ha) (hi.imp hact fun hth => by
      rw [hc] at hth
      simpa only [Conn.sent, Conn.reopened_setupThread] using hth)
    rw [Gb.wanted, hqueue, hc]
    simp only [Conn.sent, Conn.asked_eq hs hb]
    rw [Conn.reopened_eq hfd, hout, Gb.wanted, List.dropWhile_append]
    split_ifs with he
    · rw [List.isEmpty_iff.mp he, dropWhile_empty hv, List.nil_append]
    · rfl
  · rw [Gb.Reads, hc]
    simp only [Conn.sent, Conn.reopened_eq (hopen (ha.imp fun _ he => he.1) hi)]
    exact h.reads (hall ha) (hact hi)

section Staged

variable {i j : Link} {front : List Segment} {g : Segment} {told told' : Link → Bool} {s t : Session}
  {es : List Event} {p : Subsegment}

/-- The segment with the parts of those connections only that were told of it. -/
def Segment.only (g : Segment) (told : Link → Bool) : Segment :=
  { g with subsegment := fun j => if told j then g.subsegment j else none }

lemma parts_only (h : told' j = told j) (gs : List Segment) :
    parts j (gs ++ [g.only told']) = parts j (gs ++ [g.only told]) ∧
      firstWith j (gs ++ [g.only told']) = firstWith j (gs ++ [g.only told]) := by
  have hs : (g.only told').subsegment j = (g.only told).subsegment j := by simp only [Segment.only, h]
  simp only [parts_append, parts_cons, firstWith, List.find?_append, List.find?_cons, hs]
  refine ⟨trivial, ?_⟩
  cases gs.find? (fun g => (g.subsegment j).isSome) with
  | some k => rfl
  | none => cases ((g.only told).subsegment j).isSome <;> rfl

lemma parts_untold (h : told j = false) (gs : List Segment) :
    parts j (gs ++ [g.only told]) = parts j gs ∧
      firstWith j (gs ++ [g.only told]) = firstWith j gs :=
  parts_bare (by simp [Segment.only, h]) gs

lemma parts_told (h : told j = true) (hp : g.subsegment j = some p) (gs : List Segment) :
    parts j (gs ++ [g.only told]) = parts j gs ++ [p] := by
  simp [parts_cons, Segment.only, h, hp]

/-- The session without what no connection was told of. -/
def Session.veiled (t : Session) (front : List Segment) (g : Segment) (told : Link → Bool) :
    Session := { t with
  offsetInfo := { t.offsetInfo with
    segments := front ++ [g.only told]
    connection := fun j => if told j then t.offsetInfo.connection j else firstWith j front } }

/-- The last segment is dealt out, and some connections were told of their parts. -/
structure Staged (i : Link) (front : List Segment) (g : Segment) (told : Link → Bool)
    (t : Session) : Prop where
  segments : t.offsetInfo.segments = front ++ [g]
  linked : t.offsetInfo.Linked
  handing : Handing i (g.recoverySegment && !told i.other)
    (fun j => if told j then [] else g.chunks j) (t.veiled front g told)
  good : ∀ j p, g.subsegment j = some p → p.Good t.frontier
  pointer : ∀ j, told j = false → (g.recoverySegment → j = i) →
    t.offsetInfo.connection j = firstWith j front
  sized : ∀ j p, g.subsegment j = some p → p.size = sizeSum p.chunkList

lemma Staged.linked_veiled (h : Staged i front g told t) (told' : Link → Bool) :
    (t.veiled front g told').offsetInfo.Linked := by
  have hid : (g.only told').id = g.id := rfl
  obtain ⟨h₁, h₂, h₃, h₄⟩ := h.linked
  rw [h.segments] at h₁ h₂ h₃ h₄
  refine ⟨?_, ?_, ?_, ?_⟩
  · refine List.pairwise_append.mpr ⟨(List.pairwise_append.mp h₁).1, List.pairwise_singleton _ _,
      fun k hk m hm => ?_⟩
    rw [List.mem_singleton.mp hm, hid]
    exact (List.pairwise_append.mp h₁).2.2 k hk g (List.mem_singleton_self g)
  · intro k hk
    rcases List.mem_append.mp hk with hk | hk
    · exact h₂ k (List.mem_append_left _ hk)
    · rw [List.mem_singleton.mp hk, hid]
      exact h₂ g (by simp)
  · simpa [Session.veiled, hid] using h₃
  · simpa [Session.veiled] using h₄

lemma Staged.owes (h : Staged i front g told t) (hj : told j = false) (hp : g.subsegment j = some p)
    {s : Gb} (hseg : s.offsetInfo.segments = t.offsetInfo.segments) (hsize : s.size = t.size)
    (hout : s.outfile = t.outfile) : ∀ c ∈ p.chunkList, s.Owes j c := by
  intro c hc
  have hg : g.chunks j = p.chunkList := by rw [Segment.chunks, hp]; rfl
  have hmem : c ∈ (fun j => if told j then [] else g.chunks j) j := by
    simpa [hj, hg] using hc
  refine ⟨?_, ?_, fun x hx => ?_⟩
  · rw [hseg, h.segments, List.flatMap_append, List.mem_append]
    exact .inr (by simpa [hg] using hc)
  · rw [hsize]
    exact ((h.good j p hp).inside c hc).mono h.handing.rep.frontier.2
  · rw [hout]
    exact pending_not_written (s := (t.veiled front g told).toGb) h.handing.load hmem hx

lemma Staged.step (h : Staged i front g told t) (hj : told j = false) {u : Session} {c : Conn}
    (pointer : Link → Option ℕ) (idle : Link → Bool)
    (hu : u = { t with
      trace := es ++ t.trace
      conn := update t.conn j c
      offsetInfo := { t.offsetInfo with connection := pointer, connIdle := idle } })
    (hpointer : ∀ k, k ≠ j → pointer k = t.offsetInfo.connection k)
    (hloud : ∀ e ∈ es, ¬ e.Quiet ∧ e.WritesAll)
    (hqueue : (u.veiled front g (update told j true)).queue j =
      (t.veiled front g told).queue j ++ (g.chunks j).map Chunk.range)
    (hlane : Lane u.frontier ((Phase.reading i).slack j) u.outfile c
      ((u.veiled front g (update told j true)).parts j))
    (hfirst : pointer j = firstWith j (front ++ [g.only (update told j true)]))
    (hi : i = j → (u.veiled front g (update told j true)).parts j ≠ []) (htold : Told u)
    (hwire : Wire (.reading i) (u.veiled front g (update told j true)) j)
    (hgood : c.bytesPerSecond = (t.conn j).bytesPerSecond ∧ c.bytesDone = (t.conn j).bytesDone)
    (hidle : (u.veiled front g (update told j true)).parts j = [] → c.looksIdle) :
    Staged i front g (update told j true) u := by
  have hother : ∀ k, k ≠ j → update told j true k = told k := fun k hk => update_of_ne hk ..
  have hself : update told j true j = true := update_self ..
  have hlinked : u.offsetInfo.Linked := hu ▸ ⟨h.linked.1, h.linked.2, h.linked.3, h.linked.4⟩
  have hv := h.linked_veiled (update told j true)
  have hconn : ∀ k, k ≠ j → u.conn k = t.conn k := fun k hk => hu ▸ update_of_ne hk ..
  have hconnj : u.conn j = c := hu ▸ update_self ..
  have hpart : ∀ k, k ≠ j → (u.veiled front g (update told j true)).parts k =
      (t.veiled front g told).parts k := fun k hk => (parts_only (hother k hk) front).1
  have hcon : ∀ k, k ≠ j → (u.veiled front g (update told j true)).offsetInfo.connection k =
      (t.veiled front g told).offsetInfo.connection k := by
    intro k hk
    simp only [Session.veiled, hother k hk, hu, hpointer k hk]
  have hconj : (u.veiled front g (update told j true)).offsetInfo.connection j = pointer j := by
    simp only [Session.veiled, hself, if_true, hu]
  have hap : Apart j es (t.veiled front g told) (u.veiled front g (update told j true)) := by
    refine ⟨hu ▸ rfl, hu ▸ rfl, hu ▸ rfl, hu ▸ rfl, hu ▸ rfl, hu ▸ rfl, hu ▸ rfl, hu ▸ rfl, hu ▸ rfl,
      hu ▸ rfl, hu ▸ rfl, ?_, hconn, hpart, fun k hk => (parts_only (hother k hk) front).2, hcon,
      hu ▸ rfl, hloud⟩
    exact hu ▸ ⟨hv.1, hv.2, hv.3, hv.4⟩
  have hpend : (fun k => if update told j true k then [] else g.chunks k) =
      update (fun k => if told k then [] else g.chunks k) j [] := by
    funext k
    by_cases hk : k = j
    · rw [hk, hself, update_self, if_pos rfl]
    · rw [hother k hk, update_of_ne hk]
  refine ⟨hu ▸ h.segments, hlinked, ?_, fun k q hq => ?_, fun k hk hrec => ?_, h.sized⟩
  · rw [hpend]
    refine h.handing.adopt hap ?_ ?_ ?_ ?_ ⟨htold.1, htold.2, htold.3, htold.4⟩ hwire ?_ (fun ha hr hp => ?_)
      (fun hr => ?_)
    · simpa only [hj, Bool.false_eq_true, if_false] using hqueue
    · rw [← hconnj] at hlane
      exact hlane
    · exact hconj.trans hfirst
    · by_cases hij : i = j
      · exact hij ▸ hi hij
      · rw [hpart i hij]
        exact h.handing.rep.fits
    · show (u.conn j).bytesPerSecond = _ ∧ (u.conn j).bytesDone = _
      rw [hconnj]
      exact hgood
    · by_cases hij : i.other = j
      · left
        show (u.conn i.other).looksIdle
        rw [hij, hconnj]
        rw [hij] at hp
        exact hidle hp
      · rw [hother _ hij] at hr
        rw [hpart _ hij] at hp
        have := h.handing.idle (hap.all ha) hr hp
        rw [hap.placeholder hij]
        exact this.imp (fun hl => by show (u.conn i.other).looksIdle; rw [hconn _ hij]; exact hl) id
    · have hij : i.other ≠ j := by
        intro hij
        rw [hij, hself] at hr
        simp at hr
      rw [hother _ hij] at hr
      rw [hpart _ hij]
      show (u.conn i.other).enabled = false ∧ _
      rw [hconn _ hij]
      exact h.handing.halted hr
  · have := h.good k q hq
    exact hu ▸ ⟨this.1, this.2, this.3, this.4⟩
  · have hkj : k ≠ j := by
      rintro rfl
      rw [hself] at hk
      cases hk
    rw [hother k hkj] at hk
    rw [hu]
    exact (hpointer k hkj).trans (h.pointer k hk hrec)

lemma chunks_of_part (hp : g.subsegment j = some p) : g.chunks j = p.chunkList := by
  rw [Segment.chunks, hp]
  rfl

lemma Staged.skip (h : Staged i front g told t) (hj : told j = false) (hp : g.subsegment j = none)
    (hrec : g.recoverySegment → j = i) : Staged i front g (update told j true) t := by
  have hsame : ∀ k, (if update told j true k then g.subsegment k else none) =
      if told k then g.subsegment k else none := by
    intro k
    by_cases hk : k = j
    · simp [hk, hp]
    · rw [update_of_ne hk]
  have hveil : t.veiled front g (update told j true) = t.veiled front g told := by
    simp only [Session.veiled, Segment.only, hsame]
    congr 3
    funext k
    by_cases hk : k = j
    · simp [hk, hj, h.pointer j hj hrec]
    · rw [update_of_ne hk]
  have hrob : (g.recoverySegment && !update told j true i.other) =
      (g.recoverySegment && !told i.other) := by
    cases hr : g.recoverySegment with
    | false => rfl
    | true => rw [update_of_ne (hrec hr ▸ (hrec hr ▸ Link.other_ne j : i.other ≠ j))]
  have hpend : (fun k => if update told j true k then [] else g.chunks k) =
      fun k => if told k then [] else g.chunks k := by
    funext k
    by_cases hk : k = j
    · simp [hk, hj, Segment.chunks, hp]
    · rw [update_of_ne hk]
  refine ⟨h.segments, h.linked, ?_, h.good, fun k hk => ?_, h.sized⟩
  · rw [hveil, hrob, hpend]
    exact h.handing
  · have hkj : k ≠ j := by
      rintro rfl
      simp at hk
    rw [update_of_ne hkj] at hk
    exact h.pointer k hk

lemma Staged.extend (h : Staged i front g told t) (hj : told j = false)
    (hne : GreenBag.parts j front ≠ []) (hp : g.subsegment j = some p)
    (hrec : g.recoverySegment → j = i)
    (hask : Asked { t.toGb with conn := update t.conn j (t.conn j).reopened } j p.chunkList es) :
    Staged i front g (update told j true) { t with
      trace := es ++ t.trace
      conn := update t.conn j ((t.conn j).sent t.size p.chunkList) } := by
  generalize hu : ({ t with
      trace := es ++ t.trace
      conn := update t.conn j ((t.conn j).sent t.size p.chunkList) } : Session) = u
  have hself : update told j true j = true := update_self ..
  have hgood := h.good j p hp
  have hparts : (t.veiled front g told).parts j = GreenBag.parts j front := (parts_untold hj front).1
  have hparts' : (u.veiled front g (update told j true)).parts j = GreenBag.parts j front ++ [p] :=
    parts_told hself hp front
  have hconn : u.conn j = (t.conn j).sent t.size p.chunkList := hu ▸ update_self ..
  have htrace : u.trace = es ++ t.trace := hu ▸ rfl
  have hfront : u.frontier = t.frontier := hu ▸ rfl
  have hout : u.outfile = t.outfile := hu ▸ rfl
  refine h.step hj (c := (t.conn j).sent t.size p.chunkList) t.offsetInfo.connection
    t.offsetInfo.connIdle hu.symm (fun _ _ => rfl) hask.loud ?_ ?_ ?_ ?_ ?_ ?_ ?_ ?_
  · rw [Gb.queue, hparts', Gb.queue, hparts, chunks_of_part hp]
    exact queueOf_append hne (by show (u.conn j).currentbyte = _; rw [hconn]; simp [Conn.sent]; rfl)
      (by show (u.conn j).lastbyte = _; rw [hconn]; simp [Conn.sent]; rfl)
  · have hlane := h.handing.rep.lane j
    rw [hparts] at hlane
    rw [hparts', hfront, hout]
    exact hlane.append hne hgood (h.sized j p hp) (by simp [Conn.sent]; rfl) (by simp [Conn.sent]; rfl) rfl
  · rw [h.pointer j hj hrec, firstWith_append hne]
  · rw [hparts']
    simp
  · refine hask.told (u := t) ⟨h.handing.told.1, h.handing.told.2, h.handing.told.3,
      h.handing.told.4⟩ htrace ?_
    exact h.owes hj hp rfl rfl rfl
  · refine (h.handing.wire j).extended (p := p) htrace hconn ?_ ?_ ?_ fun ha => ?_
    · rw [hparts', hparts]
    · rw [hparts]
      exact hne
    · exact fun c hc => (hgood.inside c hc).1
    · obtain ⟨hs, hb⟩ := hask.ordered (fun e he => ha e (by
        show e ∈ u.trace
        rw [htrace]
        exact List.mem_append_left _ he)) hgood.nonempty
      simp only [update_self] at hs
      exact ⟨hs, hb⟩
  · simp [Conn.sent]
  · rw [hparts']
    simp

/-- What a connection is like once it was pointed to its part of the new segment and its response
was awaited. -/
structure Adopted (p : Subsegment) (u : Session) (c : Conn) : Prop where
  cursor : ∃ d ds, p.chunkList = d :: ds ∧ c.currentbyte = d.startByte ∧ c.lastbyte = d.lastByte
  flag : u.All Event.Served → c.pipelineRequestsSent = false
  thread : u.All Event.Alone → c.setupThread = .none
  fd : c.fd ≠ .closed
  outstanding : u.All Event.InOrder → c.outstanding = p.chunkList.map Chunk.range
  reads : u.All (fun e => e.Alone ∧ e.Accepted) → c.enabled →
    ∃ r, c.response = some r ∧ Accepts r.status r.block

lemma Staged.adopt (h : Staged i front g told t) (hj : told i.other = false)
    (hnil : GreenBag.parts i.other front = []) (hp : g.subsegment i.other = some p) {u : Session}
    {c : Conn} {idle : Link → Bool}
    (hu : u = { t with
      trace := es ++ t.trace
      conn := update t.conn i.other c
      offsetInfo := { t.offsetInfo with
        connection := update t.offsetInfo.connection i.other (some g.id), connIdle := idle } })
    (hloud : ∀ e ∈ es, ¬ e.Quiet ∧ e.WritesAll) (htold : Told u) (hc : Adopted p u c)
    (hgood : c.bytesPerSecond = (t.conn i.other).bytesPerSecond ∧
      c.bytesDone = (t.conn i.other).bytesDone) :
    Staged i front g (update told i.other true) u := by
  have hself : update told i.other true i.other = true := update_self ..
  have hpg := h.good i.other p hp
  have hparts : (t.veiled front g told).parts i.other = [] := (parts_untold hj front).1.trans hnil
  have hparts' : (u.veiled front g (update told i.other true)).parts i.other = [p] :=
    (parts_told hself hp front).trans (by rw [hnil]; rfl)
  have hconn : u.conn i.other = c := hu ▸ update_self ..
  have hfront : u.frontier = t.frontier := hu ▸ rfl
  obtain ⟨d, ds, hds, hcur, hlast⟩ := hc.cursor
  have hd := hpg.inside d (by rw [hds]; exact List.mem_cons_self)
  have hqueue : (u.veiled front g (update told i.other true)).queue i.other =
      p.chunkList.map Chunk.range := by
    rw [Gb.queue, hparts']
    show queueOf (u.conn i.other) [p] = _
    rw [hconn, queueOf, hcur, hlast, hds]
    simp [Chunk.range]
  have hact : Active (.reading i) (u.veiled front g (update told i.other true)).toGb i.other →
      c.enabled := by
    rintro (he | hb)
    · rw [← hconn]
      exact he
    · exact absurd hb (Link.other_ne i)
  refine h.step hj _ idle hu (fun k hk => update_of_ne hk ..) hloud ?_ ?_ ?_ (fun hi => ?_) htold ?_ hgood ?_
  · rw [hqueue, Gb.queue, hparts, chunks_of_part hp]
    rfl
  · rw [hparts', hfront]
    refine ⟨fun q hq => List.mem_singleton.mp hq ▸ hpg, fun q qs e es' hq he => ?_, by simp, by simp⟩
    obtain ⟨rfl, -⟩ := List.cons.inj hq
    obtain ⟨rfl, -⟩ := List.cons.inj (hds.symm.trans he)
    have := hd.1.1
    have := hd.1.2
    simp only [Phase.slack, if_neg (Link.other_ne i)]
    exact ⟨hlast, hcur ▸ le_rfl, by omega, fun b h₁ h₂ => by omega⟩
  · rw [update_self]
    exact (firstWith_split (g := g.only (update told i.other true)) (p := p) hnil
      (by simp [Segment.only, hp])).symm
  · exact absurd hi (Link.other_ne i).symm
  · have hne : (u.veiled front g (update told i.other true)).parts i.other ≠ [] := by
      rw [hparts']
      simp
    have hthread : u.All Event.Alone → (u.conn i.other).setupThread = .none := hconn ▸ hc.thread
    refine ⟨fun ha _ hf => ?_, fun ha _ => ⟨hthread ha, ?_⟩, fun ha hth => absurd (hthread ha) hth,
      fun ha hth => ?_, fun ha _ => ?_, fun _ hn => absurd hn hne, fun ha hi => ?_⟩
    · have hf' : c.pipelineRequestsSent = true := hconn ▸ hf
      rw [hc.flag ha] at hf'
      cases hf'
    · show (u.conn i.other).fd ≠ .closed
      rw [hconn]
      exact hc.fd
    · have hth' : (u.conn i.other).setupThread = .requested := hth
      rw [hthread fun e he => (ha e he).2.2.1] at hth'
      cases hth'
    · rw [Gb.wanted, hqueue, dropWhile_empty fun c hc => (hpg.inside c hc).1]
      show (u.conn i.other).outstanding = _
      rw [hconn]
      exact hc.outstanding ha
    · have hr := hc.reads ha (hact hi)
      rw [← hconn] at hr
      exact hr
  · rw [hparts']
    simp

lemma Staged.release (h : Staged i front g told t) (hj : told i.other = false)
    (hnil : GreenBag.parts i.other front = []) (hp : g.subsegment i.other = none) :
    Staged i front g (update told i.other true) { t with
      conn := update t.conn i.other { t.conn i.other with currentbyte := 1, lastbyte := 0 }
      offsetInfo := { t.offsetInfo with
        connection := update t.offsetInfo.connection i.other none } } := by
  generalize hu : ({ t with
      conn := update t.conn i.other { t.conn i.other with currentbyte := 1, lastbyte := 0 }
      offsetInfo := { t.offsetInfo with
        connection := update t.offsetInfo.connection i.other none } } : Session) = u
  have hsub : (g.only (update told i.other true)).subsegment i.other = none := by
    simp [Segment.only, hp]
  have hparts : (t.veiled front g told).parts i.other = [] := (parts_untold hj front).1.trans hnil
  have hparts' : (u.veiled front g (update told i.other true)).parts i.other = [] :=
    (parts_bare hsub front).1.trans hnil
  have hconn : u.conn i.other = { t.conn i.other with currentbyte := 1, lastbyte := 0 } :=
    hu ▸ update_self ..
  have hqueue : (u.veiled front g (update told i.other true)).queue i.other = [] := by
    rw [Gb.queue, hparts']
    rfl
  have htrace : u.trace = [] ++ t.trace := hu ▸ rfl
  have hw := h.handing.wire i.other
  have hu' : u = { t with
      trace := [] ++ t.trace
      conn := update t.conn i.other { t.conn i.other with currentbyte := 1, lastbyte := 0 }
      offsetInfo := { t.offsetInfo with
        connection := update t.offsetInfo.connection i.other none
        connIdle := t.offsetInfo.connIdle } } := hu.symm
  refine h.step hj _ t.offsetInfo.connIdle hu' (fun k hk => update_of_ne hk ..) (by simp)
    ?_ ?_ ?_ (fun hi => absurd hi (Link.other_ne i).symm) ?_ ?_ ⟨rfl, rfl⟩ fun _ => rfl
  · rw [hqueue, Gb.queue, hparts, Segment.chunks, hp]
    rfl
  · rw [hparts']
    exact ⟨by simp, by simp, by simp, by simp⟩
  · rw [update_self, (parts_bare hsub front).2, firstWith_eq_none.mpr hnil]
  · have ht := h.handing.told
    exact Told.extend ⟨ht.1, ht.2, ht.3, ht.4⟩ htrace (by simp) (fun _ => by simp)
      (fun _ => by simp) (by simp)
  · refine hw.carry htrace (hparts'.trans hparts.symm) ?_ ?_ ?_ ?_ ?_ (fun hi => ?_) (fun ha hi => ?_)
      (fun ha _ => ?_)
    · show (u.conn i.other).pipelineRequestsSent = _
      rw [hconn]
      rfl
    · show (u.conn i.other).setupThread = _
      rw [hconn]
      rfl
    · show (u.conn i.other).fd = _
      rw [hconn]
      rfl
    · show (u.conn i.other).state = _
      rw [hconn]
      rfl
    · show (u.conn i.other).response = _
      rw [hconn]
      rfl
    · refine hi.imp (fun he => ?_) id
      have he' : (u.conn i.other).enabled := he
      rw [hconn] at he'
      exact he'
    · rw [Gb.wanted, hqueue]
      show (u.conn i.other).outstanding = _
      rw [hconn]
      exact hw.idle (((all_append_iff htrace).mp ha).2) hparts
    · show (u.conn i.other).outstanding = _
      rw [hconn]
      exact hw.idle (((all_append_iff htrace).mp ha).2) hparts

/-- Once both connections were told of it the segment is an ordinary one. -/
lemma Staged.done (h : Staged i front g told t) (hall : ∀ j, told j = true) : Inv (.reading i) t := by
  have hveil : t.veiled front g told = t := by
    simp only [Session.veiled, Segment.only, hall, if_true]
    rw [← h.segments]
  have hh := h.handing
  rw [hveil] at hh
  simp only [hall, Bool.not_true, Bool.and_false, if_true] at hh
  exact hh.done fun _ => rfl

end Staged

end GreenBag
