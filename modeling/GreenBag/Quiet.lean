import GreenBag.Guess

/-! The parts of a handling that only compute: goodputs, the in-order offset, announcements. -/

namespace GreenBag

open Programs Ranges Schedules

@[simp] lemma sane_nullPointer (t : Session) : Sane .nullPointer t ↔ Sincere t.trace :=
  and_iff_left trivial

@[simp] lemma sane_danglingPointer (t : Session) : Sane .danglingPointer t ↔ Sincere t.trace :=
  and_iff_left trivial

@[simp] lemma sane_connOutOfBounds (t : Session) : Sane .connOutOfBounds t ↔ Sincere t.trace :=
  and_iff_left trivial

@[simp] lemma sane_divByZero (t : Session) : Sane .divByZero t ↔ Sincere t.trace :=
  and_iff_left trivial

@[simp] lemma sane_exit (t : Session) : Sane .exit t ↔ Sincere t.trace :=
  and_iff_left trivial

@[simp] lemma sane_assertTail (t : Session) : Sane .assertTail t ↔ Sincere t.trace :=
  and_iff_left trivial

@[simp] lemma sane_assertGoodput (t : Session) : Sane .assertGoodput t ↔ Sincere t.trace :=
  and_iff_left trivial

/-- The session without what only the choices depend on. -/
def Gb.core (s : Gb) : Gb := { s with
  conn := fun i => { s.conn i with
    bytesDone := 0, bytesPerSecond := 0, ewmaBytesPerSecond := 0, lastSegmentFlag := false }
  offsetInfo := { s.offsetInfo with
    connIdle := fun _ => false, singleLinkModeFlag := false, fastConn := .lte }
  lastDownloadedByte := 0
  inorderOffset := 0
  numRecoveries := 0 }

section Core

variable {φ : Phase} {s t : Gb}

lemma Rep.of_core (he : t.core = s.core) (h : Rep φ s) : Rep φ t := by
  have hc : Rep φ t.core := he ▸ ⟨h.1, h.2, h.3, ⟨h.4.1, h.4.2, h.4.3, h.4.4⟩, h.5, h.6,
    fun i => ⟨(h.7 i).1, (h.7 i).2, (h.7 i).3, (h.7 i).4⟩, h.8, by cases φ <;> exact h.9, h.10, h.11,
    h.12⟩
  exact ⟨hc.1, hc.2, hc.3, ⟨hc.4.1, hc.4.2, hc.4.3, hc.4.4⟩, hc.5, hc.6,
    fun i => ⟨(hc.7 i).1, (hc.7 i).2, (hc.7 i).3, (hc.7 i).4⟩, hc.8, by cases φ <;> exact hc.9, hc.10,
    hc.11, hc.12⟩

lemma Whole.of_core (he : t.core = s.core) (h : Whole φ s) : Whole φ t := by
  have hc : Whole φ t.core := he ▸ ⟨h.1, h.2, h.3⟩
  exact ⟨hc.1, hc.2, hc.3⟩

end Core

section All

variable {s t : Session} {P Q : Event → Prop} {e : Event}

lemma Session.All.imp (h : s.All P) (hpq : ∀ e, P e → Q e) : s.All Q := fun e he => hpq e (h e he)

lemma all_cons_iff (h : t.trace = e :: s.trace) : t.All P ↔ P e ∧ s.All P := by
  simp only [Session.All, h, List.forall_mem_cons]

end All

/-- Nothing changed but what only the choices depend on, and the events between are quiet. -/
structure Murmur (s t : Session) : Prop where
  core : t.toGb.core = s.toGb.core
  exact : t.exact = s.exact
  trace : ∃ es, t.trace = es ++ s.trace ∧ ∀ e ∈ es, e.Quiet ∧ e.Sound

namespace Murmur

variable {s t u : Session}

lemma refl (s : Session) : Murmur s s := ⟨rfl, rfl, [], rfl, by simp⟩

lemma trans (h : Murmur s t) (h' : Murmur t u) : Murmur s u := by
  obtain ⟨es, he, hq⟩ := h.trace
  obtain ⟨fs, hf, hr⟩ := h'.trace
  refine ⟨h'.core.trans h.core, h'.exact.trans h.exact, fs ++ es, by rw [hf, he, List.append_assoc], fun e hm => ?_⟩
  exact (List.mem_append.mp hm).elim (hr e) (hq e)

lemma all (h : Murmur s t) {P : Event → Prop} (ha : t.All P) : s.All P := by
  obtain ⟨es, he, -⟩ := h.trace
  exact fun e hm => ha e (by rw [he]; exact List.mem_append_right _ hm)

lemma all_iff (h : Murmur s t) {P : Event → Prop} (hp : ∀ e, e.Quiet → P e) : t.All P ↔ s.All P := by
  refine ⟨h.all, fun ha e hm => ?_⟩
  obtain ⟨es, he, hq⟩ := h.trace
  rw [he] at hm
  exact (List.mem_append.mp hm).elim (fun hm => hp e (hq e hm).1) (ha e)

lemma mem_iff (h : Murmur s t) {e : Event} (he : ¬ e.Quiet) : e ∈ t.trace ↔ e ∈ s.trace := by
  obtain ⟨es, ht, hq⟩ := h.trace
  rw [ht, List.mem_append]
  exact ⟨fun hm => hm.resolve_left (fun hm => he (hq e hm).1), .inr⟩

lemma sound (h : Murmur s t) (hs : s.All Event.Sound) : t.All Event.Sound := by
  obtain ⟨es, ht, hq⟩ := h.trace
  intro e hm
  rw [ht] at hm
  exact (List.mem_append.mp hm).elim (fun hm => (hq e hm).2) (hs e)

end Murmur

lemma Murmur.list {s t : Session} (h : Murmur s t) :
    t.offsetInfo.segments = s.offsetInfo.segments ∧
      t.offsetInfo.connection = s.offsetInfo.connection := by
  show t.core.offsetInfo.segments = s.core.offsetInfo.segments ∧
    t.core.offsetInfo.connection = s.core.offsetInfo.connection
  rw [h.core]
  exact ⟨rfl, rfl⟩

lemma Event.Quiet.writesAll {e : Event} (h : e.Quiet) : e.WritesAll := by cases e <;> trivial

lemma Event.Quiet.served {e : Event} (h : e.Quiet) : e.Served := by
  cases e <;> trivial

lemma Event.Quiet.alone {e : Event} (h : e.Quiet) : e.Alone := by
  cases e <;> trivial

lemma Event.Quiet.inOrder {e : Event} (h : e.Quiet) : e.InOrder :=
  ⟨h.writesAll, h.served, h.alone, by cases e <;> trivial⟩

lemma Event.Quiet.accepted {e : Event} (h : e.Quiet) : e.Accepted := by
  cases e <;> trivial

lemma Told.murmur {s t : Session} (h : Murmur s t) (hs : Told s) : Told t := by
  have ho := h.all_iff (fun _ he => he.inOrder)
  have hr := h.all_iff (P := fun e => e.Alone ∧ e.Accepted) (fun _ he => ⟨he.alone, he.accepted⟩)
  have hm : ∀ {e : Event}, ¬ e.Quiet → (e ∈ t.trace ↔ e ∈ s.trace) := h.mem_iff
  exact ⟨fun s' site i a b he => hs.gets s' site i a b ((hm id).mp he),
    fun ha s' site i r he => hs.awaited (ho.mp ha) s' site i r ((hm id).mp he),
    fun ha s' i r he => hs.wrote (hr.mp ha) s' i r ((hm id).mp he), h.sound hs.sound⟩

lemma Wire.murmur {φ : Phase} {s t : Session} {i : Link} (h : Murmur s t) (hw : Wire φ s i) :
    Wire φ t i := by
  have hs := h.all_iff (fun _ he => he.served)
  have ha := h.all_iff (fun _ he => he.alone)
  have ho := h.all_iff (fun _ he => he.inOrder)
  have hr := h.all_iff (P := fun e => e.Alone ∧ e.Accepted) (fun _ he => ⟨he.alone, he.accepted⟩)
  have hc : Wire φ { t.toGb.core with statics := s.statics, trace := s.trace } i := by
    rw [h.core]
    exact ⟨hw.1, hw.2, hw.3, hw.4, hw.5, hw.6, hw.7⟩
  exact ⟨fun h => hc.1 (hs.mp h), fun h => hc.2 (ha.mp h), fun h => hc.3 (ha.mp h),
    fun h => hc.4 (ho.mp h), fun h => hc.5 (ho.mp h), fun h => hc.6 (ho.mp h),
    fun h => hc.7 (hr.mp h)⟩

lemma Log.silent {s t : Session} (hc : t.toGb.core = s.toGb.core) (ht : t.trace = s.trace)
    (hi : t.inorderOffset = s.inorderOffset) (hl : t.lastDownloadedByte = s.lastDownloadedByte)
    (h : Log s) : Log t := by
  have hcore : Log { t.toGb.core with
      statics := s.statics, trace := t.trace, inorderOffset := t.inorderOffset,
      lastDownloadedByte := t.lastDownloadedByte } := by
    rw [hc, ht, hi, hl]
    exact ⟨h.1, h.2, h.3, h.4, h.5⟩
  exact ⟨hcore.1, hcore.2, hcore.3, hcore.4, hcore.5⟩

lemma Inv.silent {φ : Phase} {s t : Session} (h : Inv φ s) (hc : t.toGb.core = s.toGb.core)
    (ht : t.trace = s.trace) (he : t.exact = s.exact) (hi : t.inorderOffset = s.inorderOffset)
    (hl : t.lastDownloadedByte = s.lastDownloadedByte)
    (hg : ∀ i, 0 ≤ (t.conn i).bytesPerSecond ∧ 0 ≤ (t.conn i).bytesDone) :
    Inv φ t ∧ Murmur s t := by
  have hm : Murmur s t := ⟨hc, he, [], ht, by simp⟩
  exact ⟨⟨h.rep.of_core hc, hg, fun ha => (h.whole (hm.all ha)).of_core hc, h.log.silent hc ht hi hl,
    h.told.murmur hm, fun i => (h.wire i).murmur hm⟩, hm⟩

lemma Inv.planning {s : Session} {i : Link} (h : Inv (.reading i) s)
    (hun : (s.conn i).pipelineRequestsSent = false) : Planning i s.toGb :=
  ⟨h.rep, fun j => (h.goodput j).1, hun⟩

/-- The session once a call was recorded. -/
def Session.called (s : Session) (f : Call) (i : Link) : Session :=
  { s with trace := .called s.toGb f i :: s.trace }

lemma Murmur.note (s : Session) {w : Gb} {f : Call} {i : Link} (h : Event.Sound (.called w f i)) :
    Murmur s { s with trace := .called w f i :: s.trace } :=
  ⟨rfl, rfl, [_], rfl, by simpa [Event.Quiet] using h⟩

lemma Log.note {s : Session} (h : Log s) (w : Gb) (f : Call) (i : Link) :
    Log { s with trace := .called w f i :: s.trace } := by
  obtain ⟨h₁, h₂, h₃, h₄, h₅⟩ := h
  generalize he : Event.called w f i = e
  have hall : ∀ P : Event → Prop, ({ s with trace := e :: s.trace } : Session).All P → s.All P :=
    fun P ha => ((all_cons_iff rfl).mp ha).2
  have hmem : ∀ e' : Event, e' ≠ e → e' ∈ e :: s.trace → e' ∈ s.trace :=
    fun e' hne hm => (List.mem_cons.mp hm).resolve_left hne
  refine ⟨fun hr => (all_cons_iff (e := e) rfl).mpr ⟨he ▸ True.intro, h₁ hr⟩,
    fun ha s' held v hm => ?_, fun ha => h₃ (hall _ ha), h₄, fun ha s' v hm => ?_⟩
  · exact h₂ (hall _ ha) s' held v (hmem _ (by simp [← he]) hm)
  · exact h₅ (hall _ ha) s' v (hmem _ (by simp [← he]) hm)

lemma Inv.called {φ : Phase} {s : Session} (h : Inv φ s) {f : Call} {i : Link}
    (hf : Event.Sound (.called s.toGb f i)) : Inv φ (s.called f i) ∧ Murmur s (s.called f i) := by
  have hm : Murmur s (s.called f i) := .note s hf
  exact ⟨⟨h.rep.of_core hm.core, h.goodput, fun ha => (h.whole (hm.all ha)).of_core hm.core,
    h.log.note _ f i, h.told.murmur hm, fun j => (h.wire j).murmur hm⟩, hm⟩

lemma Rep.mem_links {φ : Phase} {s : Gb} (h : Rep φ s) (i : Link) : i ∈ s.links := Gb.mem_links h.two i

lemma wp_connByte {s : Session} {crash : Fault → Session → Prop} (i : Link) (current : Option ℕ)
    {gs : List Segment} (hg : ∀ p ∈ parts i gs, p.chunkList ≠ []) (byte : ℤ) :
    wp (connByte i current gs byte) (fun value t => t = s ∧ value ≤ byte ∧
      (∀ p ∈ parts i (gs.filter (fun g => current ≠ some g.id)), ∀ c,
        p.chunkList.head? = some c → value ≤ c.startByte) ∧
      (value = byte ∨ ∃ p ∈ parts i (gs.filter (fun g => current ≠ some g.id)), ∃ c,
        p.chunkList.head? = some c ∧ value = c.startByte)) crash s := by
  induction gs generalizing byte with
  | nil => simp [connByte]
  | cons g gs ih =>
    rw [parts_cons] at hg
    have hgs : ∀ p ∈ parts i gs, p.chunkList ≠ [] := fun p hp => hg p (List.mem_append_right _ hp)
    rw [connByte]
    by_cases hc : current = some g.id
    · have hf : (g :: gs).filter (fun g => current ≠ some g.id) =
          gs.filter (fun g => current ≠ some g.id) := List.filter_cons_of_neg (by simp [hc])
      rw [if_pos hc, hf]
      exact ih hgs byte
    · have hf : (g :: gs).filter (fun g => current ≠ some g.id) =
          g :: gs.filter (fun g => current ≠ some g.id) := List.filter_cons_of_pos (by simp [hc])
      rw [if_neg hc, hf, parts_cons]
      cases hp : g.subsegment i with
      | none => simpa using ih hgs byte
      | some p =>
        have hne := hg p (by simp [hp])
        simp only [wp_bind, wp_demand]
        refine ⟨fun c hc => wp_mono (ih hgs _) ?_ (fun _ _ h => h), fun hn => ?_⟩
        · rintro value t ⟨rfl, hle, hl, ha⟩
          simp only [Option.toList_some, List.singleton_append, List.forall_mem_cons,
            List.exists_mem_cons_iff]
          have hcv : value ≤ byte ∧ value ≤ c.startByte := by split_ifs at hle <;> omega
          refine ⟨True.intro, hcv.1, ⟨fun d hd => ?_, hl⟩, ?_⟩
          · obtain rfl : c = d := by simpa [hc] using hd
            exact hcv.2
          · rcases ha with ha | ha
            · split_ifs at ha
              · exact .inr (.inl ⟨c, hc, ha⟩)
              · exact .inl ha
            · exact .inr (.inr ha)
        · exact absurd (List.head?_eq_none_iff.mp hn) hne

lemma wp_findInorderOffset {φ : Phase} {s : Session} {crash : Fault → Session → Prop}
    (h : Rep φ s.toGb) (hi : ∀ i, s.offsetInfo.connIdle i = (s.conn i).looksIdle) :
    wp findInorderOffset (fun value t => t = s ∧ Found s.toGb value) crash s := by
  have hlinks : s.links = [.lte, .wifi] := by simp [Gb.links, h.two]
  have hparts : ∀ i, ∀ p ∈ parts i s.offsetInfo.segments, p.chunkList ≠ [] := fun i p hp =>
    ((h.lane i).good p hp).nonempty
  simp only [findInorderOffset, Gb.isUsingOnlyOneLink, Gb.activeByte, hi, hlinks, wp_bind, wp_get]
  cases h₀ : (s.conn .lte).looksIdle <;> cases h₁ : (s.conn .wifi).looksIdle
  · simp only [bne_self_eq_false, Bool.false_eq_true, if_false, false_and, wp_bind, wp_connAt,
      hlinks, List.mem_cons, true_or, or_true, true_implies, not_true_eq_false, false_implies, and_true,
      List.not_mem_nil, or_false]
    refine wp_mono (wp_connByte _ _ (hparts _) _) ?_ (fun _ _ h => h)
    rintro a t ⟨rfl, ha, hal, haa⟩
    refine wp_mono (wp_connByte _ _ (hparts _) _) ?_ (fun _ _ h => h)
    rintro b t ⟨rfl, hb, hbl, hba⟩
    have hoth := h.others_eq
    simp only [Gb.others] at hoth
    rw [hoth] at hal haa hbl hba
    refine ⟨rfl, ?_⟩
    have hmin : ∀ i : Link, (if a < b then a else b) ≤ if i = .lte then a else b := by
      intro i
      cases i <;> simp only [reduceCtorEq, if_true, if_false] <;> split_ifs <;> omega
    simp only [Found, h₀, h₁, Bool.false_eq_true, if_false]
    refine ⟨fun i => (hmin i).trans ?_, fun i p hp c hc => (hmin i).trans ?_, ?_⟩
    · cases i
      · exact ha
      · exact hb
    · cases i
      · exact hal p hp c hc
      · exact hbl p hp c hc
    · split_ifs
      · exact ⟨.lte, haa⟩
      · exact ⟨.wifi, hba⟩
  · simp [h₀, h₁, Found]
    simp [Link.other, hi, h₁]
  · simp [h₀, h₁, Found]
    simp [Link.other, hi, h₀]
  · simp [h₀, h₁, Found]

section

variable {φ : Phase} {s : Session}

lemma Sincere.cons {trace : List Event} {e : Event} (h : Sincere trace) (he : e.Sound)
    (hi : ∀ s held value, e ≠ .inorder s held value) : Sincere (e :: trace) := by
  refine ⟨List.forall_mem_cons.mpr ⟨he, h.sound⟩, fun ha s held value hm => ?_⟩
  exact h.guess (List.forall_mem_cons.mp ha).2 s held value
    ((List.mem_cons.mp hm).resolve_left fun hc => hi s held value hc.symm)

lemma sincere_nil : Sincere [] := ⟨by simp, by simp⟩

lemma Sincere.append {trace es : List Event} (h : Sincere trace) (he : ∀ e ∈ es, e.Sound)
    (hi : ∀ e ∈ es, ¬ e.Quiet) : Sincere (es ++ trace) := by
  induction es with
  | nil => exact h
  | cons e es ih =>
    simp only [List.forall_mem_cons] at he hi
    exact (ih he.2 hi.2).cons he.1 fun _ _ _ hn => hi.1 (by simp [hn, Event.Quiet])

lemma Inv.sincere_found {value : ℤ} (h : Inv φ s) (hv : Found s.toGb value) :
    Sincere (.inorder s.toGb φ.held value :: s.trace) := by
  refine ⟨List.forall_mem_cons.mpr ⟨trivial, h.told.sound⟩, fun ha s' held w hm => ?_⟩
  have ha' := (List.forall_mem_cons.mp ha).2
  rcases List.mem_cons.mp hm with he | hm
  · cases he
    exact hv.completeTo_iff h.rep (h.whole ha')
  · exact h.log.guess ha' s' held w hm

/-- The log after a call of `update_inorder_offset` that finds the offset. -/
lemma Inv.log_found {value : ℤ} (h : Inv φ s) (hv : Found s.toGb value)
    (hle : s.inorderOffset ≤ value) :
    Log { s with trace := .inorder s.toGb φ.held value :: s.trace, inorderOffset := value } := by
  obtain ⟨h₁, h₂, h₃, h₄, h₅⟩ := h.log
  have hall : ∀ P : Event → Prop, ({ s with
      trace := .inorder s.toGb φ.held value :: s.trace, inorderOffset := value } : Session).All P ↔
        P (.inorder s.toGb φ.held value) ∧ s.All P := fun P => all_cons_iff rfl
  refine ⟨fun hr => (hall _).mpr ⟨trivial, h₁ hr⟩, (h.sincere_found hv).guess, ?_, ?_, ?_⟩
  · intro ha
    obtain ⟨⟨-, hg⟩, ha'⟩ := (hall _).mp ha
    have hw := h.whole (ha'.imp fun _ he => he.1)
    obtain ⟨hs, hp⟩ := hv.le_size h.rep hw
    exact ⟨(hv.completeTo_iff h.rep hw).mpr hg, hs, hp⟩
  · intro hr hrun
    exact (h₄ hr hrun).trans hle
  · intro ha s' w hm
    rcases List.mem_cons.mp hm with he | hm
    · cases he
    · exact h₅ ((hall _).mp ha).2 s' w hm

lemma Inv.found {value : ℤ} (h : Inv φ s) (hv : Found s.toGb value)
    (hle : s.inorderOffset ≤ value) :
    let t : Session :=
      { s with trace := .inorder s.toGb φ.held value :: s.trace, inorderOffset := value }
    Inv φ t ∧ Murmur s t := by
  intro t
  have hm : Murmur s t := ⟨rfl, rfl, [.inorder s.toGb φ.held value], rfl,
    by simp [Event.Quiet, Event.Sound]⟩
  exact ⟨⟨h.rep.of_core hm.core, h.goodput, fun ha => (h.whole (hm.all ha)).of_core hm.core,
    h.log_found hv hle, h.told.murmur hm, fun i => (h.wire i).murmur hm⟩, hm⟩

/-- The session once the marks of idle connections are set. -/
def Session.marked (s : Session) : Session := { s with offsetInfo := { s.offsetInfo with
  connIdle := fun i => if i ∈ s.links then (s.conn i).looksIdle else s.offsetInfo.connIdle i } }

lemma Found.of_marked {value : ℤ} (h : Found s.marked.toGb value) : Found s.toGb value := by
  have hc : s.marked.conn = s.conn := rfl
  have hs : s.marked.size = s.size := rfl
  simp only [Found, hc, hs] at h ⊢
  split_ifs at h ⊢
  · exact h
  · exact h
  · exact h
  · exact ⟨h.1, h.2, h.3⟩

/-- The only way to fail is to find an offset that is smaller than the one before. -/
lemma wp_updateInorderOffset_found {crash : Fault → Session → Prop} {post : Unit → Session → Prop}
    (h : Rep φ s.marked.toGb) (held : List Chunk) (hp : ∀ value, Found s.marked.toGb value →
      (s.inorderOffset ≤ value → post () { s.marked with
        trace := .inorder s.marked.toGb held value :: s.trace, inorderOffset := value }) ∧
      (¬ s.inorderOffset ≤ value → crash .assertInorder { s.marked with
        trace := .inorder s.marked.toGb held value :: s.trace })) :
    wp (updateInorderOffset held) post crash s := by
  rw [updateInorderOffset]
  simp only [wp_bind, wp_modify]
  refine wp_mono (wp_findInorderOffset h fun i => if_pos (h.mem_links i)) ?_ (fun _ _ h => h)
  rintro value t ⟨rfl, hv⟩
  simp only [wp_logEvent, wp_get, wp_ensure]
  exact hp value hv

lemma wp_updateInorderOffset (h : Inv φ s) :
    wp (updateInorderOffset φ.held) (fun _ t => Inv φ t ∧ Murmur s t) Sane s := by
  obtain ⟨h₁, hm₁⟩ := h.silent (t := s.marked) rfl rfl rfl rfl rfl h.goodput
  refine wp_updateInorderOffset_found h₁.rep φ.held fun value hv => ⟨fun hle => ?_, fun hlt =>
    ⟨h₁.sincere_found hv, fun ha => ?_⟩⟩
  · obtain ⟨h₂, hm₂⟩ := h₁.found hv hle
    exact ⟨h₂, hm₁.trans hm₂⟩
  · obtain ⟨-, ha'⟩ := (all_cons_iff (s := s) rfl).mp ha
    obtain ⟨hc, hs, hp⟩ := h₁.log.complete ha'
    exact hlt (hv.ge h₁.rep (h₁.whole (ha'.imp fun _ he => he.1)) hc hs hp)

/-- When the bytes done add up to the size, all of the file is written. -/
lemma Rep.completeTo_size {s : Gb} (h : Rep φ s) (hb : s.bytesDone = s.size) :
    s.CompleteTo s.size := by
  intro b h₀ _ hs
  refine covered_of_total (n := s.size) (fun c => ?_) h.written (h.bytesDone ▸ hb) h₀ hs
  have := h.load c
  rw [h.load_eq] at this
  omega

lemma wp_updateLastDownloadedByte (hr : Rep φ s.toGb) (hl : Log s) :
    wp updateLastDownloadedByte (fun _ t => Log t ∧ Murmur s t ∧
      (∀ i, t.conn i = s.conn i) ∧ t.offsetInfo = s.offsetInfo) Sane s := by
  rw [updateLastDownloadedByte]
  simp only [wp_bind, wp_get, wp_ensure, wp_modify, wp_logEvent]
  refine ⟨fun _ => ?_, fun hn => absurd (fun ho => hl.order ho.1 ho.2) hn⟩
  obtain ⟨h₁, h₂, h₃, h₄, h₅⟩ := hl
  generalize hv : (if s.ready = .no ∧ s.run = true then s.inorderOffset else s.size) = value
  refine ⟨?_, ⟨rfl, rfl, [_], rfl, by simp [Event.Quiet, Event.Sound]⟩, by simp, by simp⟩
  generalize he : Event.announced _ value = e
  have hall : ∀ P : Event → Prop, ({ s with
      trace := e :: s.trace, lastDownloadedByte := value } : Session).All P ↔ P e ∧ s.All P :=
    fun P => all_cons_iff rfl
  subst he
  refine ⟨fun hr => (hall _).mpr ⟨trivial, h₁ hr⟩, ?_, ?_, ?_, ?_⟩
  · intro ha s' held w hm
    rcases List.mem_cons.mp hm with he | hm
    · cases he
    · exact h₂ ((hall _).mp ha).2 s' held w hm
  · intro ha
    exact h₃ ((hall _).mp ha).2
  · intro hn hrun
    rw [if_pos ⟨hn, hrun⟩] at hv
    exact hv ▸ le_rfl
  · intro ha s' w hm
    obtain ⟨⟨-, ht⟩, ha'⟩ := (hall _).mp ha
    rcases List.mem_cons.mp hm with he | hm
    · cases he
      rcases ht with ⟨hn, hrun⟩ | hb
      · rw [if_pos ⟨hn, hrun⟩] at hv
        have hw := h₁ hn
        obtain ⟨hc, hs, -⟩ := h₃ (fun e he => ⟨hw e he, (ha' e he).1⟩)
        exact hv ▸ ⟨hc, hs⟩
      · split_ifs at hv with hno
        · have hw := h₁ hno.1
          obtain ⟨hc, hs, -⟩ := h₃ (fun e he => ⟨hw e he, (ha' e he).1⟩)
          exact hv ▸ ⟨hc, hs⟩
        · exact hv ▸ ⟨hr.completeTo_size hb, le_rfl⟩
    · exact h₅ ha' s' w hm

lemma Inv.announce (h : Inv φ s) :
    wp updateLastDownloadedByte (fun _ t => Inv φ t ∧ Murmur s t) Sane s := by
  refine wp_mono (wp_updateLastDownloadedByte h.rep h.log) ?_ (fun _ _ h => h)
  rintro _ t ⟨hl, hm, hc, -⟩
  exact ⟨⟨h.rep.of_core hm.core, fun i => hc i ▸ h.goodput i,
    fun ha => (h.whole (hm.all ha)).of_core hm.core, hl, h.told.murmur hm,
    fun i => (h.wire i).murmur hm⟩, hm⟩

lemma wp_getFastConnIndex {post : Link → Session → Prop} (hs : Sincere s.trace)
    (hp : ∀ i, post i s) : wp getFastConnIndex post Sane s := by
  simp [getFastConnIndex, hp, hs]

lemma truncate_nonneg {q : ℚ} (hq : 0 ≤ q) : 0 ≤ truncate q := by
  rw [truncate, if_pos hq]
  exact Int.floor_nonneg.mpr hq

lemma Conn.updateGoodput_nonneg {c : Conn} {elapsed ewmaFactor : ℚ} {first : Bool}
    (he : 0 < elapsed) (hb : 0 ≤ c.bytesDone) (hs : 0 ≤ c.bytesPerSecond) :
    0 ≤ (c.updateGoodput elapsed ewmaFactor first).bytesPerSecond := by
  by_cases h : c.bytesDone = 0
  · simpa only [Conn.updateGoodput, if_pos h] using hs
  · simp only [Conn.updateGoodput, if_neg h]
    exact truncate_nonneg (div_nonneg (by exact_mod_cast hb) he.le)

lemma Conn.updateGoodput_core (c : Conn) (elapsed ewmaFactor : ℚ) (first : Bool) :
    { c.updateGoodput elapsed ewmaFactor first with
      bytesDone := 0, bytesPerSecond := 0, ewmaBytesPerSecond := 0, lastSegmentFlag := false } =
    { c with
      bytesDone := 0, bytesPerSecond := 0, ewmaBytesPerSecond := 0, lastSegmentFlag := false } := by
  unfold Conn.updateGoodput
  dsimp only
  split_ifs <;> rfl

lemma wp_gbUpdateGoodput {elapsed : Link → ℚ} (h : Inv φ s) (he : ∀ i, 0 < elapsed i) :
    wp (gbUpdateGoodput elapsed) (fun _ t => Inv φ t ∧ Murmur s t) Sane s := by
  simp only [gbUpdateGoodput, wp_bind, wp_modify]
  refine wp_getFastConnIndex h.sincere fun fast => ?_
  simp only [wp_modifyOffsetInfo]
  refine h.silent ?_ rfl rfl rfl rfl fun i => ?_
  · simp only [Gb.core, Gb.mk.injEq, true_and, and_true]
    funext i
    simp only [if_pos (h.rep.mem_links i)]
    exact Conn.updateGoodput_core ..
  · have hg := h.goodput i
    simp only [if_pos (h.rep.mem_links i), le_refl, and_true]
    exact Conn.updateGoodput_nonneg (he i) hg.2 hg.1

/-- The policy only fails with the assertion in `update_inorder_offset`, and asks for a segment of the
initial size at least. -/
lemma wp_gbDetermineNextSegmentPolicy_found {crash : Fault → Session → Prop}
    {post : ℤ → Session → Prop} (h : Rep φ s.toGb) (held : List Chunk)
    (hc : ∀ t value, Found s.toGb value → value < s.inorderOffset → crash .assertInorder t)
    (hp : ∀ t wanted, s.offsetInfo.initSegSize ≤ wanted →
      (∀ value, Found s.toGb value → s.inorderOffset ≤ value) → t.size = s.size → t.conn = s.conn →
      t.offsetInfo = { s.offsetInfo with connIdle := t.offsetInfo.connIdle } → post wanted t) :
    wp (gbDetermineNextSegmentPolicy held) post crash s := by
  have hm : Rep φ s.marked.toGb := Rep.of_core (s := s.toGb) rfl h
  simp only [gbDetermineNextSegmentPolicy, wp_bind, wp_connAt]
  refine ⟨fun _ => ⟨fun _ => ?_, fun hn => absurd (h.mem_links _) hn⟩,
    fun hn => absurd (h.mem_links _) hn⟩
  refine wp_updateInorderOffset_found hm held fun value hv => ⟨fun hle => ?_, fun hlt => ?_⟩
  · simp only [wp_get, wp_pure]
    refine hp _ _ ?_ (fun value' hv' => (hv.of_marked.unique hv') ▸ hle) rfl rfl rfl
    have hsame : s.marked.offsetInfo.initSegSize = s.offsetInfo.initSegSize := rfl
    split_ifs <;> omega
  · exact hc _ value hv.of_marked (by omega)

lemma wp_gbDetermineNextSegmentPolicy (h : Inv φ s) :
    wp (gbDetermineNextSegmentPolicy φ.held) (fun size t => Inv φ t ∧ Murmur s t ∧
      t.offsetInfo.initSegSize ≤ size) Sane s := by
  simp only [gbDetermineNextSegmentPolicy, wp_bind, wp_connAt, sane_connOutOfBounds, h.sincere,
    implies_true, and_true]
  intro _ _
  refine wp_mono (wp_updateInorderOffset h) ?_ (fun _ _ h => h)
  rintro _ t ⟨ht, hm⟩
  simp only [wp_get, wp_pure]
  refine ⟨ht, hm, ?_⟩
  split_ifs <;> omega

end

end GreenBag
