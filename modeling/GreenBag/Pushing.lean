import GreenBag.Sending
import GreenBag.Choosing

/-! Planning: a new segment of the next bytes of the file or of recovered chunks, dealt out to the two
connections. -/

namespace GreenBag

open Programs Ranges Schedules Function

/-- The connection stands where it stood, whatever else was done since. -/
structure SameCursor (i : Link) (s t : Session) : Prop where
  currentbyte : (t.conn i).currentbyte = (s.conn i).currentbyte
  lastbyte : (t.conn i).lastbyte = (s.conn i).lastbyte
  exact : t.exact = s.exact
  trace : s.trace <:+ t.trace

namespace SameCursor

variable {i : Link} {s t u : Session}

lemma of_conn (h : t.conn i = s.conn i) (he : t.exact = s.exact) (ht : s.trace <:+ t.trace) :
    SameCursor i s t :=
  ⟨by rw [h], by rw [h], he, ht⟩

lemma trans (h : SameCursor i s t) (h' : SameCursor i t u) : SameCursor i s u :=
  ⟨h'.1.trans h.1, h'.2.trans h.2, h'.3.trans h.3, h.4.trans h'.4⟩

end SameCursor

/-- Nor has it been told of anything more. -/
structure Unmoved (i : Link) (s t : Session) : Prop where
  cursor : SameCursor i s t
  flag : (t.conn i).pipelineRequestsSent = (s.conn i).pipelineRequestsSent

namespace Unmoved

variable {i : Link} {s t u : Session}

lemma of_conn (h : t.conn i = s.conn i) (he : t.exact = s.exact) (ht : s.trace <:+ t.trace) :
    Unmoved i s t :=
  ⟨.of_conn h he ht, by rw [h]⟩

lemma refl (s : Session) : Unmoved i s s := of_conn rfl rfl (List.suffix_refl _)

lemma trans (h : Unmoved i s t) (h' : Unmoved i t u) : Unmoved i s u :=
  ⟨h.cursor.trans h'.cursor, h'.flag.trans h.flag⟩

end Unmoved

lemma Murmur.unmoved {s t : Session} (h : Murmur s t) (i : Link) : Unmoved i s t := by
  have hc : (t.core.conn i).currentbyte = (s.core.conn i).currentbyte ∧
      (t.core.conn i).lastbyte = (s.core.conn i).lastbyte ∧
      (t.core.conn i).pipelineRequestsSent = (s.core.conn i).pipelineRequestsSent := by
    rw [h.core]
    exact ⟨rfl, rfl, rfl⟩
  obtain ⟨es, ht, -⟩ := h.trace
  exact ⟨⟨hc.1, hc.2.1, h.exact, es, ht.symm⟩, hc.2.2⟩

section

variable {i : Link} {front : List Segment} {g : Segment} {s t : Session}

/-- A new segment is at the end of the list, and no chunk of it is dealt out yet. -/
structure Pushed (i : Link) (front : List Segment) (g : Segment) (t : Session) : Prop where
  segments : t.offsetInfo.segments = front ++ [g]
  linked : t.offsetInfo.Linked
  bare : g.subsegment = fun _ => none
  nonempty : g.chunkList ≠ []
  handing : Handing i g.recoverySegment (fun j => if j = i then [] else g.chunkList)
    (t.veiled front g fun _ => false)
  sorted : ByStart g.chunkList
  size : g.size = sizeSum g.chunkList
  pointer : ∀ j, (g.recoverySegment → j = i) → t.offsetInfo.connection j = firstWith j front

lemma Pushed.sincere (h : Pushed i front g t) : Sincere t.trace :=
  ⟨h.handing.told.sound, h.handing.log.guess⟩

lemma only_bare (hb : g.subsegment = fun _ => none) (told : Link → Bool) : g.only told = g := by
  cases g
  simp only at hb
  simp [Segment.only, hb]

/-- No connection points to a segment of fresh bytes, so there is nothing to leave out. -/
lemma Pushed.veiled_eq (h : Pushed i front g t) (hr : g.recoverySegment = false) :
    t.veiled front g (fun _ => false) = t := by
  have hp : ∀ j, firstWith j front = t.offsetInfo.connection j := fun j =>
    (h.pointer j (by simp [hr])).symm
  simp only [Session.veiled, only_bare h.bare, Bool.false_eq_true, if_false, hp]
  rw [← h.segments]

lemma Pushed.inside (h : Pushed i front g t) : ∀ c ∈ g.chunkList, c.Inside t.frontier := by
  intro c hc
  have hin := h.handing.inside i.other c
  rw [if_neg (Link.other_ne i)] at hin
  exact hin hc

lemma Pushed.cover_le (h : Pushed i front g t) (b : ℤ) : cover (g.chunkList.map Chunk.range) b ≤ 1 := by
  have hl := h.handing.load b
  rw [handed_load, sum_link (fun j => cover (List.map Chunk.range (if j = i then [] else _)) b)] at hl
  cases i <;> simp at hl <;> omega

lemma parts_veiled (j : Link) : (t.veiled front g fun _ => false).parts j = parts j front :=
  (parts_untold rfl front).1

lemma Pushed.weighed (h : Pushed i front g t) (hr : g.recoverySegment = false) : t.Weighed := by
  have hrep := h.handing.rep
  have hparts : ∀ j, (t.veiled front g fun _ => false).parts j = parts j front := parts_veiled
  rw [h.veiled_eq hr] at hrep hparts
  intro j
  refine ⟨fun hc => ?_, fun p hp => ((hrep.lane j).good p hp).size_nonneg⟩
  have hne : t.parts j ≠ [] := by
    rw [h.pointer j (by simp [hr])] at hc
    rw [hparts]
    exact fun hn => hc (firstWith_eq_none.mpr hn)
  obtain ⟨d, ds, ps, hcur⟩ := hrep.cursor hne
  have := hcur.slack
  have := (Phase.reading i).slack_le j
  omega

lemma Pushed.atTail (h : Pushed i front g t) : AtTail front g t.toGb where
  linked := h.linked
  segments := h.segments
  valid := fun c hc => (h.inside c hc).1
  ascending := ascending_of_byStart h.sorted (fun c hc => (h.inside c hc).1) h.cover_le
  size := h.size
  weighed := h.weighed

lemma Pushed.rep (h : Pushed i front g t) (hr : g.recoverySegment = false) :
    Rep (.reading i) t.toGb := by
  have hrep := h.handing.rep
  rwa [h.veiled_eq hr] at hrep

lemma Pushed.ready (h : Pushed i front g t) (hun : (t.conn i).pipelineRequestsSent = false) :
    TailReady i front g t.toGb :=
  ⟨h.atTail, h.bare, h.nonempty, fun j => (h.handing.goodput j).1,
    fun hr => ⟨h.rep hr, fun j => (h.handing.goodput j).1, hun⟩⟩

/-- Dealt out, the chunks are pending for the connection that has to fetch them. -/
lemma Pushed.dealt (h : Pushed i front g t) {share : Link → Option Subsegment}
    (hd : Dealt g.chunkList share) :
    Staged i front { g with subsegment := share } (fun _ => false) (t.dealt front g share) := by
  have hgood : ∀ j p, share j = some p → p.Good t.frontier := by
    intro j p hp
    obtain ⟨hne, hpieces, hasc, hsize⟩ := hd.pieces j p hp
    refine ⟨hne, fun c hc => ?_, hasc, hsize ▸ sizeSum_nonneg fun c hc => (hpieces c hc).1⟩
    obtain ⟨hv, d, hd, h₁, h₂⟩ := hpieces c hc
    obtain ⟨-, h₃, h₄⟩ := h.inside d hd
    exact ⟨hv, h₃.trans h₁, by omega⟩
  have hlinked := h.linked
  have hgid : ({ g with subsegment := share } : Segment).id = g.id := rfl
  refine ⟨rfl, ?_, ?_, hgood, fun j _ hr => h.pointer j hr,
    fun j p hp => (hd.pieces j p hp).2.2.2⟩
  · have hm := hlinked.modifySegment (f := fun k => { k with subsegment := share }) g.id fun _ => rfl
    have he := h.atTail.modifySegment_eq fun k => { k with subsegment := share }
    rw [he] at hm
    exact hm
  · have hc : ∀ j, ∀ c ∈ ({ g with subsegment := share } : Segment).chunks j, c.Inside t.frontier := by
      intro j c hc
      rw [Segment.chunks] at hc
      cases hs : share j with
      | none => simp [hs] at hc
      | some p =>
        simp only [hs] at hc
        exact (hgood j p hs).inside c hc
    have hh := h.handing.deal ({ g with subsegment := share } : Segment).chunks (fun b => ?_) hc
    · have hveil : (t.dealt front g share).veiled front { g with subsegment := share }
          (fun _ => false) = t.veiled front g fun _ => false := by
        simp [Session.veiled, Session.dealt, Segment.only]
      rw [hveil]
      simpa using hh
    · have hb := hd.cover b
      simp only [Segment.chunks, hb]
      rw [sum_link]
      cases i <;> simp

lemma sizeSum_perm {cs ds : List Chunk} (h : cs.Perm ds) : sizeSum cs = sizeSum ds :=
  (h.map Chunk.size).sum_eq

lemma wp_addNewSegment_pushed {φ : Phase} {n size : ℤ} {cs : List Chunk} {recovery : Bool}
    (h : Inv φ s) (hφ : φ = .reading i ∨ ∃ held, φ = .robbing i held) (hn : 0 ≤ n)
    (hfit : s.frontier + n ≤ s.size) (hcs : cs = φ.held ++ freshChunks s.frontier n)
    (hsize : size = sizeSum cs) (hrob : recovery = false → φ.held = [])
    (hhalt : recovery = true → (s.conn i.other).enabled = false ∧ s.parts i.other = []) :
    wp (addNewSegment recovery cs size) (fun _ t => ∃ g, g.recoverySegment = recovery ∧
      Pushed i s.offsetInfo.segments g t ∧ Unmoved i s t) Sane s := by
  refine wp_addNewSegment h.rep.linked (fun _ => (sane_nullPointer s).mpr h.sincere) fun last hlast => ?_
  generalize hg : bareSegment (s.offsetInfo.segmentCount + 1) recovery (sortingChunks cs) size = g
  have hbare : g.subsegment = fun _ => none := hg ▸ rfl
  have hperm := sortingChunks_perm cs
  have hnext : Next φ s.toGb n g := by
    refine ⟨hn, hfit, hg ▸ rfl, hbare, ?_, hg ▸ sortingChunks_byStart cs, ?_⟩
    · rw [← hcs, ← hg]
      exact hperm
    · rw [← hg]
      exact hsize.trans (sizeSum_perm hperm).symm
  have hlast' : g.chunkList.getLast? = some last := hg ▸ hlast
  have hne : g.chunkList ≠ [] := List.ne_nil_of_mem (List.mem_of_getLast? hlast')
  refine ⟨g, hg ▸ rfl, ⟨rfl, h.rep.linked.push hnext.id _, hbare, hne, ?_, hnext.sorted, hnext.size,
    fun j hj => ?_⟩, .of_conn rfl rfl (List.suffix_refl _)⟩
  · have hh := h.push hφ hnext hlast' hrob hhalt
    have hrec : g.recoverySegment = recovery := hg ▸ rfl
    rw [hrec]
    convert hh using 1
    simp [Session.veiled, Session.pushed, OffsetInfo.push, only_bare hbare]
  · have hheld : φ.heldFrom j = [] := by
      obtain rfl | ⟨held, rfl⟩ := hφ
      · rfl
      · by_cases hji : j = i
        · rw [hji]
          exact if_neg (Link.other_ne i).symm
        · have hfalse : recovery = false := by
            have hrec : g.recoverySegment = recovery := hg ▸ rfl
            rw [hrec] at hj
            simpa using fun hr => hji (hj hr)
          have hnil : held = [] := hrob hfalse
          rw [hnil, Phase.heldFrom]
          split_ifs <;> rfl
    exact h.rep.pointer j hheld

/-- The other connection is pointed to the segment that recovers its chunks. -/
lemma Pushed.repoint (h : Pushed i front g t) (hr : g.recoverySegment = true) (id : ℕ) :
    Pushed i front g { t with offsetInfo := { t.offsetInfo with
      connection := update t.offsetInfo.connection i.other (some id) } } := by
  refine ⟨h.segments, ⟨h.linked.1, h.linked.2, h.linked.3, h.linked.4⟩, h.bare, h.nonempty,
    h.handing, h.sorted, h.size, fun j hj => ?_⟩
  have hji := hj hr
  rw [← h.pointer j hj, hji]
  exact update_of_ne (Link.other_ne i).symm ..

lemma Gb.clipSegSize_fits {φ : Phase} {s : Gb} (h : Rep φ s) {wanted : ℤ} (hw : 0 ≤ wanted) :
    0 ≤ s.clipSegSize wanted ∧ s.frontier + s.clipSegSize wanted ≤ s.size := by
  have hi := h.initSegSize
  have hf := h.frontier.2
  simp only [Gb.frontier] at hf ⊢
  rw [Gb.clipSegSize]
  split_ifs <;> omega

lemma wp_gbDetermineNextSegmentSize (h : Inv (.reading i) s)
    (hun : (s.conn i).pipelineRequestsSent = false) :
    wp (gbDetermineNextSegmentSize i) (fun size t => Unmoved i s t ∧
      if size = 0 then Inv (.reading i) t
      else ∃ front g, Pushed i front g t ∧ g.recoverySegment = false) Sane s := by
  obtain ⟨hc, hmc⟩ := h.called (f := .nextSegmentSize) (h.planning hun)
  have hwanted : ∀ {f : ℤ → Program ℤ} {post : ℤ → Session → Prop},
      (∀ wanted t, Inv (.reading i) t → Unmoved i s t → 0 ≤ wanted → wp (f wanted) post Sane t) →
      wp ((if (s.called .nextSegmentSize i).conf.fixedSegmentMode then
        pure (if (s.called .nextSegmentSize i).isUsingOnlyOneLink then
          (s.called .nextSegmentSize i).offsetInfo.initSegSize.tdiv 2
          else (s.called .nextSegmentSize i).offsetInfo.initSegSize)
      else gbDetermineNextSegmentPolicy []) >>= f) post Sane (s.called .nextSegmentSize i) := by
    intro f post hf
    have hi := hc.rep.initSegSize
    simp only [wp_bind, wp_ite, wp_pure]
    refine ⟨fun _ => hf _ _ hc (hmc.unmoved i) ?_, fun _ => ?_⟩
    · split_ifs
      · exact Int.tdiv_nonneg (by omega) (by omega)
      · omega
    · have hpolicy := wp_gbDetermineNextSegmentPolicy hc
      refine wp_mono hpolicy ?_ (fun _ _ h => h)
      rintro size t ⟨ht, hm, hle⟩
      have := ht.rep.initSegSize
      exact hf size t ht ((hmc.trans hm).unmoved i) (by omega)
  simp only [gbDetermineNextSegmentSize]
  rw [wp_bind, wp_logEvent, wp_bind, wp_get]
  refine hwanted fun wanted t ht hcur hw => ?_
  have hrem := ht.rep.remaining
  have hsame : ({ t with offsetInfo := { t.offsetInfo with remainingChunks := [] } } : Session) =
      t := by rw [← hrem]
  obtain ⟨h₀, hfit⟩ := Gb.clipSegSize_fits ht.rep hw
  simp only [wp_bind, wp_get, wp_modifyOffsetInfo, hsame, hrem, List.map_nil, List.sum_nil, add_zero,
    ne_eq]
  rw [wp_ite]
  refine ⟨fun hne => ?_, fun hz => ?_⟩
  · rw [wp_bind]
    refine wp_getStartByteNextSegment (fun _ => (sane_assertTail t).mpr ht.sincere) ?_
    rw [wp_bind]
    refine wp_mono (wp_addNewSegment_pushed (n := t.clipSegSize wanted) ht (.inl rfl) h₀ hfit ?_ ?_
      (fun _ => rfl) (by simp)) ?_ (fun _ _ h => h)
    · rw [freshChunks, if_neg hne]
      rfl
    · simp [addNewChunk, newChunk]
    · rintro _ u ⟨g, hr, hg, hc⟩
      refine ⟨hcur.trans hc, ?_⟩
      rw [if_neg hne]
      exact ⟨_, g, hg, hr⟩
  · have hz' : t.clipSegSize wanted = 0 := by simpa using hz
    simp only [wp_bind, wp_whenever, wp_pure, hz', if_true]
    exact ⟨fun hn => absurd hrem hn, fun _ => ⟨hcur, ht⟩⟩

lemma Pushed.murmur (h : Pushed i front g s) (hr : g.recoverySegment = false) (hm : Murmur s t)
    (hl : Log t) (hg : ∀ j, 0 ≤ (t.conn j).bytesPerSecond ∧ 0 ≤ (t.conn j).bytesDone) :
    Pushed i front g t := by
  have hh := h.handing
  rw [h.veiled_eq hr] at hh
  have hseg : t.offsetInfo.segments = front ++ [g] := hm.list.1.trans h.segments
  have hcon : ∀ j, t.offsetInfo.connection j = firstWith j front := fun j =>
    (congrFun hm.list.2 j).trans (h.pointer j (by simp [hr]))
  have hveil : t.veiled front g (fun _ => false) = t := by
    simp only [Session.veiled, only_bare h.bare, Bool.false_eq_true, if_false, ← hcon]
    rw [← hseg]
  have ht := hh.murmur hm hl hg
  exact ⟨hseg, ht.rep.linked, h.bare, h.nonempty, hveil.symm ▸ ht, h.sorted, h.size,
    fun j _ => hcon j⟩

lemma Pushed.called (h : Pushed i front g s) {f : Call} (hf : Event.Sound (.called s.toGb f i)) :
    Pushed i front g (s.called f i) :=
  ⟨h.segments, h.linked, h.bare, h.nonempty,
    h.handing.murmur (.note (s.veiled front g fun _ => false) hf) (h.handing.log.note _ f i)
      h.handing.goodput, h.sorted, h.size, h.pointer⟩

/-- The choice of the links changes nothing but what the choices depend on. -/
lemma wp_chooseLinkMode_pushed (h : Pushed i front g s) (hr : g.recoverySegment = false)
    (hun : (s.conn i).pipelineRequestsSent = false) (x : Inputs) :
    wp (chooseLinkMode i x) (fun _ t => Unmoved i s t ∧ Pushed i front g t) Sane s := by
  have hh := h.handing
  rw [h.veiled_eq hr] at hh
  refine wp_mono (wp_chooseLinkMode ((h.ready hun).planning hr) hh.log hh.told.sound x) ?_ (fun _ _ h => h)
  rintro _ _ ⟨t, flag, ht, rfl⟩
  have hm : Murmur s { t with offsetInfo := { t.offsetInfo with singleLinkModeFlag := flag } } :=
    ⟨ht.murmur.core, ht.murmur.exact, ht.murmur.trace⟩
  exact ⟨hm.unmoved i, h.murmur hr hm (Log.silent (s := t) rfl rfl rfl rfl ht.log)
    (ht.conn ▸ hh.goodput)⟩

/-- What planning a segment leads to: parts for the connections, or nothing new. -/
def Planned (i : Link) (planned : Bool) (t : Session) : Prop :=
  if planned then ∃ front g, Staged i front g (fun _ => false) t else Inv (.reading i) t

lemma wp_gbDetermineNextSubsegment_staged (h : Pushed i front g s) (hex : s.exact)
    (hun : (s.conn i).pipelineRequestsSent = false) (mode : LinkMode) :
    wp (gbDetermineNextSubsegment i mode) (fun _ t => Unmoved i s t ∧
      ∃ front g, Staged i front g (fun _ => false) t) Sane s := by
  have hf : Event.Sound (.called s.toGb (.nextSubsegment mode) i) := ⟨front, g, h.ready hun⟩
  refine wp_mono (wp_gbDetermineNextSubsegment h.atTail h.bare h.handing.rep.rates
    (fun j => (h.handing.goodput j).1) hex i mode (h.sincere.cons hf (by simp))) ?_ (fun _ _ h => h)
  rintro _ t ⟨share, hd, rfl⟩
  exact ⟨.of_conn rfl rfl (List.suffix_cons _ _), front, _, (h.called hf).dealt hd⟩

lemma wp_setupFreshSegment {x : Inputs} (h : Inv (.reading i) s) (hex : s.exact)
    (hun : (s.conn i).pipelineRequestsSent = false) (he : ∀ j, 0 < x.elapsed j) :
    wp (setupFreshSegment i x) (fun planned t => Unmoved i s t ∧ Planned i planned t) Sane s := by
  simp only [setupFreshSegment, wp_bind]
  refine wp_mono (wp_gbUpdateGoodput h he) ?_ (fun _ _ h => h)
  rintro _ t ⟨ht, hm⟩
  refine wp_mono (wp_gbDetermineNextSegmentSize ht ((hm.unmoved i).flag.trans hun)) ?_
    (fun _ _ h => h)
  rintro size u ⟨hc, hu⟩
  have hcur := (hm.unmoved i).trans hc
  rw [wp_ite]
  refine ⟨fun hz => ?_, fun hz => ?_⟩
  · rw [if_pos hz] at hu
    exact ⟨hcur, hu⟩
  · rw [if_neg hz] at hu
    obtain ⟨front, g, hg, hr⟩ := hu
    have hdeal : ∀ {v : Session} (mode : LinkMode), Unmoved i s v → Pushed i front g v →
        wp (gbDetermineNextSubsegment i mode)
          (fun _ t => Unmoved i s t ∧ Planned i true t) Sane v := by
      intro v mode hv hp
      refine wp_mono (wp_gbDetermineNextSubsegment_staged hp (hv.cursor.exact.trans hex)
        (hv.flag.trans hun) mode) ?_ (fun _ _ h => h)
      rintro _ w ⟨hw, hs⟩
      exact ⟨hv.trans hw, hs⟩
    simp only [wp_bind, wp_get, wp_pure, wp_ite]
    refine ⟨fun _ => ?_, fun _ => hdeal _ hcur hg⟩
    refine wp_mono (wp_chooseLinkMode_pushed hg hr (hcur.flag.trans hun) x) ?_ (fun _ _ h => h)
    rintro mode v ⟨hv, hp⟩
    exact hdeal mode (hcur.trans hv) hp

lemma Staged.recovered {told : Link → Bool} (h : Staged i front g told s) (n : ℕ) :
    Staged i front g told { s with numRecoveries := n } := by
  have hm : Murmur (s.veiled front g told)
      (({ s with numRecoveries := n } : Session).veiled front g told) := ⟨rfl, rfl, [], rfl, by simp⟩
  have hh := h.handing
  exact ⟨h.segments, h.linked, hh.murmur hm
    (Log.silent (s := s.veiled front g told) rfl rfl rfl rfl hh.log) hh.goodput, h.good, h.pointer,
    h.sized⟩

lemma wp_recoverOutorderPortionAndNextSegment (h : Inv (.reading i) s)
    (hun : (s.conn i).pipelineRequestsSent = false) (hp : s.parts i.other ≠ []) :
    wp (recoverOutorderPortionAndNextSegment i) (fun _ t => Unmoved i s t ∧
      ∃ front g, Pushed i front g t) Sane (s.halted i.other) := by
  simp only [recoverOutorderPortionAndNextSegment]
  rw [wp_bind]
  have hpointer := h.rep.pointer i.other rfl
  obtain ⟨d, ds, ps, hcur⟩ := h.rep.cursor hp
  have hco := halted_conn s i.other
  refine wp_mono (wp_detachChunks (s := s.halted i.other) h.rep.linked hcur.halted hpointer) ?_
    (fun _ _ h => h.elim)
  rintro held t ⟨hheld, q, rfl, hq, hnil⟩
  have hrob := h.robbed hun hcur hq hnil
  have hmiss : ((s.halted i.other).conn i.other).missingOf d = (s.conn i.other).missingOf d := by
    rw [hco]
    rfl
  rw [hmiss] at hheld
  rw [← hheld] at hrob
  have hhalt : (({ s.halted i.other with offsetInfo := q } : Session).conn i.other).enabled = false :=
    by rw [show Gb.conn _ i.other = _ from hco]
  have hsame : Unmoved i s { s.halted i.other with offsetInfo := q } :=
    .of_conn (update_of_ne (Link.other_ne i).symm ..) rfl (List.suffix_cons _ _)
  generalize ({ s.halted i.other with offsetInfo := q } : Session) = t at hrob hhalt hsame ⊢
  have hwanted : ∀ {f : ℤ → Program Unit} {post : Unit → Session → Prop},
      (∀ wanted u, Inv (.robbing i held) u → Unmoved i s u → (u.conn i.other).enabled = false →
        0 ≤ wanted → wp (f wanted) post Sane u) →
      wp ((if t.conf.fixedSegmentMode then pure t.offsetInfo.initSegSize
        else gbDetermineNextSegmentPolicy held) >>= f) post Sane t := by
    intro f post hf
    have hi := hrob.rep.initSegSize
    simp only [wp_bind, wp_ite, wp_pure]
    refine ⟨fun _ => hf _ t hrob hsame hhalt (by omega), fun _ => ?_⟩
    have hpolicy := wp_gbDetermineNextSegmentPolicy hrob
    refine wp_mono hpolicy ?_ (fun _ _ h => h)
    rintro size u ⟨hu, hm, hle⟩
    have hen : (u.conn i.other).enabled = (t.conn i.other).enabled := by
      show (u.core.conn i.other).enabled = (t.core.conn i.other).enabled
      rw [hm.core]
    have := hu.rep.initSegSize
    exact hf size u hu (hsame.trans (hm.unmoved i)) (hen.trans hhalt) (by omega)
  rw [wp_bind, wp_get]
  refine hwanted fun wanted u hu hc hen hw => ?_
  obtain ⟨h₀, hfit⟩ := Gb.clipSegSize_fits hu.rep hw
  have hpush : ∀ cs, cs = held ++ freshChunks u.frontier (u.clipSegSize wanted) →
      wp (addNewSegment true cs (cs.map Chunk.size).sum >>= fun id => modifyOffsetInfo fun o =>
        { o with connection := update o.connection i.other (some id) })
        (fun _ t => Unmoved i s t ∧ ∃ front g, Pushed i front g t) Sane u := by
    intro cs hcs
    rw [wp_bind]
    refine wp_mono (wp_addNewSegment_pushed hu (.inr ⟨held, rfl⟩) h₀ hfit hcs rfl (by simp)
      fun _ => ⟨hen, hu.rep.fits.2.1⟩) ?_ (fun _ _ h => h)
    rintro id v ⟨g, hr, hg, hconn⟩
    rw [wp_modifyOffsetInfo]
    exact ⟨hc.trans (hconn.trans (.of_conn rfl rfl (List.suffix_refl _))), _, g, hg.repoint hr id⟩
  rw [wp_bind, wp_get, wp_bind, wp_ite]
  refine ⟨fun hne => ?_, fun hz => hpush held ?_⟩
  · rw [wp_bind]
    refine wp_getStartByteNextSegment (fun _ => (sane_assertTail u).mpr hu.sincere) (hpush _ ?_)
    rw [freshChunks, if_neg hne]
    rfl
  · rw [freshChunks, if_pos (by simpa using hz), List.append_nil]

lemma wp_performRecovery (h : Inv (.reading i) s) (hex : s.exact)
    (hun : (s.conn i).pipelineRequestsSent = false) (x : Inputs) :
    wp (performRecovery i x) (fun recovered t => Unmoved i s t ∧ Planned i recovered t)
      Sane s := by
  have hs : Unmoved i s s ∧ Planned i false s := ⟨.refl _, h⟩
  simp only [performRecovery]
  rw [wp_bind, wp_get, wp_ite]
  refine ⟨fun _ => ?_, fun _ => hs⟩
  rw [wp_bind]
  refine wp_mono (wp_decideRecoveryMode (h.planning hun) h.log h.told.sound x) ?_ (fun _ _ h => h)
  rintro recover t ⟨hw, hparts⟩
  have ht := h.whisper hw
  have hcur := hw.murmur.unmoved i
  rw [wp_ite]
  refine ⟨fun hr => ?_, fun _ => ⟨hcur, ht⟩⟩
  have hhalt : ({ t with
      trace := .stolen t.toGb i.other :: t.trace
      conn := update (update t.conn i.other { t.conn i.other with enabled := false }) i.other
        { update t.conn i.other { t.conn i.other with enabled := false } i.other with
          fd := .closed, outstanding := [], response := none } } : Session) = t.halted i.other := by
    simp [Session.halted]
  simp only [wp_bind, wp_logEvent, wp_modifyConn, connDisconnect, hhalt]
  refine wp_mono (wp_recoverOutorderPortionAndNextSegment ht (hcur.flag.trans hun) (hparts hr)) ?_
    (fun _ _ h => h)
  rintro _ u ⟨hu, front, g, hg⟩
  have hun' := (hcur.trans hu).flag.trans hun
  have hex' : u.exact := (hcur.trans hu).cursor.exact.trans hex
  refine wp_mono (wp_gbDetermineNextSubsegment_staged hg hex' hun' .dual) ?_ (fun _ _ h => h)
  rintro _ v ⟨hv, front', g', hs⟩
  simp only [wp_modify, wp_pure]
  exact ⟨((hcur.trans hu).trans hv).trans (.of_conn rfl rfl (List.suffix_refl _)), front', g',
    hs.recovered _⟩

lemma wp_gbSetupNextSegment {x : Inputs} (h : Inv (.reading i) s) (hex : s.exact)
    (hun : (s.conn i).pipelineRequestsSent = false) (he : ∀ j, 0 < x.elapsed j) :
    wp (gbSetupNextSegment i x) (fun planned t => Unmoved i s t ∧ Planned i planned t) Sane s := by
  have hfresh : ∀ {t : Session}, Unmoved i s t → Inv (.reading i) t →
      wp (setupFreshSegment i x) (fun planned u => Unmoved i s u ∧ Planned i planned u) Sane t := by
    intro t hc ht
    refine wp_mono (wp_setupFreshSegment ht (hc.cursor.exact.trans hex) (hc.flag.trans hun) he) ?_
      (fun _ _ h => h)
    rintro planned u ⟨hu, hp⟩
    exact ⟨hc.trans hu, hp⟩
  simp only [gbSetupNextSegment]
  rw [wp_bind, wp_get, wp_bind, wp_connAt]
  refine ⟨fun _ => ?_, fun hn => absurd (h.rep.mem_links i) hn⟩
  rw [wp_ite]
  refine ⟨fun _ => ⟨.refl _, h⟩, fun _ => ?_⟩
  cases s.offsetInfo.getConnOrderCase i with
  | behind =>
    simp only [wp_ite, wp_bind, wp_modifyOffsetInfo, wp_pure]
    refine ⟨fun _ => ?_, fun _ => hfresh (.refl s) h⟩
    have hs := h.silent (t := { s with offsetInfo := { s.offsetInfo with
      connIdle := update s.offsetInfo.connIdle i true } }) rfl rfl rfl rfl rfl h.goodput
    exact ⟨.of_conn rfl rfl (List.suffix_refl _), hs.1⟩
  | ahead =>
    simp only [wp_bind]
    refine wp_mono (wp_gbUpdateGoodput h he) ?_ (fun _ _ h => h)
    rintro _ t ⟨ht, hm⟩
    refine wp_mono (wp_performRecovery ht (hm.exact.trans hex) ((hm.unmoved i).flag.trans hun) x) ?_
      (fun _ _ h => h)
    rintro recovered u ⟨hc, hu⟩
    have hcur := (hm.unmoved i).trans hc
    cases recovered with
    | true => exact ⟨hcur, hu⟩
    | false =>
      have hsin : Sincere u.trace := Inv.sincere hu
      simp only [Bool.false_eq_true, if_false, wp_bind, wp_get, wp_follow, sane_danglingPointer,
        sane_nullPointer, hsin, implies_true, and_true, wp_ensure, wp_ite, wp_pure]
      intro _ _ _ _ _
      exact ⟨fun _ => ⟨hcur, hu⟩, fun _ => hfresh hcur hu⟩
  | oneSeg =>
    simp only [wp_bind]
    refine wp_mono (wp_gbUpdateGoodput h he) ?_ (fun _ _ h => h)
    rintro _ t ⟨ht, hm⟩
    simp only [wp_connAt, sane_connOutOfBounds, ht.sincere, implies_true, and_true, wp_ite, wp_pure]
    have hnext : ∀ recovered u, Unmoved i t u ∧ Planned i recovered u →
        (recovered = true → Unmoved i s u ∧ Planned i true u) ∧ (¬ recovered = true →
          wp (setupFreshSegment i x) (fun planned u => Unmoved i s u ∧ Planned i planned u)
            Sane u) := by
      rintro recovered u ⟨hc, hu⟩
      have hcur := (hm.unmoved i).trans hc
      refine ⟨fun hr => ⟨hcur, hr ▸ hu⟩, fun hr => hfresh hcur ?_⟩
      have hr' : recovered = false := by simpa using hr
      rw [hr'] at hu
      exact hu
    refine fun _ => ⟨fun _ => ?_, fun _ => hnext false t ⟨.refl _, ht⟩⟩
    exact wp_mono (wp_performRecovery ht (hm.exact.trans hex) ((hm.unmoved i).flag.trans hun) x) hnext
      (fun _ _ h => h)

end

end GreenBag
