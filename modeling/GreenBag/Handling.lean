import GreenBag.Finishing
import GreenBag.Session

/-! Handling a connection that is ready keeps the invariants. -/

namespace GreenBag

open Programs Ranges Schedules Function

section

variable {i : Link} {s : Session}

lemma received_currentbyte (n : ℤ) (written : Bool) :
    ((s.received i n written).conn i).currentbyte =
      if written then (s.conn i).currentbyte + n else (s.conn i).currentbyte := by
  cases written <;> simp [Session.received]

lemma received_lastbyte (n : ℤ) (written : Bool) :
    ((s.received i n written).conn i).lastbyte = (s.conn i).lastbyte := by
  cases written <;> simp [Session.received]

lemma received_exact (n : ℤ) (written : Bool) : (s.received i n written).exact = s.exact := by
  cases written <;> rfl

lemma received_failed (n : ℤ) : ¬ (s.received i n false).All Event.WritesAll := by
  intro ha
  have hw := ha _ List.mem_cons_self
  exact hw

lemma Inv.sincere_received (h : Inv .rest s) (n : ℤ) (written : Bool) :
    Sincere (s.received i n written).trace := by
  cases written <;> exact h.sincere.cons trivial (by simp)

lemma wp_handleBytes (h : Inv .rest s) (hex : s.exact) (hi : (s.conn i).enabled) {n : ℤ} (h₁ : 1 ≤ n)
    (hn : n ≤ (s.conn i).lastbyte - (s.conn i).currentbyte + 1) (written : Bool) {x : Inputs}
    (hx : ∀ j, 0 < x.elapsed j) :
    wp (handleBytes i n written x) (fun _ t => Inv .rest t) Sane s := by
  have hl := h.rep.mem_links i
  have hrest : ∀ rest : Unit → Program Unit,
      wp (rest ()) (fun _ t => Inv .rest t) Sane (s.received i n written) →
      wp (do
        modifyConn i fun c => { c with outstanding := consume n c.outstanding }
        let a ← writeReceivedData i n written
        rest a) (fun _ t => Inv .rest t) Sane s := by
    intro rest hr
    have hw := wp_writeReceivedData (s := s) (i := i) (C := Sane)
      (Q := fun _ t => wp (rest ()) (fun _ t => Inv .rest t) Sane t) n written hl hr
    simpa only [wp_bind] using hw
  simp only [handleBytes]
  rw [wp_bind, wp_connAt]
  refine ⟨fun _ => hrest _ ?_, fun hn => absurd hl hn⟩
  by_cases hp : s.parts i = []
  · have hnone : (s.received i n written).offsetInfo.connection i = none := by
      have hc := h.rep.pointer i rfl
      rw [firstWith_eq_none.mpr hp] at hc
      cases written <;> exact hc
    simp [hnone, h.sincere_received]
  have ht := h.received hi hp h₁ hn written
  simp only [wp_bind, wp_get, wp_follow, sane_danglingPointer, sane_nullPointer, ht.sincere,
    implies_true, and_true, wp_demand]
  intro _ _ g _ p _
  have hfinish : ∀ u, Inv (.reading i) u → SameCursor i (s.received i n written) u →
      wp (if (s.conn i).lastbyte - (s.conn i).currentbyte + 1 ≤ n then finishChunk i x
        else updateInorderOffset []) (fun _ t => Inv .rest t) Sane u := by
    intro u hu hc
    have hcur := hc.currentbyte
    have hlast := hc.lastbyte
    rw [received_currentbyte] at hcur
    rw [received_lastbyte] at hlast
    rw [wp_ite]
    refine ⟨fun hle => wp_finishChunk hu fun ha => ?_, fun hlt => ?_⟩
    · cases written with
      | true =>
        rw [if_pos rfl] at hcur
        omega
      | false => exact absurd (fun e he => ha e (hc.trace.subset he)) (received_failed n)
    · have hs := hu.settle (by split_ifs at hcur <;> omega)
      exact wp_mono (wp_updateInorderOffset hs) (fun _ _ h => h.1) (fun _ _ h => h)
  rw [wp_whenever]
  refine ⟨fun hplan => ?_, fun _ => hfinish _ ht (.of_conn rfl rfl (List.suffix_refl _))⟩
  refine wp_mono (wp_planAhead ht ((received_exact n written).trans hex) (by simpa using hplan.2.1) hx) ?_
    (fun _ _ h => h)
  exact fun _ u hu => hfinish u hu.1 hu.2

/-- The cursor and the goodput of a connection stay; the rest is for the wire. -/
structure Rewired (c c' : Conn) : Prop where
  currentbyte : c'.currentbyte = c.currentbyte
  lastbyte : c'.lastbyte = c.lastbyte
  flag : c'.pipelineRequestsSent = c.pipelineRequestsSent
  goodput : c'.bytesPerSecond = c.bytesPerSecond ∧ c'.bytesDone = c.bytesDone

/-- Opening, closing and asking change nothing but what is on the wire. -/
lemma Inv.rewire (h : Inv .rest s) (es : List Event) {t : Session} {c : Conn}
    (ht : t = { s with trace := es ++ s.trace, conn := update s.conn i c })
    (hc : Rewired (s.conn i) c) (hes : ∀ e ∈ es, ¬ e.Quiet ∧ e.WritesAll) (htold : Told t)
    (hwire : Wire .rest t i) : Inv .rest t := by
  have hconn : t.conn i = c := ht ▸ update_self ..
  have hother : ∀ j, j ≠ i → t.conn j = s.conn j := fun j hj => ht ▸ update_of_ne hj ..
  have htrace : t.trace = es ++ s.trace := ht ▸ rfl
  have halike : Alike s.toGb t.toGb := by
    have hsame : ∀ j, Rewired (s.conn j) (t.conn j) := by
      intro j
      by_cases hj : j = i
      · rw [hj, hconn]
        exact hc
      · rw [hother j hj]
        exact ⟨rfl, rfl, rfl, rfl, rfl⟩
    refine ⟨ht ▸ rfl, ht ▸ rfl, ht ▸ rfl, ht ▸ rfl, fun j => (hsame j).currentbyte,
      fun j => (hsame j).lastbyte, fun j _ hf => (hsame j).flag.trans hf, fun hl => ht ▸ hl,
      fun _ => ht ▸ rfl, fun _ => ht ▸ rfl, ht ▸ rfl, ht ▸ rfl, ht ▸ rfl, ht ▸ rfl⟩
  refine ⟨halike.rep h.rep, fun j => ?_, fun ha => halike.whole (h.whole ?_), ?_, htold, fun j => ?_⟩
  · by_cases hj : j = i
    · rw [hj, hconn, hc.goodput.1, hc.goodput.2]
      exact h.goodput i
    · rw [hother j hj]
      exact h.goodput j
  · exact ((all_append_iff htrace).mp ha).2
  · exact h.log.extend htrace (fun e he => (hes e he).1)
      (fun hr => ⟨by rw [← hr, ht], fun e he => (hes e he).2⟩) (fun hr => by rw [← hr, ht]) (ht ▸ rfl)
      (ht ▸ rfl) (ht ▸ rfl) (fun _ => (halike.completeTo _).mpr)
      fun hp _ => by simpa only [halike.placeholder] using hp
  · by_cases hj : j = i
    · exact hj ▸ hwire
    · exact (h.wire j).frame htrace (hother j hj) (ht ▸ rfl) id

lemma Inv.over (h : Inv .rest s) (r : Ready) (run : Bool) (hr : r = .no → s.ready = .no)
    (hrun : run → s.run) : Inv .rest { s with ready := r, run := run } := by
  have halike : Alike s.toGb { s.toGb with ready := r, run := run } :=
    ⟨rfl, rfl, rfl, rfl, fun _ => rfl, fun _ => rfl, fun _ _ => id, id, fun _ => rfl, fun _ => rfl, rfl,
      rfl, rfl, rfl⟩
  exact ⟨halike.rep h.rep, h.goodput, fun ha => halike.whole (h.whole ha),
    h.log.extend (List.nil_append _).symm (by simp) (fun hn => ⟨hr hn, by simp⟩) hrun rfl rfl rfl
      (fun _ => id) (fun hp _ => hp), ⟨h.told.1, h.told.2, h.told.3, h.told.4⟩,
    fun j => (h.wire j).frame (List.nil_append _).symm rfl rfl id⟩

lemma Inv.disconnect (h : Inv .rest s)
    (hth : s.All Event.Alone → (s.conn i).setupThread = .none) :
    Inv .rest { s with conn := update s.conn i { s.conn i with
      enabled := false, fd := .closed, outstanding := [], response := none } } := by
  generalize hc : ({ s.conn i with
    enabled := false, fd := .closed, outstanding := [], response := none } : Conn) = c
  have hrew : Rewired (s.conn i) c := hc ▸ ⟨rfl, rfl, rfl, rfl, rfl⟩
  generalize ht : ({ s with conn := update s.conn i c } : Session) = t
  have hconn : t.conn i = c := ht ▸ update_self ..
  have htrace : t.trace = [] ++ s.trace := ht ▸ rfl
  have hact : ¬ Active .rest t.toGb i := by
    rintro (he | hb)
    · rw [hconn, ← hc] at he
      cases he
    · exact hb
  have hnone : t.All Event.Alone → (t.conn i).setupThread = .none := fun ha => by
    rw [hconn, ← hc]
    exact hth ((all_append_iff htrace).mp ha).2
  refine h.rewire [] ht.symm hrew (by simp) (ht ▸ ⟨h.told.1, h.told.2, h.told.3, h.told.4⟩) ?_
  refine ⟨?_, fun _ ha => absurd ha hact, fun ha hn => absurd (hnone ha) hn, fun ha hq => ?_,
    fun ha hq => ?_, fun _ _ => by rw [hconn, ← hc], fun _ ha => absurd ha hact⟩
  · rw [hconn, hrew.flag, show t.parts i = s.parts i from ht ▸ rfl]
    exact fun ha => (h.wire i).flag ((all_append_iff htrace).mp ha).2
  · rw [hnone (ha.imp fun _ he => he.2.2.1)] at hq
    cases hq
  · rcases hq with hq | hq
    · exact absurd hq hact
    · rw [hnone (ha.imp fun _ he => he.2.2.1)] at hq
      cases hq

lemma wp_exceptionForRead (h : Inv .rest s) (hi : (s.conn i).enabled) (closed : Bool) :
    wp (exceptionForRead i closed) (fun _ t => Inv .rest t) Sane s := by
  have hth := fun ha => ((h.wire i).calm ha (.inl hi)).1
  simp only [exceptionForRead, connDisconnect, wp_bind, wp_connAt, sane_connOutOfBounds, h.sincere,
    implies_true, and_true, wp_whenever, wp_modify, wp_modifyConn, update_self, update_idem]
  refine fun _ => ⟨fun _ => ?_, fun _ => h.disconnect hth⟩
  exact Inv.disconnect (s := { s with ready := .complete })
    (h.over .complete s.run (fun hn => by cases hn) id) hth

lemma wp_handle (h : Inv .rest s) (hex : s.exact) (hi : (s.conn i).enabled) {x : Inputs}
    (hx : ∀ j, 0 < x.elapsed j) (r : Received) (hr : Label.Receives s.toGb i r) :
    wp (handle i x r) (fun _ t => Inv .rest t) Sane s := by
  cases r with
  | error => exact wp_exceptionForRead h hi false
  | closed => exact wp_exceptionForRead h hi true
  | bytes n written => exact wp_handleBytes h hex hi hr.1 hr.2.2 written hx

end

end GreenBag
