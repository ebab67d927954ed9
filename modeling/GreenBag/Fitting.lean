import GreenBag.Sharing
import GreenBag.Deciding

/-! Where the shares of a run fit their types, the run is one with exact integers; and up to the first
share that does not, the two runs are the same. -/

namespace GreenBag

open Programs Machines Words

/-- The same session, with integers read as exact. -/
def Session.ideal (s : Session) : Session := putExact s true

/-- Events are added, and the options and the reading of integers stay. -/
structure GoesOn (s t : Session) : Prop where
  conf : t.conf = s.conf
  exact : t.exact = s.exact
  trace : s.trace <:+ t.trace

lemma GoesOn.fits {s t : Session} (h : GoesOn s t) (hf : t.Fits) : s.Fits :=
  hf.imp (h.exact ▸ ·) fun ha e he => ha e (h.trace.subset he)

def going : Frame Fault Session where
  rel := GoesOn
  fault _ _ := True
  refl _ := ⟨rfl, rfl, List.suffix_refl _⟩
  trans h h' := ⟨h'.conf.trans h.conf, h'.exact.trans h.exact, h.trace.trans h'.trace⟩

lemma goingOn {α : Type} {x : Program α} (h : Keeps video x) : Keeps going x :=
  h.mono (fun _ _ ht => ⟨ht.conf, ht.exact, ht.trace⟩) fun _ _ _ => trivial

/-- Both sessions went through a share that overflows, with the same events before. -/
def Parted (s t : Session) : Prop :=
  ∃ e es, ¬ e.SharesFit ∧ e :: es <:+ s.trace ∧ e :: es <:+ t.trace

section

variable {α β : Type}

/-- The session at the end of a run. -/
def ending : EStateM.Result Fault Session α → Session
  | .ok _ t => t
  | .error _ t => t

/-- With exact integers the program does the same. -/
def SameIdeal (x : Program α) (s : Session) : Prop := x s.ideal = mapState Session.ideal (x s)

/-- It does the same, or parts from the exact run where a share overflows. -/
structure Follows (x : Program α) : Prop where
  keeps : Keeps going x
  same : ∀ s, SameIdeal x s ∨ Parted (ending (x s)) (ending (x s.ideal))

variable {s t : Session} {x y : Program α} {f : β → Program α} {c : Prop} [Decidable c]

lemma Parted.mono {u v : Session} (h : Parted s t) (hs : s.trace <:+ u.trace) (ht : t.trace <:+ v.trace) :
    Parted u v := by
  obtain ⟨e, es, he, h₁, h₂⟩ := h
  exact ⟨e, es, he, h₁.trans hs, h₂.trans ht⟩

lemma ending_going (h : Keeps going x) (s : Session) : going.rel s (ending (x s)) := by
  have hw := (wp_iff _).mp (h s)
  cases hx : x s with
  | ok a t => exact hw.1 a t hx
  | error e t => exact (hw.2 e t hx).2

/-- What follows adds to the events. -/
lemma ending_bind {y : Program β} (hf : ∀ b, Keeps going (f b)) (s : Session) :
    (ending (y s)).trace <:+ (ending ((y >>= f) s)).trace := by
  show _ <:+ (ending (EStateM.bind y f s)).trace
  rw [EStateM.bind]
  cases y s with
  | ok b t => exact (ending_going (hf b) t).trace
  | error e t => exact List.suffix_refl _

namespace SameIdeal

lemma bind {y : Program β} (hy : SameIdeal y s) (hf : ∀ b t, y s = .ok b t → SameIdeal (f b) t) :
    SameIdeal (y >>= f) s := by
  show EStateM.bind y f s.ideal = mapState _ (EStateM.bind y f s)
  rw [EStateM.bind, EStateM.bind, hy]
  cases hs : y s with
  | ok b t => exact hf b t hs
  | error e t => rfl

lemma of_blind {F : Frame Fault Session} (h : Blind putExact F x) (s : Session) : SameIdeal x s :=
  h.run_put s true

lemma read {k : Session → Program α} (hk : k s.ideal = k s) (h : SameIdeal (k s) s) :
    SameIdeal (get >>= k) s := by
  show k s.ideal s.ideal = mapState _ (k s s)
  rw [hk]
  exact h

lemma ensure (e : Fault) (s : Session) : SameIdeal (ensure e c) s :=
  of_blind (F := video) (.ensure fun _ => trivial) s

end SameIdeal

/-! ### Shares -/

section

variable {i : Link} {r q : ℤ} {fixed : Bool}

lemma sameIdeal_signed {width : ℕ} {n : ℤ} (h : InRange width n) : SameIdeal (signed width n) s := by
  have hideal : s.ideal.exact ∨ InRange width n := .inr h
  rw [SameIdeal, signed_eq hideal, signed_eq (s := s) (.inr h)]
  rfl

lemma sameIdeal_portion {size : ℤ} (h : PortionFits size r q) : SameIdeal (portion size r q) s := by
  refine .bind (sameIdeal_signed h.product) fun product t ht => ?_
  obtain ⟨rfl, rfl⟩ := EStateM.Result.ok.inj ((signed_eq (.inr h.product)).symm.trans ht)
  refine .bind (sameIdeal_signed h.sum) fun sum t ht => ?_
  obtain ⟨rfl, rfl⟩ := EStateM.Result.ok.inj ((signed_eq (.inr h.sum)).symm.trans ht)
  exact .bind (.ensure _ s) fun _ t _ => sameIdeal_signed h.portion

lemma safe_true (s : Session) : Safe (fun _ _ => True) s :=
  ⟨fun _ _ _ _ => trivial, fun _ _ => trivial, fun _ => trivial⟩

lemma sameIdeal_subsegSize {g : Segment} (h : s.ShareFits g i r q fixed) :
    SameIdeal (subsegSize g i r q fixed) s := by
  have hints : ∀ u : Session, u.toInt r = r ∧ u.toInt q = q := fun u =>
    ⟨Session.toInt_of_inRange (.inr h.target), Session.toInt_of_inRange (.inr h.another)⟩
  refine .read (by simp only [hints]) ?_
  simp only [hints]
  rw [Gb.ShareFits] at h
  by_cases hfixed : fixed = true
  · rw [if_pos hfixed] at h ⊢
    exact sameIdeal_portion h
  · rw [if_neg hfixed] at h ⊢
    have hbase : Blind putExact looking (if g.recoverySegment then pure g.size
        else getVirtualSegSize i g.size) :=
      exactly (.ite (fun _ => .pure _) fun _ => blind_getVirtualSegSize _ _)
    refine .bind (.of_blind hbase s) fun size t ht => ?_
    obtain ⟨rfl, rfl⟩ := ((wp_iff _).mp (wp_shareBase (fun _ => safe_true s) i)).1 size t ht
    exact .bind (sameIdeal_portion h) fun _ u _ => rfl

lemma sameIdeal_addNewSubsegment
    (h : ∀ g ∈ s.offsetInfo.tail.bind s.offsetInfo.deref, s.ShareFits g i r q fixed) :
    SameIdeal (addNewSubsegment i r q fixed) s := by
  refine .bind (.of_blind (exactly blind_getFastConnIndex) s) fun fast t ht => ?_
  have hfast : wp getFastConnIndex (fun _ t => t = s) (fun _ _ => True) s :=
    wp_getFastConnIndex_eq (safe_true s) rfl
  obtain rfl := ((wp_iff _).mp hfast).1 fast t ht
  refine .read rfl (.bind (.of_blind (exactly (blind_follow _)) t) fun g u hu => ?_)
  have hfollow : wp (follow t.offsetInfo.tail) (fun g u => u = t ∧
      g ∈ t.offsetInfo.tail.bind t.offsetInfo.deref) (fun _ _ => True) t := by
    simp only [wp_follow, implies_true, and_true, true_and, Option.mem_def, Option.bind_eq_some_iff]
    exact fun id hid g hg => ⟨id, hid, hg⟩
  obtain ⟨rfl, hg⟩ := ((wp_iff _).mp hfollow).1 g u hu
  refine .bind (.ensure _ u) fun _ v hv => ?_
  have hensure : wp (ensure Fault.exit (g.chunkList ≠ [])) (fun _ v => v = u) (fun _ _ => True) u := by
    simp
  obtain rfl := ((wp_iff _).mp hensure).1 () v hv
  refine .bind (sameIdeal_subsegSize (h g hg)) fun share w _ => .bind (.ensure _ w) fun _ w _ => ?_
  refine .bind (.ensure _ w) fun _ w _ => ?_
  refine .of_blind (F := silent) (exactly ?_) w
  exact blind_modifyOffsetInfo fun _ => rfl

/-- What `gb_determine_next_subsegment` does once its call is recorded. -/
lemma sameIdeal_nextSubsegment {mode : LinkMode} (h : s.SharesFit mode i) : SameIdeal (do
    let s ← get
    match mode with
    | .single j => addNewSubsegment j 1 0 s.conf.fixedSubsegmentMode
    | .dual =>
      if s.conf.fixedSubsegmentMode then
        addNewSubsegment i (s.conf.initialChunkRate i) (s.conf.initialChunkRate i.other) true
      else do
        let c ← connAt i
        let d ← connAt i.other
        addNewSubsegment i c.bytesPerSecond d.bytesPerSecond false) s := by
  refine .read rfl ?_
  cases mode with
  | single j => exact sameIdeal_addNewSubsegment h
  | dual =>
    cases hfixed : s.conf.fixedSubsegmentMode with
    | true =>
      simp only [Gb.SharesFit, Gb.sharing, hfixed, if_true] at h ⊢
      exact sameIdeal_addNewSubsegment h
    | false =>
      simp only [Gb.SharesFit, Gb.sharing, hfixed, Bool.false_eq_true, if_false] at h ⊢
      have hconn : ∀ j, wp (connAt j) (fun c t => c = s.conn j ∧ t = s) (fun _ _ => True) s := by simp
      refine .bind (.of_blind (exactly (blind_connAt _)) s) fun c t ht => ?_
      obtain ⟨rfl, rfl⟩ := ((wp_iff _).mp (hconn i)).1 c t ht
      refine .bind (.of_blind (exactly (blind_connAt _)) t) fun d u hu => ?_
      obtain ⟨rfl, rfl⟩ := ((wp_iff _).mp (hconn i.other)).1 d u hu
      exact sameIdeal_addNewSubsegment h

end

/-! ### Steps -/

namespace Follows

lemma of_blind (h : Blind putExact video x) : Follows x where
  keeps := goingOn h.keeps
  same s := .inl (.of_blind h s)

lemma pure (a : α) : Follows (pure a) := of_blind (.pure a)

lemma bind {y : Program β} (hy : Follows y) (hf : ∀ b, Follows (f b)) : Follows (y >>= f) where
  keeps := .bind hy.keeps fun b => (hf b).keeps
  same s := by
    have hlater := ending_bind (y := y) fun b => (hf b).keeps
    rcases hy.same s with hs | hs
    · cases hrun : y s with
      | ok b t =>
        have hideal : y s.ideal = .ok b t.ideal := by
          rw [hs, hrun]
          rfl
        rw [SameIdeal, bind_of_ok hrun, bind_of_ok hideal]
        exact (hf b).same t
      | error e t => exact .inl (.bind hs fun b u hu => by rw [hrun] at hu; cases hu)
    · exact .inr (hs.mono (hlater s) (hlater s.ideal))

lemma read {k : Session → Program α} (hk : ∀ s, k s.ideal = k s) (h : ∀ s, Follows (k s)) :
    Follows (get >>= k) where
  keeps := .bind .get fun s => (h s).keeps
  same s := by
    have hideal : (get >>= k) s.ideal = k s s.ideal := by
      rw [← hk s]
      rfl
    rw [SameIdeal, hideal]
    exact (h s).same s

lemma ite {y : Program α} (hx : c → Follows x) (hy : ¬ c → Follows y) : Follows (if c then x else y) := by
  split_ifs with h
  · exact hx h
  · exact hy h

lemma whenever {x : Program Unit} (hx : c → Follows x) : Follows (whenever c x) := ite hx fun _ => pure ()

end Follows

end

section

variable {α : Type} {y : Program α} {i : Link} {x : Inputs} {size : ℤ}

lemma follows_of_silent (h : Blind putHidden silent y) : Follows y := .of_blind (onVideo (exactly h))

lemma follows_of_looking (h : Blind putExact looking y) : Follows y := .of_blind (onVideo (silently h))

lemma follows_of_video (h : Blind putHidden video y) : Follows y := .of_blind (exactly h)

lemma follows_modifyStatics (f : Statics → Statics) : Follows (modifyStatics f) :=
  follows_of_looking (blind_modifyStatics f)

lemma follows_ensure (e : Fault) (c : Prop) [Decidable c] : Follows (ensure e c) :=
  .of_blind (.ensure fun _ => trivial)

/-- The call is recorded first, so where its share overflows, the event stays. -/
lemma follows_gbDetermineNextSubsegment (i : Link) (mode : LinkMode) :
    Follows (gbDetermineNextSubsegment i mode) := by
  have hrest := goingOn (onVideo (blind_nextSubsegment i mode)).keeps
  refine ⟨.bind (goingOn (video_logEvent _).keeps) fun _ => hrest, fun s => ?_⟩
  by_cases hfit : s.SharesFit mode i
  · refine .inl (.bind (.of_blind (exactly (video_logEvent _)) s) fun _ t ht => ?_)
    obtain ⟨-, rfl⟩ := EStateM.Result.ok.inj ht
    exact sameIdeal_nextSubsegment hfit
  · refine .inr ⟨.called s.toGb (.nextSubsegment mode) i, s.trace, hfit, ?_, ?_⟩
    · exact (ending_going hrest { s with trace := _ :: s.trace }).trace
    · exact (ending_going hrest { s.ideal with trace := _ :: s.trace }).trace

lemma follows_getEnergySortedLinkModes (size : ℤ) (x : Inputs) :
    Follows (getEnergySortedLinkModes size x) := by
  have henergy : ∀ mode lte wifi, Follows (getEnergyConsumption mode lte wifi size x) := by
    intro mode lte wifi
    have hb : Blind putExact (lookingUpTo fun _ => True) (getEnergyConsumption mode lte wifi size x) :=
      blind_getEnergyConsumption (fun _ _ => trivial) (.inr trivial) mode size x
    exact .of_blind (hb.mono (fun _ _ ht => ⟨ht.conf, ht.size, ht.rate, ht.exact,
      ht.trace.imp fun _ he => he.1.symm⟩) fun _ _ _ => trivial)
  refine .read (fun _ => rfl) fun s => .bind (henergy _ _ _) fun _ => ?_
  exact .bind (henergy _ _ _) fun _ => .bind (henergy _ _ _) fun _ => .pure _

lemma follows_selectLinkMode (size : ℤ) (x : Inputs) : Follows (selectLinkMode size x) :=
  .bind (follows_getEnergySortedLinkModes size x) fun _ =>
    follows_of_looking (blind_considerLinkModes _ _ _)

lemma follows_reconsiderSingleMode (size : ℤ) (mode : LinkMode) (x : Inputs) :
    Follows (reconsiderSingleMode size mode x) := by
  refine .bind (follows_of_looking (blind_doesQmissUntilNextPortionInLinkMode _ _ _)) fun miss => ?_
  refine .ite (fun _ => .bind (follows_modifyStatics _) fun _ => .read (fun _ => rfl) fun s => ?_)
    fun _ => .bind (follows_modifyStatics _) fun _ => follows_selectLinkMode _ _
  exact .whenever fun _ => follows_modifyStatics _

lemma follows_reconsiderDualMode (i : Link) (size : ℤ) (x : Inputs) :
    Follows (reconsiderDualMode i size x) := by
  refine .bind (follows_of_looking (exactly (blind_doesQosMissUntilBnChunk _ _))) fun miss => ?_
  exact .whenever fun _ => follows_selectLinkMode _ _

lemma follows_chooseLinkMode (i : Link) (x : Inputs) : Follows (chooseLinkMode i x) := by
  have hlast : ∀ y : Program Unit, Follows y → Follows (do
      y
      let s ← get
      modifyOffsetInfo fun o => { o with singleLinkModeFlag := s.statics.currentLinkMode ≠ .dual }
      return s.statics.currentLinkMode) := by
    refine fun y hy => .bind hy fun _ => .read (fun _ => rfl) fun s => .bind ?_ fun _ => .pure _
    exact .of_blind (.modify (fun _ _ => rfl) fun _ => ⟨rfl, rfl, rfl, rfl, List.suffix_refl _⟩)
  refine .bind (follows_of_looking (exactly blind_getRemainingFileSize)) fun size => ?_
  refine .read (fun _ => rfl) fun s => .ite (fun _ => .pure _) fun _ => ?_
  refine .bind (follows_of_looking (blind_getPlayerState _)) fun player => ?_
  refine .read (fun _ => rfl) fun s => .ite (fun _ => ?_) fun _ => hlast _ (follows_modifyStatics _)
  cases s.statics.currentLinkMode with
  | dual => exact hlast _ (follows_reconsiderDualMode _ _ _)
  | single j => exact hlast _ (follows_reconsiderSingleMode _ _ _)

lemma follows_performRecovery (i : Link) (x : Inputs) : Follows (performRecovery i x) := by
  refine .read (fun _ => rfl) fun s => .ite (fun _ => ?_) fun _ => .pure _
  refine .bind (follows_of_looking (blind_decideRecoveryMode i x)) fun recover => ?_
  refine .ite (fun _ => ?_) fun _ => .pure _
  refine .bind (follows_of_video (video_logEvent _)) fun _ => .bind ?_ fun _ => ?_
  · exact follows_of_silent (blind_modifyConn fun _ => ⟨rfl, rfl⟩)
  refine .bind (follows_of_silent (blind_connDisconnect _)) fun _ => ?_
  refine .bind (follows_of_silent (blind_recoverOutorderPortionAndNextSegment i)) fun _ => ?_
  refine .bind (follows_gbDetermineNextSubsegment i .dual) fun _ => .bind ?_ fun _ => .pure _
  exact .of_blind (.modify (fun _ _ => rfl) fun _ => ⟨rfl, rfl, rfl, rfl, List.suffix_refl _⟩)

lemma follows_setupFreshSegment (i : Link) (x : Inputs) : Follows (setupFreshSegment i x) := by
  refine .bind (follows_of_video (video_gbUpdateGoodput _)) fun _ => ?_
  refine .bind (follows_of_video (video_gbDetermineNextSegmentSize i)) fun size => ?_
  refine .ite (fun _ => .pure _) fun _ => .read (fun _ => rfl) fun s => ?_
  refine .bind (.ite (fun _ => follows_chooseLinkMode i x) fun _ => .pure _) fun mode => ?_
  exact .bind (follows_gbDetermineNextSubsegment i mode) fun _ => .pure _

lemma follows_gbSetupNextSegment (i : Link) (x : Inputs) : Follows (gbSetupNextSegment i x) := by
  have hconn : ∀ j, Follows (connAt j) := fun j => follows_of_looking (exactly (blind_connAt j))
  have hmeasure := follows_of_video (video_gbUpdateGoodput x.elapsed)
  refine .read (fun _ => rfl) fun s => .bind (hconn i) fun c => .ite (fun _ => .pure _) fun _ => ?_
  cases s.offsetInfo.getConnOrderCase i with
  | behind =>
    refine .ite (fun _ => .bind ?_ fun _ => .pure _) fun _ => follows_setupFreshSegment i x
    exact .of_blind (.modify (fun _ _ => rfl) fun _ => ⟨rfl, rfl, rfl, rfl, List.suffix_refl _⟩)
  | ahead =>
    refine .bind hmeasure fun _ => .bind (follows_performRecovery i x) fun recovered => ?_
    refine .ite (fun _ => .pure _) fun _ => .read (fun _ => rfl) fun s => ?_
    refine .bind (follows_of_looking (exactly (blind_follow _))) fun tail => ?_
    refine .bind (follows_ensure _ _) fun _ => ?_
    exact .ite (fun _ => .pure _) fun _ => follows_setupFreshSegment i x
  | oneSeg =>
    refine .bind hmeasure fun _ => .bind (hconn i.other) fun d => ?_
    refine .bind (.ite (fun _ => follows_performRecovery i x) fun _ => .pure _) fun recovered => ?_
    exact .ite (fun _ => .pure _) fun _ => follows_setupFreshSegment i x

lemma follows_planAhead (i : Link) (x : Inputs) : Follows (planAhead i x) := by
  refine .bind (follows_gbSetupNextSegment i x) fun planned => .whenever fun _ => ?_
  exact follows_of_silent (blind_sendPlanned i x)

lemma follows_handleBytes (i : Link) (n : ℤ) (written : Bool) (x : Inputs) :
    Follows (handleBytes i n written x) := by
  refine .bind (follows_of_looking (exactly (blind_connAt i))) fun c => .bind ?_ fun _ => ?_
  · exact follows_of_silent (blind_modifyConn fun _ => ⟨rfl, rfl⟩)
  refine .bind (follows_of_video (video_writeReceivedData i n written)) fun _ => ?_
  refine .read (fun _ => rfl) fun s => .bind (follows_of_looking (exactly (blind_follow _))) fun g => ?_
  refine .bind (.of_blind (.demand (fun _ => trivial) _)) fun p => ?_
  refine .bind (.whenever fun _ => follows_planAhead i x) fun _ => .ite (fun _ => ?_) fun _ => ?_
  · exact follows_of_silent (blind_finishChunk i x)
  · exact follows_of_silent (silently_of_growing (blind_updateInorderOffset []))

lemma follows_exec (l : Label) : Follows l.exec := by
  cases l with
  | read i r x =>
    cases r with
    | error => exact follows_of_silent (blind_exceptionForRead i false)
    | closed => exact follows_of_silent (blind_exceptionForRead i true)
    | bytes n written => exact follows_handleBytes i n written x
  | check x => exact follows_of_silent (blind_connCheck x)
  | setupRequest i connects => exact follows_of_silent (blind_setupRequest i connects)
  | setupResponse i reply => exact follows_of_silent (blind_setupResponse i reply)
  | announce => exact follows_of_silent (silently blind_updateLastDownloadedByte)
  | selectFailed => exact follows_of_silent (blind_ready .error)
  | stop => exact .of_blind (.modify (fun _ _ => rfl) fun _ => ⟨rfl, rfl, rfl, rfl, List.suffix_refl _⟩)

end

/-! ### The start -/

/-- The initial rates are of type `int`. -/
structure Session.Ints (exact : Bool) (s : Session) : Prop where
  exact_eq : s.exact = exact
  ints : ∀ i, exact ∨ InRange 32 (s.conf.initialChunkRate i)

/-- What the program does without an overflow it does with exact integers as well. -/
def Carries (exact : Bool) {α : Type} (x : Program α) : Prop :=
  ∀ s, s.Ints exact → ∀ a t, x s = .ok a t → x s.ideal = .ok a t.ideal ∧ t.Ints exact

/-- Steps that keep the initial rates. -/
def keepingRates : Frame Fault Session where
  rel s t := t.conf.initialChunkRate = s.conf.initialChunkRate ∧ t.exact = s.exact
  fault _ _ := True
  refl _ := ⟨rfl, rfl⟩
  trans h h' := ⟨h'.1.trans h.1, h'.2.trans h.2⟩

section

variable {exact : Bool} {α β : Type} {x : Program α} {i : Link} {c : Prop} [Decidable c]

lemma Session.Ints.of_keepingRates {s t : Session} (h : s.Ints exact) (ht : keepingRates.rel s t) : t.Ints exact where
  exact_eq := ht.2.trans h.exact_eq
  ints := by
    rw [ht.1]
    exact h.ints

namespace Carries

lemma of_blind (h : Blind putExact keepingRates x) : Carries exact x := by
  intro s hs a t ht
  have hideal : x s.ideal = mapState (putExact · true) (x s) := h.run_put s true
  rw [ht] at hideal
  exact ⟨hideal, hs.of_keepingRates (((wp_iff _).mp (h.keeps s)).1 a t ht)⟩

lemma of_silent (h : Blind putHidden silent x) : Carries exact x :=
  of_blind ((exactly h).mono (fun _ _ ht => ⟨by rw [ht.conf], ht.exact⟩) fun _ _ _ => trivial)

lemma modify {f : Session → Session} (hf : ∀ s, f s.ideal = (f s).ideal) (hr : ∀ s, keepingRates.rel s (f s)) :
    Carries exact (modify f) := by
  intro s hs a t ht
  obtain ⟨-, rfl⟩ := EStateM.Result.ok.inj ht
  refine ⟨?_, hs.of_keepingRates (hr s)⟩
  rw [← hf]
  rfl

lemma pure (a : α) : Carries exact (pure a) := of_blind (.pure a)

lemma ensure (e : Fault) : Carries exact (ensure e c) := of_blind (.ensure fun _ => trivial)

lemma demand (e : Fault) (o : Option α) : Carries exact (demand e o) := of_blind (.demand (fun _ => trivial) o)

lemma bind {y : Program β} {f : β → Program α} (hy : Carries exact y) (hf : ∀ b, Carries exact (f b)) :
    Carries exact (y >>= f) := by
  intro s hs a t ht
  cases hrun : y s with
  | ok b u =>
    rw [bind_of_ok hrun] at ht
    obtain ⟨hideal, hu⟩ := hy s hs b u hrun
    rw [bind_of_ok hideal]
    exact hf b u hu a t ht
  | error e u =>
    change EStateM.bind y f s = _ at ht
    rw [EStateM.bind, hrun] at ht
    cases ht

lemma read {k : Session → Program α} (hk : ∀ s, s.Ints exact → k s.ideal = k s)
    (h : ∀ s, s.Ints exact → Carries exact (k s)) :
    Carries exact (get >>= k) := by
  intro s hs a t ht
  have hideal : (get >>= k) s.ideal = k s s.ideal := by
    rw [← hk s hs]
    rfl
  rw [hideal]
  exact h s hs s hs a t ht

lemma ite {y : Program α} (hx : c → Carries exact x) (hy : ¬ c → Carries exact y) :
    Carries exact (if c then x else y) := by
  split_ifs with h
  · exact hx h
  · exact hy h

lemma whenever {x : Program Unit} (hx : c → Carries exact x) : Carries exact (whenever c x) :=
  ite hx fun _ => pure ()

lemma each {f : α → Program Unit} {as : List α} (hf : ∀ a, Carries exact (f a)) : Carries exact (each f as) := by
  induction as with
  | nil => exact pure ()
  | cons a as ih => exact bind (hf a) fun _ => ih

lemma signed (width : ℕ) (n : ℤ) : Carries exact (signed width n) := by
  intro s hs a t ht
  have hw : wp (GreenBag.signed width n) (fun a t => a = n ∧ t = s) (fun _ _ => True) s := by
    rw [wp_signed]
    exact ⟨fun _ => ⟨rfl, rfl⟩, fun _ => trivial⟩
  obtain ⟨rfl, rfl⟩ := ((wp_iff _).mp hw).1 a t ht
  exact ⟨signed_eq (.inl rfl), hs⟩

lemma portion (size r q : ℤ) : Carries exact (portion size r q) :=
  bind (signed _ _) fun _ => bind (signed _ _) fun _ => bind (ensure _) fun _ => signed _ _

end Carries

lemma carries_subsegSize (g : Segment) (i : Link) {r q : ℤ} (hr : exact ∨ InRange 32 r)
    (hq : exact ∨ InRange 32 q) (fixed : Bool) : Carries exact (subsegSize g i r q fixed) := by
  have hints : ∀ s : Session, s.Ints exact → s.toInt r = r ∧ s.toInt q = q ∧ s.ideal.toInt r = r ∧
      s.ideal.toInt q = q := fun s hs =>
    ⟨Session.toInt_of_inRange (hs.exact_eq ▸ hr), Session.toInt_of_inRange (hs.exact_eq ▸ hq), rfl, rfl⟩
  refine .read (fun s hs => ?_) fun s hs => ?_
  · obtain ⟨h₁, h₂, h₃, h₄⟩ := hints s hs
    simp only [h₁, h₂, h₃, h₄]
  · refine .ite (fun _ => .portion _ _ _) fun _ => .bind ?_ fun size => ?_
    · exact .of_silent (silently (.ite (fun _ => .pure _) fun _ => blind_getVirtualSegSize _ _))
    · exact .bind (.portion _ _ _) fun _ => .pure _

lemma carries_addNewSubsegment (i : Link) {r q : ℤ} (hr : exact ∨ InRange 32 r)
    (hq : exact ∨ InRange 32 q) (fixed : Bool) : Carries exact (addNewSubsegment i r q fixed) := by
  refine .bind (.of_silent (silently blind_getFastConnIndex)) fun fast => ?_
  refine .read (fun _ _ => rfl) fun s _ => .bind (.of_silent (silently (blind_follow _))) fun g => ?_
  refine .bind (.ensure _) fun _ => .bind (carries_subsegSize g i hr hq fixed) fun share => ?_
  refine .bind (.ensure _) fun _ => .bind (.ensure _) fun _ => .of_silent ?_
  exact blind_modifyOffsetInfo fun _ => rfl

lemma carries_initSegment : Carries exact initSegment := by
  refine .read (fun _ _ => rfl) fun s _ => .bind (.signed _ _) fun bytes => ?_
  refine .ite (fun _ => .bind (.ensure _) fun _ => .bind (.signed _ _) fun count => ?_) fun _ => .pure _
  exact .bind (.modify (fun _ => rfl) fun _ => ⟨rfl, rfl⟩) fun _ => .pure _

lemma carries_initConn (i : Link) : Carries exact (initConn i) := by
  refine .read (fun _ _ => rfl) fun s _ => .bind (.demand _ _) fun head => .bind (.demand _ _) fun last => ?_
  refine .bind (.whenever fun _ => .of_silent (blind_modifyConn fun _ => ⟨rfl, rfl⟩)) fun _ => ?_
  cases head.subsegment i with
  | none => exact .of_silent (blind_modifyConn fun _ => ⟨rfl, rfl⟩)
  | some p =>
    refine .bind (.of_silent (blind_modifyOffsetInfo fun _ => rfl)) fun _ => .bind (.demand _ _) fun c => ?_
    exact .of_silent (blind_modifyConn fun _ => ⟨rfl, rfl⟩)

lemma carries_gbInitSegmentSetup : Carries exact gbInitSegmentSetup := by
  refine .bind (.modify (fun _ => rfl) fun _ => ⟨rfl, rfl⟩) fun _ => .bind carries_initSegment fun size => ?_
  refine .bind (.of_silent (blind_modifyOffsetInfo fun _ => rfl)) fun _ => ?_
  refine .bind (.of_silent (silently_of_growing (blind_addNewSegment _ _ _))) fun _ => ?_
  refine .read (fun _ _ => rfl) fun s hs => ?_
  refine .bind (carries_addNewSubsegment .lte (hs.ints .lte) (hs.ints .wifi) _) fun _ => ?_
  refine .bind (.each carries_initConn) fun _ => .bind (.signed _ _) fun rate => ?_
  exact .modify (fun _ => rfl) fun _ => ⟨rfl, rfl⟩

lemma carries_gbOpen : Carries exact gbOpen := by
  refine .bind (.of_silent (silently (blind_connAt _))) fun lte => .bind (.whenever fun _ => ?_) fun _ => ?_
  · exact .bind (.modify (fun _ => rfl) fun _ => ⟨rfl, rfl⟩) fun _ => carries_gbInitSegmentSetup
  · exact carries_gbInitSegmentSetup

lemma carries_gbStart (created : Link → Bool) : Carries exact (gbStart created) := by
  refine .read (fun _ _ => rfl) fun s _ => .bind (.each fun i => ?_) fun _ => ?_
  · refine .bind (.of_silent (silently (blind_connAt _))) fun c => ?_
    refine .bind (.whenever fun _ => .of_silent (blind_modifyConn fun _ => ⟨rfl, rfl⟩)) fun _ => ?_
    exact .whenever fun _ => .of_silent (blind_createSetupThread _ _)
  · exact .of_silent (blind_ready .no)

/-- Sessions with the source's integers start as those with exact ones. -/
lemma exists_start {s : Session} (h : Started s) : ∃ statics conf size status created,
    conf.Admissible true ∧ 1 ≤ size ∧ (gbOpen *> gbStart created)
      { gbNew statics conf size true status with exact := true } = .ok () s.ideal := by
  obtain ⟨exact, statics, conf, size, status, created, hconf, hsize, hrun⟩ := h
  have hcarries : Carries exact (gbOpen *> gbStart created) :=
    .bind carries_gbOpen fun _ => carries_gbStart created
  obtain ⟨hideal, -⟩ := hcarries _ ⟨rfl, hconf.ints⟩ () s hrun
  refine ⟨statics, conf, size, status, created, ?_, hsize, hideal⟩
  exact ⟨hconf.numConnections, hconf.rates, fun _ => .inl rfl, hconf.numOfSegments, hconf.fixedSegmentSizeKB⟩

lemma started_ideal {s : Session} (h : Started s) : Started s.ideal :=
  ⟨true, exists_start h⟩

end

end GreenBag
