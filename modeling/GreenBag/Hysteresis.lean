import GreenBag.Cheapest

/-! When `choose_link_mode` goes back from a single link to both. -/

namespace GreenBag

open Programs

/-- What is left of the file to plan. -/
def Gb.remainingFileSize (s : Gb) : ℤ := s.size - s.frontier

/-- What `choose_link_mode` predicts for the single link in use, where it comes to ask. -/
def Session.predictsMiss (s : Session) (x : Inputs) : Option Bool :=
  match s.statics.currentLinkMode with
  | .dual => none
  | .single j =>
    if 0 < s.remainingFileSize ∧ result (getPlayerState (x.sample .mode)) s = some .playing then
      result (doesQmissUntilNextPortionInLinkMode s.remainingFileSize (.single j) (x.sample .modeMiss))
        (after (getPlayerState (x.sample .mode)) s)
    else none

/-- The player is found not to be playing. -/
def Session.Interrupted (s : Session) (x : Inputs) : Prop :=
  0 < s.remainingFileSize ∧ result (getPlayerState (x.sample .mode)) s ≠ some .playing

/-- A call of `choose_link_mode`, and the sessions before and after it. -/
structure ModeCall where
  source : Session
  inputs : Inputs
  target : Session

namespace ModeCall

def prediction (c : ModeCall) : Option Bool := c.source.predictsMiss c.inputs

/-- Both links are used again since the deadline would be missed. -/
def Returns (c : ModeCall) : Prop :=
  c.source.statics.currentLinkMode ≠ .dual ∧ c.prediction = some true ∧
    c.target.statics.currentLinkMode = .dual

/-- A player that stopped is not found in a single link mode with a missed deadline counted. -/
def Undisturbed (c : ModeCall) : Prop :=
  c.source.statics.currentLinkMode ≠ .dual → c.source.Interrupted c.inputs →
    c.source.statics.numEstQmiss = 0

end ModeCall

instance (s : Session) (x : Inputs) : Decidable (s.Interrupted x) :=
  inferInstanceAs (Decidable (_ ∧ _))

instance : DecidablePred ModeCall.Returns := fun _ => inferInstanceAs (Decidable (_ ∧ _ ∧ _))

instance : DecidablePred ModeCall.Undisturbed := fun c =>
  inferInstanceAs (Decidable (_ ≠ _ → c.source.Interrupted _ → _))

/-- Calls one after the other, the latest first; anything but the mode and the count of missed
deadlines may change between two of them. -/
inductive ModeCalls (allow : ModeCall → Prop) : List ModeCall → Session → Prop
  | start {s} : s.statics.numEstQmiss = 0 → ModeCalls allow [] s
  | call {cs s t u i x mode} : ModeCalls allow cs s → SameMode s.statics t.statics →
      chooseLinkMode i x t = .ok mode u → allow ⟨t, x, u⟩ → ModeCalls allow (⟨t, x, u⟩ :: cs) u

/-- The predictions made since a single link mode was last entered, the latest first. -/
def predictions : List ModeCall → List Bool
  | [] => []
  | c :: cs => c.prediction.toList ++
      if c.source.statics.currentLinkMode = .dual then [] else predictions cs

/-- How a call changes the mode and the count. -/
structure Turn (s : Session) (x : Inputs) (t : Session) : Prop where
  count : t.statics.numEstQmiss = match s.predictsMiss x with
    | none => s.statics.numEstQmiss
    | some false => 0
    | some true => if s.statics.numEstQmiss + 1 ≥ maxNumEstQmiss then 0
      else s.statics.numEstQmiss + 1
  missed : s.predictsMiss x = some true → t.statics.currentLinkMode =
    if s.statics.numEstQmiss + 1 ≥ maxNumEstQmiss then .dual else s.statics.currentLinkMode
  kept : s.predictsMiss x = none → s.statics.currentLinkMode ≠ .dual →
    t.statics.currentLinkMode = s.statics.currentLinkMode ∨
      t.statics.currentLinkMode = .dual ∧ s.Interrupted x

section

variable {s t u : Session} {i : Link} {x : Inputs} {size : ℤ} {mode : LinkMode}

lemma wp_considerLinkModes_count (ms : List LinkMode) {crash : Fault → Session → Prop} :
    wp (considerLinkModes size x ms)
      (fun _ t => t.statics.numEstQmiss = s.statics.numEstQmiss) crash s := by
  cases ms with
  | nil => rfl
  | cons m ms =>
    cases m with
    | dual => rfl
    | single j =>
      simp [considerLinkModes, doesQmissUntilNextPortionInLinkMode, getRemainingPlaybackTime]

lemma wp_selectLinkMode_count :
    wp (selectLinkMode size x) (fun _ t => t.statics.numEstQmiss = s.statics.numEstQmiss)
      (fun _ _ => True) s := by
  rw [selectLinkMode, wp_bind]
  refine wp_mono (keepsMode_getEnergySortedLinkModes size x s) (fun ms t ht => ?_) (fun _ _ h => h)
  rw [← ht.2]
  exact wp_considerLinkModes_count ms

lemma exists_getPlayerState (x : Sample) (s : Session) :
    ∃ player t, getPlayerState x s = .ok player t ∧ SameMode s.statics t.statics := by
  have h : wp (getPlayerState x) (fun _ _ => True) (fun _ _ => False) s := by
    rw [getPlayerState]
    split <;> simp
  obtain ⟨player, t, ht, -⟩ := exists_of_wp h
  exact ⟨player, t, ht, (keepsMode_getPlayerState x).same ht⟩

lemma exists_doesQmiss (size : ℤ) (mode : LinkMode) (x : Sample) (s : Session) :
    ∃ miss t, doesQmissUntilNextPortionInLinkMode size mode x s = .ok miss t ∧
      SameMode s.statics t.statics := by
  have h : wp (doesQmissUntilNextPortionInLinkMode size mode x) (fun _ _ => True)
      (fun _ _ => False) s := by
    simp [doesQmissUntilNextPortionInLinkMode, getRemainingPlaybackTime]
  obtain ⟨miss, t, ht, -⟩ := exists_of_wp h
  exact ⟨miss, t, ht, (keepsMode_doesQmiss size mode x).same ht⟩

lemma Turn.of_none (h : s.predictsMiss x = none) (hc : t.statics.numEstQmiss = s.statics.numEstQmiss)
    (hk : s.statics.currentLinkMode ≠ .dual →
      t.statics.currentLinkMode = s.statics.currentLinkMode ∨
        t.statics.currentLinkMode = .dual ∧ s.Interrupted x) : Turn s x t := by
  refine ⟨by simp only [h]; exact hc, fun hm => ?_, fun _ => hk⟩
  rw [h] at hm
  cases hm

lemma wp_reconsiderSingleMode_turn {j : Link} {miss : Bool} (hm : SameMode s.statics t.statics)
    (hq : doesQmissUntilNextPortionInLinkMode size (.single j) (x.sample .modeMiss) t = .ok miss u)
    (hp : s.predictsMiss x = some miss) :
    wp (reconsiderSingleMode size (.single j) x) (fun _ v => Turn s x v) (fun _ _ => True) t := by
  have hu := hm.trans ((keepsMode_doesQmiss size _ _).same hq)
  simp only [reconsiderSingleMode, wp_bind]
  rw [wp_of_ok hq]
  cases miss with
  | true =>
    simp only [if_true, wp_bind, wp_modifyStatics, wp_get, wp_whenever, hu.2]
    refine ⟨fun hc => ⟨?_, fun _ => ?_, fun hn => ?_⟩, fun hc => ⟨?_, fun _ => ?_, fun hn => ?_⟩⟩
    · simp only [hp, if_pos hc]
    · rw [if_pos hc]
    · rw [hp] at hn
      cases hn
    · simp only [hp, if_neg hc]
    · rw [if_neg hc]
      exact hu.1
    · rw [hp] at hn
      cases hn
  | false =>
    simp only [Bool.false_eq_true, if_false, wp_bind, wp_modifyStatics]
    refine wp_mono wp_selectLinkMode_count (fun _ v hv => ⟨?_, fun hm => ?_, fun hm => ?_⟩)
      (fun _ _ h => h)
    · simp only [hp]
      exact hv
    · rw [hp] at hm
      cases hm
    · rw [hp] at hm
      cases hm

lemma wp_chooseLinkMode_turn :
    wp (chooseLinkMode i x) (fun _ t => Turn s x t) (fun _ _ => True) s := by
  simp only [chooseLinkMode, getRemainingFileSize, wp_bind]
  refine wp_getStartByteNextSegment (fun _ => trivial) ?_
  rw [wp_get, wp_pure, wp_get, wp_ite]
  refine ⟨fun hle => ?_, fun hpos => ?_⟩
  · refine .of_none ?_ rfl fun _ => .inl rfl
    have hn : ¬ 0 < s.remainingFileSize := hle.not_gt
    rw [Session.predictsMiss]
    split <;> simp [hn]
  obtain ⟨player, w, hw, hsame⟩ := exists_getPlayerState (x.sample .mode) s
  have hpos' : 0 < s.remainingFileSize := not_le.mp hpos
  have hresult : result (getPlayerState (x.sample .mode)) s = some player := by rw [result, hw]
  rw [wp_bind, wp_of_ok hw]
  simp only [wp_bind, wp_get]
  have hdone : ∀ {y : Program Unit}, wp y (fun _ v => Turn s x v) (fun _ _ => True) w →
      wp (do
        y
        let s ← get
        modifyOffsetInfo fun o => { o with
          singleLinkModeFlag := s.statics.currentLinkMode ≠ .dual }
        return s.statics.currentLinkMode) (fun _ v => Turn s x v) (fun _ _ => True) w := fun h => by
    rw [wp_bind]
    exact wp_mono h (fun _ v hv => ⟨hv.count, hv.missed, hv.kept⟩) (fun _ _ h => h)
  by_cases hplay : player = .playing
  · subst hplay
    rw [if_pos rfl, hsame.1]
    cases hmode : s.statics.currentLinkMode with
    | dual =>
      have hkeep : wp (reconsiderDualMode i s.remainingFileSize x)
          (fun _ t => t.statics.numEstQmiss = s.statics.numEstQmiss) (fun _ _ => True) w := by
        rw [reconsiderDualMode, wp_bind]
        refine wp_mono (keepsMode_doesQosMiss i _ w) (fun miss t ht => ?_) (fun _ _ h => h)
        have hc : t.statics.numEstQmiss = s.statics.numEstQmiss := (hsame.trans ht).2
        rw [wp_whenever]
        exact ⟨fun _ => hc ▸ wp_selectLinkMode_count, fun _ => hc⟩
      refine hdone (wp_mono hkeep (fun _ t ht => .of_none ?_ ht fun hn => absurd hmode hn) (fun _ _ h => h))
      simp [Session.predictsMiss, hmode]
    | single j =>
      obtain ⟨miss, u, hq, -⟩ :=
        exists_doesQmiss s.remainingFileSize (.single j) (x.sample .modeMiss) w
      refine hdone (wp_reconsiderSingleMode_turn hsame hq ?_)
      have hafter : after (getPlayerState (x.sample .mode)) s = w := by rw [after, hw]
      simp only [Session.predictsMiss, hmode, hpos', hresult, and_self, if_true, hafter]
      rw [result, hq]
  · rw [if_neg hplay]
    have hnone : s.predictsMiss x = none := by
      rw [Session.predictsMiss]
      split <;> simp [hresult, hplay]
    refine hdone ?_
    exact Turn.of_none hnone hsame.2 fun _ => .inr ⟨rfl, hpos', by simp [hresult, hplay]⟩

/-- The count is 0 in the dual mode, and otherwise that of the latest predictions, all of a miss. -/
structure Counted (cs : List ModeCall) (s : Session) : Prop where
  dual : s.statics.currentLinkMode = .dual → s.statics.numEstQmiss = 0
  single : s.statics.currentLinkMode ≠ .dual →
    s.statics.numEstQmiss = ((predictions cs).takeWhile id).length

variable {cs : List ModeCall} {c : ModeCall} {allow : ModeCall → Prop}

lemma predictions_cons (hn : c.source.statics.currentLinkMode ≠ .dual) :
    predictions (c :: cs) = c.prediction.toList ++ predictions cs := by
  rw [predictions, if_neg hn]

lemma Counted.call (h : Counted cs s) (hst : SameMode s.statics c.source.statics)
    (hturn : Turn c.source c.inputs c.target) (hc : c.Undisturbed) : Counted (c :: cs) c.target := by
  have hcount := hturn.count
  have hpred : c.prediction = c.source.predictsMiss c.inputs := rfl
  by_cases hdual : c.source.statics.currentLinkMode = .dual
  · have hnone : c.source.predictsMiss c.inputs = none := by
      rw [Session.predictsMiss, hdual]
    have hz : c.target.statics.numEstQmiss = 0 := by
      simp only [hnone] at hcount
      rw [hcount, hst.2, h.dual (hst.1 ▸ hdual)]
    exact ⟨fun _ => hz, fun _ => by simp [predictions, hpred, hnone, hdual, hz]⟩
  have hold := h.single (hst.1 ▸ hdual)
  rw [← hst.2] at hold
  cases hp : c.source.predictsMiss c.inputs with
  | none =>
    simp only [hp] at hcount
    refine ⟨fun ht => ?_, fun _ => ?_⟩
    · rcases hturn.kept hp hdual with hk | ⟨-, hi⟩
      · exact absurd (hk.symm.trans ht) hdual
      · rw [hcount, hc hdual hi]
    · rw [predictions_cons hdual, hpred, hp, hcount, hold]
      rfl
  | some miss =>
    cases miss with
    | false =>
      simp only [hp] at hcount
      refine ⟨fun _ => hcount, fun _ => ?_⟩
      rw [predictions_cons hdual, hpred, hp, hcount]
      rfl
    | true =>
      have hmode := hturn.missed hp
      simp only [hp] at hcount
      split_ifs at hcount hmode with hmax
      · exact ⟨fun _ => hcount, fun hn => absurd hmode hn⟩
      · refine ⟨fun ht => absurd (hmode.symm.trans ht) hdual, fun _ => ?_⟩
        rw [predictions_cons hdual, hpred, hp, hcount, hold]
        rfl

lemma ModeCalls.counted (h : ModeCalls ModeCall.Undisturbed cs s) : Counted cs s := by
  induction h with
  | start hz => exact ⟨fun _ => hz, fun _ => hz⟩
  | call _ hst hcall hallow ih =>
    exact ih.call hst (((wp_iff _).mp wp_chooseLinkMode_turn).1 _ _ hcall) hallow

lemma take_of_takeWhile {l : List Bool} {n : ℕ} (h : n ≤ (l.takeWhile id).length) :
    l.take n = List.replicate n true := by
  induction l generalizing n with
  | nil => simp_all
  | cons b l ih =>
    cases n with
    | zero => rfl
    | succ n =>
      cases b with
      | false => simp at h
      | true =>
        rw [List.take_succ_cons, ih (by simpa using h), List.replicate_succ]

/-- Both links are used again only after the last `maxNumEstQmiss` predictions, all made since a
single link mode was entered, were of a miss. -/
theorem hysteresis (h : ModeCalls ModeCall.Undisturbed (c :: cs) s) (hr : c.Returns) :
    (predictions (c :: cs)).take maxNumEstQmiss = List.replicate maxNumEstQmiss true := by
  obtain ⟨hdual, hp, ht⟩ := hr
  cases h with
  | call hcs hst hcall hallow =>
    have hmode := (((wp_iff _).mp wp_chooseLinkMode_turn).1 _ _ hcall).missed hp
    have hold := hcs.counted.single (hst.1 ▸ hdual)
    rw [ht] at hmode
    split_ifs at hmode with hmax
    · rw [predictions_cons hdual, hp]
      refine take_of_takeWhile ?_
      have hone : ((some true).toList ++ predictions cs).takeWhile id =
        true :: (predictions cs).takeWhile id := rfl
      rw [hone, List.length_cons, ← hold, ← hst.2]
      exact hmax
    · exact absurd hmode.symm hdual

/-- The calls a session makes with the given inputs, the latest first, and what they leave. -/
def callsFrom (s : Session) : List Inputs → List ModeCall × Session
  | [] => ([], s)
  | x :: xs =>
    let (cs, t) := callsFrom s xs
    let u := after (chooseLinkMode .lte x) t
    (⟨t, x, u⟩ :: cs, u)

lemma modeCalls_callsFrom (xs : List Inputs) (hs : s.statics.numEstQmiss = 0)
    (hr : ∀ c ∈ (callsFrom s xs).1, result (chooseLinkMode .lte c.inputs) c.source ≠ none)
    (ha : ∀ c ∈ (callsFrom s xs).1, allow c) :
    ModeCalls allow (callsFrom s xs).1 (callsFrom s xs).2 := by
  induction xs with
  | nil => exact .start hs
  | cons x xs ih =>
    simp only [callsFrom, List.forall_mem_cons] at hr ha ⊢
    obtain ⟨mode, hmode⟩ := Option.ne_none_iff_exists'.mp hr.1
    exact .call (ih hr.2 ha.2) (.refl _) (ok_of_result hmode) ha.1

end

/-- Both links are in the middle of their parts of the first segment. -/
def middleSession : Session :=
  { gbNew freshStatics plainConf 3000 true 206 with
    qosBytesPerSecond := 100
    inorderOffset := 500
    conn := fun i => { freshConn i true 206 with
      currentbyte := if i = .lte then 500 else 1000
      lastbyte := if i = .lte then 999 else 1999
      bytesPerSecond := 1000
      ewmaBytesPerSecond := 1000 }
    offsetInfo := { emptyOffsetInfo with
      segments := [⟨0, false, [newChunk 0 2000], 2000, fun i =>
        some ⟨[newChunk (if i = .lte then 0 else 1000) 1000], 1000⟩⟩]
      tail := some 0
      numSegments := 1
      connection := fun _ => some 0
      lastSegOffset := 1999 } }

/-- The player plays its `n`-th second, and has come to a position of the video. -/
def playingAt (n : ℕ) (position : ℚ) : Inputs :=
  { calmInputs with sample := fun _ => ⟨n, some (30 * n), position⟩ }

/-- The frame counter cannot be read. -/
def frozenInputs : Inputs := { calmInputs with sample := fun _ => ⟨3, none, 0⟩ }

/-- A single link is entered, and left after two misses. -/
def leavingInputs : List Inputs := [playingAt 3 (59 / 2), playingAt 2 (59 / 2), playingAt 1 0]

theorem hysteresis_of_three :
    (predictions (callsFrom middleSession leavingInputs).1).take maxNumEstQmiss = [true, true] := by
  have h : ModeCalls ModeCall.Undisturbed (callsFrom middleSession leavingInputs).1
      (callsFrom middleSession leavingInputs).2 :=
    modeCalls_callsFrom leavingInputs (by decide) (by decide +kernel) (by decide +kernel)
  exact hysteresis h (by decide +kernel)

/-- A miss, the player stopping, a single link again, and another miss. -/
def resumingInputs : List Inputs :=
  [playingAt 5 (59 / 2), playingAt 4 0, frozenInputs, playingAt 2 (59 / 2), playingAt 1 0]

/-- The miss from before the player stopped is counted with the first one of the new mode. -/
theorem single_mode_left_early : ∃ c cs s, ModeCalls (fun _ => True) (c :: cs) s ∧ c.Returns ∧
    predictions (c :: cs) = [true] :=
  ⟨_, _, _, modeCalls_callsFrom (s := middleSession) resumingInputs (by decide) (by decide +kernel)
    (fun _ _ => trivial), by decide +kernel, by decide +kernel⟩

end GreenBag
