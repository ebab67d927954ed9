import GreenBag.Starting

/-! Which link mode `choose_link_mode` returns where it chooses by energy. -/

namespace GreenBag

open Programs Doubles

/-- The mode can be chosen: it uses both links, or is fast enough to the end of the file. -/
def Feasible (s : Session) (size : ℤ) (x : Inputs) (mode : LinkMode) : Prop :=
  mode = .dual ∨
    result (doesQmissUntilNextPortionInLinkMode size mode (x.sample .cheapest)) s = some false

instance (s : Session) (size : ℤ) (x : Inputs) : DecidablePred (Feasible s size x) :=
  fun _ => inferInstanceAs (Decidable (_ ∨ _))

/-- With the player playing and bytes left to plan, the call comes to the choice by energy, in state
`t`: no miss is predicted for the single link in use, or both links are used and the chunk that is
waited for does not come too late. -/
structure Selecting (i : Link) (x : Inputs) (s : Session) (size : ℤ) (t : Session) : Prop where
  tail : s.offsetInfo.tail ≠ none
  remaining : size = s.size - s.frontier
  left : 0 < size
  entered : ∃ u, getPlayerState (x.sample .mode) s = .ok .playing u ∧
    match u.statics.currentLinkMode with
    | .dual => doesQosMissUntilBnChunk i (x.sample .modeMiss) u = .ok false t
    | .single j => ∃ v, doesQmissUntilNextPortionInLinkMode size (.single j) (x.sample .modeMiss) u =
        .ok false v ∧ t = { v with statics := { v.statics with numEstQmiss := 0 } }

/-- The first mode in the order can be chosen; or the second one can and is the present mode; or it
cannot, and the last one is the dual mode and the present one. -/
def CheapestFits (current : LinkMode) (feasible : LinkMode → Prop) : List LinkMode → Prop
  | [m₀, m₁, m₂] => feasible m₀ ∨ current = m₁ ∧ feasible m₁ ∨
      current = m₂ ∧ m₂ = .dual ∧ ¬ feasible m₁
  | _ => False

section

variable {α β : Type} {s t : Session} {i : Link} {x : Inputs} {size : ℤ} {sorted : List LinkMode}

/-- The mode and the count of missed deadlines are the same. -/
def SameMode (s t : Statics) : Prop :=
  t.currentLinkMode = s.currentLinkMode ∧ t.numEstQmiss = s.numEstQmiss

/-- The program leaves the present mode as it is. -/
def KeepsMode (y : Program α) : Prop :=
  ∀ s, wp y (fun _ t => SameMode s.statics t.statics) (fun _ _ => True) s

@[simp] lemma SameMode.refl (s : Statics) : SameMode s s := ⟨rfl, rfl⟩

lemma SameMode.trans {s t u : Statics} (h : SameMode s t) (h' : SameMode t u) : SameMode s u :=
  ⟨h'.1.trans h.1, h'.2.trans h.2⟩

lemma KeepsMode.bind {y : Program α} {f : α → Program β} (h : KeepsMode y) (hf : ∀ a, KeepsMode (f a)) :
    KeepsMode (y >>= f) := by
  intro s
  rw [wp_bind]
  refine wp_mono (h s) (fun a t ht => ?_) (fun _ _ h => h)
  exact wp_mono (hf a t) (fun _ _ hu => ht.trans hu) (fun _ _ h => h)

lemma KeepsMode.same {y : Program α} (h : KeepsMode y) {a : α} (hy : y s = .ok a t) :
    SameMode s.statics t.statics :=
  ((wp_iff _).mp (h s)).1 a t hy

lemma keepsMode_getPlayerState (x : Sample) : KeepsMode (getPlayerState x) := by
  intro s
  rw [getPlayerState]
  split <;> simp [SameMode]

lemma keepsMode_getRemainingPlaybackTime (x : Sample) : KeepsMode (getRemainingPlaybackTime x) := by
  intro s
  simp [getRemainingPlaybackTime, SameMode]

lemma keepsMode_doesQmiss (size : ℤ) (mode : LinkMode) (x : Sample) :
    KeepsMode (doesQmissUntilNextPortionInLinkMode size mode x) := by
  intro s
  simp only [doesQmissUntilNextPortionInLinkMode, wp_bind, wp_get]
  exact wp_mono (keepsMode_getRemainingPlaybackTime x s) (fun _ _ ht => ht) fun _ _ h => h

lemma keepsMode_getBnChunkInfo (i : Link) : KeepsMode (getBnChunkInfo i) := by
  intro s
  simp only [getBnChunkInfo, wp_bind, wp_logEvent, wp_get]
  split
  · simp [SameMode]
  · split
    · simp [SameMode]
    · split
      · simp [SameMode]
      · split <;> simp [SameMode]

lemma keepsMode_doesQosMiss (i : Link) (x : Sample) : KeepsMode (doesQosMissUntilBnChunk i x) := by
  refine .bind (keepsMode_getBnChunkInfo i) fun bn s => ?_
  simp [getRemainingPlayableTime, updateLastDownloadedByte, SameMode]

lemma keepsMode_getEnergyConsumption (mode : LinkMode) (lte wifi size : ℤ) (x : Inputs) :
    KeepsMode (getEnergyConsumption mode lte wifi size x) := by
  refine .bind (fun s => ?_) fun ⟨state, start⟩ s => ?_
  · simp only [updateLteState, wp_bind, wp_get]
    split <;> simp [SameMode]
  · simp only [wp_bind, wp_ensure, wp_ite]
    rcases mode with _ | ⟨_ | _⟩ <;> simp [transferEnergy, SameMode]

lemma keepsMode_getEnergySortedLinkModes (size : ℤ) (x : Inputs) :
    KeepsMode (getEnergySortedLinkModes size x) := by
  intro s
  simp only [getEnergySortedLinkModes]
  rw [wp_bind, wp_get]
  refine KeepsMode.bind (keepsMode_getEnergyConsumption _ _ _ _ _) (fun _ => ?_) s
  refine .bind (keepsMode_getEnergyConsumption _ _ _ _ _) fun _ => ?_
  refine .bind (keepsMode_getEnergyConsumption _ _ _ _ _) fun _ t => ?_
  exact .refl t.statics

lemma dual_mem_sorted (energy : LinkMode → Double) : .dual ∈ getThreeSortedIndex energy := by
  simp only [getThreeSortedIndex]
  generalize getMinValueIndex energy = least
  generalize getMaxValueIndex energy = most
  by_cases h₀ : least = .dual
  · simp [h₀]
  · by_cases h₁ : most = .dual
    · simp [h₁]
    · simp [linkModes, Ne.symm h₀, Ne.symm h₁]

lemma wp_doesQmiss_cheapest {post : Bool → Session → Prop} {crash : Fault → Session → Prop}
    {j : Link} (hm : ∀ miss t, (miss = false ↔ Feasible s size x (.single j)) →
      t.statics.currentLinkMode = s.statics.currentLinkMode → post miss t) :
    wp (doesQmissUntilNextPortionInLinkMode size (.single j) (x.sample .cheapest)) post crash s := by
  have hw : wp (doesQmissUntilNextPortionInLinkMode size (.single j) (x.sample .cheapest))
      (fun _ t => t.statics.currentLinkMode = s.statics.currentLinkMode) (fun _ _ => False) s := by
    simp [doesQmissUntilNextPortionInLinkMode, getRemainingPlaybackTime]
  obtain ⟨miss, t, hmiss, ht⟩ := exists_of_wp hw
  rw [wp_of_ok hmiss]
  refine hm miss t ?_ ht
  simp [Feasible, result, hmiss]

lemma wp_considerLinkModes (m : LinkMode) (ms : List LinkMode) {crash : Fault → Session → Prop} :
    wp (considerLinkModes size x (m :: ms)) (fun _ t =>
      (Feasible s size x m → t.statics.currentLinkMode = m) ∧
        (¬ Feasible s size x m → t.statics.currentLinkMode = s.statics.currentLinkMode))
      crash s := by
  cases m with
  | dual => exact ⟨fun _ => rfl, fun hn => absurd (.inl rfl) hn⟩
  | single j =>
    rw [considerLinkModes, wp_bind]
    refine wp_doesQmiss_cheapest fun miss t hmiss ht => ?_
    simp only [wp_whenever, wp_modifyStatics, Bool.not_eq_true]
    refine ⟨fun hf => ⟨fun _ => trivial, fun hn => absurd (hmiss.mp hf) hn⟩, fun hf => ?_⟩
    exact ⟨fun h => absurd (hmiss.mpr h) hf, fun _ => ht⟩

lemma wp_chooseLinkMode_selecting {u v : Session} {m : LinkMode} {ms : List LinkMode}
    {crash : Fault → Session → Prop} (h : Selecting i x s size u)
    (hsort : getEnergySortedLinkModes size x u = .ok (m :: ms) v) :
    wp (chooseLinkMode i x) (fun mode _ => (Feasible v size x m → mode = m) ∧
      (¬ Feasible v size x m → mode = s.statics.currentLinkMode)) crash s := by
  obtain ⟨w, hw, henter⟩ := h.entered
  have hplay := ((keepsMode_getPlayerState (x.sample .mode)).same hw).1
  have hv := ((keepsMode_getEnergySortedLinkModes size x).same hsort).1
  have hsel : u.statics.currentLinkMode = s.statics.currentLinkMode →
      wp (selectLinkMode size x) (fun _ t =>
        (Feasible v size x m → t.statics.currentLinkMode = m) ∧
          (¬ Feasible v size x m → t.statics.currentLinkMode = s.statics.currentLinkMode))
        crash u := by
    intro hu
    rw [selectLinkMode, wp_bind, wp_of_ok hsort, ← hu, ← hv]
    exact wp_considerLinkModes m ms
  simp only [chooseLinkMode, getRemainingFileSize, wp_bind]
  refine wp_getStartByteNextSegment (fun hn => absurd hn h.tail) ?_
  rw [wp_get, wp_pure, ← h.remaining, wp_get, wp_ite]
  refine ⟨fun hle => absurd h.left (by omega), fun _ => ?_⟩
  rw [wp_bind, wp_of_ok hw]
  simp only [wp_bind, wp_get, if_true]
  cases hmode : w.statics.currentLinkMode with
  | dual =>
    simp only [hmode] at henter
    have hu := ((keepsMode_doesQosMiss i _).same henter).1
    simp only [reconsiderDualMode, wp_bind]
    rw [wp_of_ok henter, wp_whenever]
    exact ⟨fun _ => hsel (hu.trans hplay), fun hn => absurd Bool.false_ne_true hn⟩
  | single j =>
    simp only [hmode] at henter
    obtain ⟨t, ht, rfl⟩ := henter
    have hu := ((keepsMode_doesQmiss _ _ _).same ht).1
    simp only [reconsiderSingleMode, wp_bind]
    rw [wp_of_ok ht]
    exact hsel (hu.trans hplay)

lemma exists_of_sorted (h : getEnergySortedLinkModes size x s = .ok sorted t) :
    ∃ m₀ m₁ m₂, sorted = [m₀, m₁, m₂] ∧ .dual ∈ sorted := by
  have hw : wp (getEnergySortedLinkModes size x)
      (fun ms _ => ∃ m₀ m₁ m₂, ms = [m₀, m₁, m₂] ∧ .dual ∈ ms) (fun _ _ => True) s := by
    simp only [getEnergySortedLinkModes, wp_bind, wp_get, wp_pure]
    refine wp_of_forall (fun _ _ => wp_of_forall (fun _ _ => wp_of_forall (fun _ _ => ?_) ?_) ?_) ?_
    · exact ⟨_, _, _, rfl, dual_mem_sorted _⟩
    all_goals exact fun _ _ => trivial
  exact ((wp_iff _).mp hw).1 _ _ h

/-- The mode chosen is the first feasible one exactly when that is the first one of all, or the mode
in use. -/
theorem cheapest_iff {u v : Session} (h : Selecting i x s size u)
    (hsort : getEnergySortedLinkModes size x u = .ok sorted v) :
    (∃ mode w, chooseLinkMode i x s = .ok mode w ∧
      sorted.find? (fun m => Feasible v size x m) = some mode) ↔
        CheapestFits s.statics.currentLinkMode (Feasible v size x) sorted := by
  obtain ⟨m₀, m₁, m₂, rfl, hdual⟩ := exists_of_sorted hsort
  obtain ⟨mode, w, hw, hfirst, hkeep⟩ := exists_of_wp (wp_chooseLinkMode_selecting h hsort)
  have hrun : (∃ mode w, chooseLinkMode i x s = .ok mode w ∧
      [m₀, m₁, m₂].find? (fun m => Feasible v size x m) = some mode) ↔
        [m₀, m₁, m₂].find? (fun m => Feasible v size x m) = some mode := by
    simp [hw]
  rw [hrun]
  by_cases h₀ : Feasible v size x m₀
  · simp [CheapestFits, h₀, hfirst h₀]
  have h₀' : m₀ ≠ .dual := fun he => h₀ (.inl he)
  rw [hkeep h₀]
  by_cases h₁ : Feasible v size x m₁
  · simp [CheapestFits, h₀, h₁, eq_comm]
  have h₁' : m₁ ≠ .dual := fun he => h₁ (.inl he)
  obtain rfl : m₂ = .dual := by
    simpa [h₀'.symm, h₁'.symm, eq_comm] using hdual
  have h₂ : Feasible v size x .dual := .inl rfl
  simp [CheapestFits, h₀, h₁, h₂, eq_comm]

end

/-- The LTE link is in use, and the WiFi link is slow. -/
def lteSession : Session :=
  { gbNew { freshStatics with currentLinkMode := .single .lte } plainConf 2000 true 206 with
    qosBytesPerSecond := 1000
    conn := fun i => { freshConn i true 206 with
      bytesPerSecond := if i = .lte then 1000 else 0
      ewmaBytesPerSecond := if i = .lte then 1000 else 500 }
    offsetInfo := { emptyOffsetInfo with
      segments := [⟨0, false, [newChunk 0 1000], 1000, fun _ => none⟩]
      tail := some 0
      numSegments := 1
      lastSegOffset := 999
      singleLinkModeFlag := true } }

/-- The player plays its first frame. -/
def playingInputs : Inputs := { calmInputs with sample := fun _ => ⟨1, some 30, 0⟩ }

/-- The session in which the modes are put in order. -/
def selectingSession : Session :=
  let played := after (getPlayerState (playingInputs.sample .mode)) lteSession
  let asked := after (doesQmissUntilNextPortionInLinkMode 1000 (.single .lte)
    (playingInputs.sample .modeMiss)) played
  { asked with statics := { asked.statics with numEstQmiss := 0 } }

lemma lteSession_selecting : Selecting .lte playingInputs lteSession 1000 selectingSession where
  tail := by decide
  remaining := by decide
  left := by decide
  entered := ⟨_, ok_of_result (by decide +kernel), _, ok_of_result (by decide +kernel), rfl⟩

lemma lteSession_sorted : getEnergySortedLinkModes 1000 playingInputs selectingSession =
    .ok [.single .wifi, .dual, .single .lte]
      (after (getEnergySortedLinkModes 1000 playingInputs) selectingSession) :=
  ok_of_result (by decide +kernel)

theorem cheapest_iff_of_lte : ¬ ∃ mode w, chooseLinkMode .lte playingInputs lteSession = .ok mode w ∧
    [LinkMode.single .wifi, .dual, .single .lte].find? (fun m => Feasible
      (after (getEnergySortedLinkModes 1000 playingInputs) selectingSession) 1000 playingInputs m) =
        some mode := by
  rw [cheapest_iff lteSession_selecting lteSession_sorted]
  simp only [CheapestFits]
  decide +kernel

/-- The WiFi link, which needs the least energy, is too slow; the dual mode, which is next, is not
taken although the LTE link alone needs more. -/
theorem single_mode_stays : ∃ (size : ℤ) (u v : Session) (sorted : List LinkMode) (mode : LinkMode),
    Selecting .lte playingInputs lteSession size u ∧
      getEnergySortedLinkModes size playingInputs u = .ok sorted v ∧
        result (chooseLinkMode .lte playingInputs) lteSession = some mode ∧
          sorted.find? (fun m => Feasible v size playingInputs m) ≠ some mode :=
  ⟨1000, _, _, _, .single .lte, lteSession_selecting, lteSession_sorted, by decide +kernel,
    by decide +kernel⟩

end GreenBag
