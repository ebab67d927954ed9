import GreenBag.Starting

/-! The tail of the LTE link: how long it stays awake after it was used. -/

namespace GreenBag

open Programs Doubles Words

/-- What is known of the use of the LTE link. -/
inductive Activity
  | never
  | active
  | since (time : ℚ)
  deriving DecidableEq, Repr

/-- From the times and goodputs of the calls of `update_lte_state`, the latest first. A negative goodput,
which only an `int` can be, changes nothing. -/
def activity : List (ℚ × ℤ) → Activity
  | [] => .never
  | (time, goodput) :: calls =>
    if 0 < goodput then .active
    else
      match activity calls with
      | .never => .never
      | .active => if goodput = 0 then .since time else .active
      | .since t => .since t

/-- The calls with the goodputs as `update_lte_state` sees them. -/
def asInts (calls : List (ℚ × ℤ)) : List (ℚ × ℤ) := calls.map fun c => (c.1, narrow 32 c.2)

/-- What is left of the tail at a time. -/
def Activity.remaining (time : ℚ) : Activity → ℚ
  | .never => 0
  | .active => lteTailStateTimeoutSec
  | .since t => max 0 (lteTailStateTimeoutSec - (time - t))

def Activity.Over (time : ℚ) : Activity → Prop
  | .never => True
  | .active => False
  | .since t => lteTailStateTimeoutSec ≤ time - t

/-- What the goodputs show as an `int`, the latest of them at the first time, is charged for right: a tail
that seems to be over is, and else as much of it is left as seems to have passed. -/
def Activity.ShownRight (used : Activity) (latest time : ℚ) : Activity → Prop
  | .never => used.Over time
  | .active => True
  | .since t => if lteTailStateTimeoutSec < latest - t then used.Over time else time - t = used.remaining time

/-- The second `switch` of `get_energy_consumption`. -/
def remainingLteTailSec (state : LteState × ℚ) (clock : ℚ) : ℚ :=
  match state.1 with
  | .active => lteTailStateTimeoutSec
  | .tail => clock - state.2
  | .idle => 0

def SameTail (s t : Statics) : Prop :=
  t.lteState = s.lteState ∧ t.tailStateStartTime = s.tailStateStartTime

/-- The clock does not go back behind the latest call. -/
def Later (calls : List (ℚ × ℤ)) (clock : ℚ) : Prop := ∀ c ∈ calls.head?, c.1 ≤ clock

/-- Calls of `update_lte_state`; anything but the state may change between two of them. -/
inductive LteCalls : List (ℚ × ℤ) → Session → Prop
  | start {s} : s.statics.lteState = .idle → LteCalls [] s
  | call {calls s t u x r} : LteCalls calls s → SameTail s.statics t.statics →
      0 ≤ (t.conn .lte).bytesPerSecond → Later calls x.clock → updateLteState x t = .ok r u →
      LteCalls ((x.clock, (t.conn .lte).bytesPerSecond) :: calls) u

/-- The state says what the link is doing; a tail that was over at the latest call is forgotten. -/
def Tracked (calls : List (ℚ × ℤ)) (s : Statics) : Prop :=
  match activity calls with
  | .never => s.lteState = .idle
  | .active => s.lteState = .active
  | .since t =>
    (s.lteState = .tail ∧ s.tailStateStartTime = t ∧
      ∀ c ∈ calls.head?, c.1 - t ≤ lteTailStateTimeoutSec) ∨
    (s.lteState = .idle ∧ ∀ c ∈ calls.head?, lteTailStateTimeoutSec < c.1 - t)

section

variable {calls : List (ℚ × ℤ)} {s t u : Session} {x : Sample}

lemma Later.over {t₀ : ℚ} (hx : Later calls x.clock) (ha : activity calls = .since t₀)
    (h : ∀ c ∈ calls.head?, lteTailStateTimeoutSec < c.1 - t₀) :
    lteTailStateTimeoutSec < x.clock - t₀ := by
  cases calls with
  | nil => cases ha
  | cons c cs =>
    have hle := hx c rfl
    have hlt := h c rfl
    linarith

lemma Later.asInts (h : Later calls x.clock) : Later (asInts calls) x.clock := by
  cases calls with
  | nil => exact h
  | cons c cs =>
    rintro _ ⟨⟩
    exact h c rfl

lemma asInts_eq (h₀ : ∀ c ∈ calls, 0 ≤ c.2) (h : ∀ c ∈ calls, c.2 < 2 ^ 31) : asInts calls = calls := by
  refine (List.map_congr_left fun c hc => ?_).trans (List.map_id _)
  rw [narrow_of_inRange (by decide) ⟨(by decide : -2 ^ 31 ≤ (0 : ℤ)).trans (h₀ c hc), h c hc⟩]
  rfl

lemma wp_updateLteState_tracked (h : Tracked calls s.statics) (hx : Later calls x.clock) :
    wp (updateLteState x) (fun r t => r = (t.statics.lteState, t.statics.tailStateStartTime) ∧
      Tracked ((x.clock, narrow 32 (s.conn .lte).bytesPerSecond) :: calls) t.statics) (fun _ _ => False) s := by
  simp only [updateLteState, wp_bind, wp_get]
  generalize narrow 32 (s.conn .lte).bytesPerSecond = goodput
  unfold Tracked at h ⊢
  simp only [activity, List.head?_cons, Option.mem_some_iff, forall_eq']
  by_cases hpos : 0 < goodput
  · cases hs : s.statics.lteState with
    | idle => simp [hpos]
    | tail => simp [hpos]
    | active => simp [hs, hpos, hpos.ne']
  · cases ha : activity calls with
    | never =>
      simp only [ha] at h
      simp [h, hpos]
    | active =>
      simp only [ha] at h
      by_cases hz : goodput = 0
      · norm_num [h, hz, lteTailStateTimeoutSec]
      · simp [h, hz, hpos]
    | since t₀ =>
      simp only [ha] at h
      rcases h with ⟨hs, rfl, -⟩ | ⟨hs, hlate⟩
      · simp [hs, hpos]
      · simp [hs, hpos, hx.over ha hlate]

lemma Tracked.same {v w : Statics} (h : Tracked calls v) (hst : SameTail v w) : Tracked calls w := by
  unfold Tracked at h ⊢
  rw [hst.1, hst.2]
  exact h

lemma LteCalls.tracked (h : LteCalls calls s) : Tracked (asInts calls) s.statics := by
  induction h with
  | start hi => exact hi
  | call _ hst _ hx hr ih =>
    exact (((wp_iff _).mp (wp_updateLteState_tracked (ih.same hst) hx.asInts)).1 _ _ hr).2

lemma LteCalls.nonneg (h : LteCalls calls s) : ∀ c ∈ calls, 0 ≤ c.2 := by
  induction h with
  | start _ => simp
  | call _ _ hg _ _ ih => exact List.forall_mem_cons.mpr ⟨hg, ih⟩

/-- The time since the tail began is what is left of it only half way through. -/
lemma eq_remaining_iff {d : ℚ} :
    d = max 0 (lteTailStateTimeoutSec - d) ↔ d = lteTailStateTimeoutSec / 2 := by
  have hpos : (0 : ℚ) < lteTailStateTimeoutSec := by norm_num [lteTailStateTimeoutSec]
  constructor
  · intro h
    rcases max_choice 0 (lteTailStateTimeoutSec - d) with hm | hm
    · have hle := max_eq_left_iff.mp hm
      rw [hm] at h
      linarith
    · rw [hm] at h
      linarith
  · intro h
    rw [max_eq_right (by linarith)]
    linarith

lemma Activity.over_iff {a : Activity} {time : ℚ} : a.Over time ↔ 0 = a.remaining time := by
  cases a with
  | never => simp [Over, remaining]
  | active => norm_num [Over, remaining, lteTailStateTimeoutSec]
  | since t => rw [Over, remaining, eq_comm, max_eq_left_iff, sub_nonpos]

/-- A link that is active by its goodputs as an `int` is active. -/
lemma active_of_asInts (h₀ : ∀ c ∈ calls, 0 ≤ c.2) (h : activity (asInts calls) = .active) :
    activity calls = .active := by
  induction calls with
  | nil => cases h
  | cons c cs ih =>
    obtain ⟨hc, hcs⟩ := List.forall_mem_cons.mp h₀
    have hpos : narrow 32 c.2 ≠ 0 → 0 < c.2 := fun hn => lt_of_le_of_ne hc fun hz => hn (by rw [← hz]; rfl)
    rw [asInts, List.map_cons, activity] at h
    rw [activity, if_pos]
    refine hpos fun hz => ?_
    rw [if_neg (by omega)] at h
    split at h <;> simp_all

/-- What is charged for a tail is the time since it began, unless it was found to be over. -/
lemma Tracked.charged_iff {used : Activity} {r : LteState × ℚ} {latest time : ℚ} {g : ℤ}
    (hr : r = (s.statics.lteState, s.statics.tailStateStartTime))
    (h : Tracked ((latest, g) :: calls) s.statics)
    (hactive : activity ((latest, g) :: calls) = .active → used = .active) :
    remainingLteTailSec r time = used.remaining time ↔
      used.ShownRight latest time (activity ((latest, g) :: calls)) := by
  unfold Tracked at h
  rw [hr, remainingLteTailSec]
  cases ha : activity ((latest, g) :: calls) with
  | never =>
    simp only [ha] at h
    simp [h, Activity.ShownRight, Activity.over_iff]
  | active =>
    simp only [ha] at h
    simp [h, Activity.ShownRight, hactive ha, Activity.remaining]
  | since t₀ =>
    simp only [ha, List.head?_cons, Option.mem_some_iff, forall_eq'] at h
    rcases h with ⟨hs, rfl, hin⟩ | ⟨hs, hlate⟩
    · simp [hs, Activity.ShownRight, not_lt.mpr hin]
    · simp [hs, Activity.ShownRight, hlate, Activity.over_iff]

/-- Where all goodputs fit an `int`, the tail is to be half over, or to be found over. -/
lemma Activity.shownRight_self (a : Activity) {latest time : ℚ} (hle : latest ≤ time) :
    a.ShownRight latest time a ↔ ∀ t₀, a = .since t₀ →
      lteTailStateTimeoutSec < latest - t₀ ∨ time - t₀ = lteTailStateTimeoutSec / 2 := by
  cases a with
  | never => simp [ShownRight, Over]
  | active => simp [ShownRight]
  | since t₀ =>
    simp only [ShownRight, Over, remaining, Activity.since.injEq, forall_eq']
    split_ifs with hlate
    · have hover : lteTailStateTimeoutSec ≤ time - t₀ := by linarith
      simp [hlate, hover]
    · simp only [eq_remaining_iff, hlate, false_or]

lemma getEnergyConsumption_eq (mode : LinkMode) (lte wifi size : ℤ) (x : Inputs) :
    getEnergyConsumption mode lte wifi size x = (do
      let state ← updateLteState (x.sample (.energy mode))
      ensure .assertGoodput (lte ≠ 0 ∨ wifi ≠ 0)
      if size > 0 then do
        let energy ← transferEnergy mode lte wifi size
        return energy.add (.num (lteTailPow *
          remainingLteTailSec state (x.sample (.energyTail mode)).clock))
      else return .num 0) := by
  rw [getEnergyConsumption]
  refine bind_congr ?_
  rintro ⟨state, start⟩
  cases state <;> rfl

/-- In a call of `get_energy_consumption` the state of the link is looked up, and the tail is charged for.
What is left of it is charged exactly where the goodputs show this as an `int`; where they all fit, exactly
where the tail is half over, or was found to be over. -/
theorem tail_charged_iff {mode : LinkMode} {lte wifi size : ℤ} {y : Inputs} (h : LteCalls calls s)
    (hst : SameTail s.statics t.statics) (hg : 0 ≤ (t.conn .lte).bytesPerSecond)
    (hx : Later calls (y.sample (.energy mode)).clock)
    (hy : (y.sample (.energy mode)).clock ≤ (y.sample (.energyTail mode)).clock)
    (hgood : lte ≠ 0 ∨ wifi ≠ 0) (hsize : 0 < size) :
    let latest := (y.sample (.energy mode)).clock
    let time := (y.sample (.energyTail mode)).clock
    let all := (latest, (t.conn .lte).bytesPerSecond) :: calls
    ∃ r u, updateLteState (y.sample (.energy mode)) t = .ok r u ∧
      getEnergyConsumption mode lte wifi size y t = (do
        let energy ← transferEnergy mode lte wifi size
        return energy.add (.num (lteTailPow * remainingLteTailSec r time))) u ∧
      (remainingLteTailSec r time = (activity all).remaining time ↔
        (activity all).ShownRight latest time (activity (asInts all))) ∧
      ((∀ c ∈ all, c.2 < 2 ^ 31) → (remainingLteTailSec r time = (activity all).remaining time ↔
        ∀ t₀, activity all = .since t₀ →
          lteTailStateTimeoutSec < latest - t₀ ∨ time - t₀ = lteTailStateTimeoutSec / 2)) := by
  intro latest time all
  obtain ⟨r, u, hu, hr, htracked⟩ :=
    exists_of_wp (wp_updateLteState_tracked (h.tracked.same hst) hx.asInts)
  have hnn : ∀ c ∈ all, 0 ≤ c.2 := List.forall_mem_cons.mpr ⟨hg, h.nonneg⟩
  have hiff : remainingLteTailSec r time = (activity all).remaining time ↔
      (activity all).ShownRight latest time (activity (asInts all)) :=
    htracked.charged_iff hr (active_of_asInts hnn)
  refine ⟨r, u, hu, ?_, hiff, fun hfit => ?_⟩
  · rw [getEnergyConsumption_eq, bind_of_ok hu, ensure, if_pos hgood, if_pos hsize]
    rfl
  · rw [hiff, asInts_eq hnn hfit]
    exact (activity all).shownRight_self hy

end

/-- A session in which the LTE link has a goodput. -/
def lteAt (goodput : ℤ) (statics : Statics) : Session :=
  { gbNew statics plainConf 2000 true 206 with
    conn := fun i => { freshConn i true 206 with bytesPerSecond := goodput } }

/-- The link was active in the first second. -/
def activeStatics : Statics := (after (updateLteState ⟨1, none, 0⟩) (lteAt 1000 freshStatics)).statics

lemma lteCalls_active :
    LteCalls [(1, 1000)] (after (updateLteState ⟨1, none, 0⟩) (lteAt 1000 freshStatics)) :=
  have hr : result (updateLteState ⟨1, none, 0⟩) (lteAt 1000 freshStatics) = some (.active, 0) := by
    decide +kernel
  .call (.start rfl) ⟨rfl, rfl⟩ (by decide) (fun c hc => by cases hc) (ok_of_result hr)

/-- The state of the link is looked up after 2 seconds, and the tail is charged for half of it later. -/
def halfInputs : Inputs := { calmInputs with
  sample := fun
    | .energy _ => ⟨2, none, 0⟩
    | _ => ⟨38 / 5, none, 0⟩ }

theorem tail_charged_iff_of_half : ∃ r u,
    updateLteState ⟨2, none, 0⟩ (lteAt 0 activeStatics) = .ok r u ∧
      remainingLteTailSec r (38 / 5) = Activity.remaining (38 / 5) (.since 2) := by
  have hx : Later [(1, 1000)] (halfInputs.sample (.energy .dual)).clock := by
    rintro c ⟨⟩
    norm_num [halfInputs]
  have hgood : (1 : ℤ) ≠ 0 ∨ (1 : ℤ) ≠ 0 := .inl one_ne_zero
  obtain ⟨r, u, hu, -, -, hiff⟩ := tail_charged_iff lteCalls_active (t := lteAt 0 activeStatics)
    ⟨rfl, rfl⟩ (by decide) hx (by norm_num [halfInputs]) hgood zero_lt_one
  refine ⟨r, u, hu, (hiff (by decide)).mpr fun t₀ ht => .inr ?_⟩
  cases ht
  norm_num [halfInputs, lteTailStateTimeoutSec]

/-- The tail begins, and nothing is charged for it; a second later more is. -/
theorem tail_charged_rising : ∃ calls s, LteCalls calls s ∧ activity calls = .since 2 ∧
    remainingLteTailSec (s.statics.lteState, s.statics.tailStateStartTime) 2 = 0 ∧
      remainingLteTailSec (s.statics.lteState, s.statics.tailStateStartTime) 3 = 1 ∧
        (activity calls).remaining 2 = lteTailStateTimeoutSec := by
  have hr : result (updateLteState ⟨2, none, 0⟩) (lteAt 0 activeStatics) = some (.tail, 2) := by
    decide +kernel
  have hx : Later [(1, 1000)] 2 := by
    rintro c ⟨⟩
    norm_num
  have hcalls : LteCalls [(2, 0), (1, 1000)]
      (after (updateLteState ⟨2, none, 0⟩) (lteAt 0 activeStatics)) :=
    .call (t := lteAt 0 activeStatics) (x := ⟨2, none, 0⟩) lteCalls_active ⟨rfl, rfl⟩ (by decide) hx
      (ok_of_result hr)
  exact ⟨_, _, hcalls, by decide +kernel⟩

end GreenBag
