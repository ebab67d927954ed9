import GreenBag.Starting

/-! The average goodput of a connection lies among the goodputs that were measured. -/

namespace GreenBag

open Programs

/-- The average is one of the samples or lies between two of them, and is 0 without a sample. -/
structure Within (samples : List ℤ) (average : ℤ) : Prop where
  none : samples = [] → average = 0
  low : samples ≠ [] → ∃ b ∈ samples, b ≤ average
  high : samples ≠ [] → ∃ b ∈ samples, average ≤ b

/-- The samples of a connection after a call: one more where the connection had received bytes. -/
def record (samples : Link → List ℤ) (s t : Session) (i : Link) : List ℤ :=
  if i ∈ s.links ∧ (s.conn i).bytesDone ≠ 0 then (t.conn i).bytesPerSecond :: samples i
  else samples i

/-- Each first sample of a connection is taken before a segment is complete, or it makes no
difference whether it is averaged with 0. -/
def Early (samples : Link → List ℤ) (s : Session) (elapsed : Link → ℚ) : Prop :=
  ∀ i ∈ s.links, (s.conn i).bytesDone ≠ 0 → samples i = [] →
    s.offsetInfo.completedSegmentCount = 0 ∨ s.conf.ewmaFactor = 1 ∨
      truncate ((s.conn i).bytesDone / elapsed i) = 0

instance Early.instDecidable (samples : Link → List ℤ) (s : Session) (elapsed : Link → ℚ) :
    Decidable (Early samples s elapsed) :=
  inferInstanceAs (Decidable (∀ i ∈ _, _ → _ → _))

def SameAverage (s t : Session) : Prop :=
  ∀ i, (t.conn i).ewmaBytesPerSecond = (s.conn i).ewmaBytesPerSecond

/-- Calls of `gb_update_goodput` with the samples they take; anything but the averages may change
between two of them. -/
inductive GoodputCalls (allow : (Link → List ℤ) → Session → (Link → ℚ) → Prop) :
    (Link → List ℤ) → Session → Prop
  | start {s} : (∀ i, (s.conn i).ewmaBytesPerSecond = 0) → GoodputCalls allow (fun _ => []) s
  | call {samples s t u elapsed} : GoodputCalls allow samples s → SameAverage s t →
      0 ≤ t.conf.ewmaFactor ∧ t.conf.ewmaFactor ≤ 1 → gbUpdateGoodput elapsed t = .ok () u →
      allow samples t elapsed → GoodputCalls allow (record samples t u) u

section

variable {a b e : ℤ} {f q : ℚ}

lemma le_truncate (h : (b : ℚ) ≤ q) : b ≤ truncate q := by
  unfold truncate
  split_ifs
  · exact Int.le_floor.mpr h
  · rw [Int.floor_neg, neg_neg]
    exact_mod_cast h.trans (Int.le_ceil q)

lemma truncate_le (h : q ≤ b) : truncate q ≤ b := by
  unfold truncate
  split_ifs
  · exact_mod_cast (Int.floor_le q).trans h
  · rw [Int.floor_neg, neg_neg]
    exact Int.ceil_le.mpr h

/-- An average rounded towards zero is not below the smaller of the two integers. -/
lemma min_le_average (h₀ : 0 ≤ f) (h₁ : f ≤ 1) : min e b ≤ truncate ((1 - f) * e + f * b) := by
  have he : ((min e b : ℤ) : ℚ) ≤ e := by exact_mod_cast min_le_left e b
  have hb : ((min e b : ℤ) : ℚ) ≤ b := by exact_mod_cast min_le_right e b
  refine le_truncate ?_
  nlinarith

lemma average_le_max (h₀ : 0 ≤ f) (h₁ : f ≤ 1) : truncate ((1 - f) * e + f * b) ≤ max e b := by
  have he : (e : ℚ) ≤ (max e b : ℤ) := by exact_mod_cast le_max_left e b
  have hb : (b : ℚ) ≤ (max e b : ℤ) := by exact_mod_cast le_max_right e b
  refine truncate_le ?_
  nlinarith

lemma abs_truncate_le (q : ℚ) : |(truncate q : ℚ)| ≤ |q| := by
  unfold truncate
  split_ifs with hq
  · have hf : (0 : ℚ) ≤ (⌊q⌋ : ℤ) := by exact_mod_cast Int.floor_nonneg.mpr hq
    rw [abs_of_nonneg hq, abs_of_nonneg hf]
    exact Int.floor_le q
  · have hq : 0 ≤ -q := by linarith
    have hf : (0 : ℚ) ≤ (⌊-q⌋ : ℤ) := by exact_mod_cast Int.floor_nonneg.mpr hq
    rw [Int.cast_neg, abs_neg, ← abs_neg q, abs_of_nonneg hq, abs_of_nonneg hf]
    exact Int.floor_le (-q)

/-- A sample survives being averaged with 0 only if nothing is taken off it. -/
lemma average_zero_eq_iff (h₀ : 0 ≤ f) (h₁ : f ≤ 1) :
    truncate ((1 - f) * (0 : ℤ) + f * b) = b ↔ f = 1 ∨ b = 0 := by
  rw [Int.cast_zero, mul_zero, zero_add]
  constructor
  · intro h
    by_contra hn
    obtain ⟨hf, hb⟩ := not_or.mp hn
    have hf : f < 1 := lt_of_le_of_ne h₁ hf
    have hb : (0 : ℚ) < |(b : ℚ)| := abs_pos.mpr (by exact_mod_cast hb)
    have hle := abs_truncate_le (f * b)
    rw [h, abs_mul, abs_of_nonneg h₀] at hle
    nlinarith
  · rintro (rfl | rfl)
    · rw [one_mul]
      exact le_antisymm (truncate_le le_rfl) (le_truncate le_rfl)
    · rw [Int.cast_zero, mul_zero]
      rfl

lemma Within.cons_of_between {samples : List ℤ} (h : Within samples a) (hne : samples ≠ [])
    (hlo : min a b ≤ e) (hhi : e ≤ max a b) : Within (b :: samples) e := by
  obtain ⟨lo, hlo', hla⟩ := h.low hne
  obtain ⟨hi, hhi', hah⟩ := h.high hne
  refine ⟨fun hn => absurd hn (List.cons_ne_nil _ _), fun _ => ?_, fun _ => ?_⟩
  · rcases min_choice a b with hm | hm
    · exact ⟨lo, List.mem_cons_of_mem _ hlo', hla.trans (hm ▸ hlo)⟩
    · exact ⟨b, List.mem_cons_self, hm ▸ hlo⟩
  · rcases max_choice a b with hm | hm
    · exact ⟨hi, List.mem_cons_of_mem _ hhi', (hm ▸ hhi).trans hah⟩
    · exact ⟨b, List.mem_cons_self, hm ▸ hhi⟩

lemma within_singleton_iff : Within [b] e ↔ e = b := by
  constructor
  · intro h
    obtain ⟨lo, hlo, hl⟩ := h.low (List.cons_ne_nil _ _)
    obtain ⟨hi, hhi, hh⟩ := h.high (List.cons_ne_nil _ _)
    obtain rfl := List.mem_singleton.mp hlo
    obtain rfl := List.mem_singleton.mp hhi
    exact le_antisymm hh hl
  · rintro rfl
    exact ⟨fun hn => absurd hn (List.cons_ne_nil _ _), fun _ => ⟨e, List.mem_cons_self, le_rfl⟩,
      fun _ => ⟨e, List.mem_cons_self, le_rfl⟩⟩

/-- The average after a sample is within the samples, unless it is the first one and comes late. -/
lemma within_updateGoodput_iff {c : Conn} {samples : List ℤ} {elapsed : ℚ} {first : Bool}
    (h₀ : 0 ≤ f) (h₁ : f ≤ 1) (h : Within samples c.ewmaBytesPerSecond) (hd : c.bytesDone ≠ 0) :
    Within ((c.updateGoodput elapsed f first).bytesPerSecond :: samples)
        (c.updateGoodput elapsed f first).ewmaBytesPerSecond ↔
      (samples = [] → first = true ∨ f = 1 ∨ truncate (c.bytesDone / elapsed) = 0) := by
  simp only [Conn.updateGoodput, if_neg hd]
  by_cases hs : samples = []
  · subst hs
    rw [within_singleton_iff, h.none rfl]
    cases first with
    | true => simp
    | false => simpa using average_zero_eq_iff h₀ h₁
  · simp only [hs, false_implies, iff_true]
    cases first with
    | true => exact h.cons_of_between hs (min_le_right _ _) (le_max_right _ _)
    | false => exact h.cons_of_between hs (min_le_average h₀ h₁) (average_le_max h₀ h₁)

end

section

variable {samples : Link → List ℤ} {s t u : Session} {elapsed : Link → ℚ}

lemma gbUpdateGoodput_conn (h : gbUpdateGoodput elapsed t = .ok () u) (i : Link) :
    u.conn i = if i ∈ t.links then
      { (t.conn i).updateGoodput (elapsed i) t.conf.ewmaFactor
          (t.offsetInfo.completedSegmentCount = 0) with bytesDone := 0 } else t.conn i := by
  have hw : wp (gbUpdateGoodput elapsed) (fun _ u => ∀ i, u.conn i = if i ∈ t.links then
      { (t.conn i).updateGoodput (elapsed i) t.conf.ewmaFactor
          (t.offsetInfo.completedSegmentCount = 0) with bytesDone := 0 } else t.conn i)
      (fun _ _ => True) t := by
    simp [gbUpdateGoodput, getFastConnIndex]
  exact ((wp_iff _).mp hw).1 () u h i

lemma within_record_iff (hf : 0 ≤ t.conf.ewmaFactor ∧ t.conf.ewmaFactor ≤ 1)
    (hu : gbUpdateGoodput elapsed t = .ok () u)
    (h : ∀ i, Within (samples i) (t.conn i).ewmaBytesPerSecond) :
    (∀ i, Within (record samples t u i) (u.conn i).ewmaBytesPerSecond) ↔
      Early samples t elapsed := by
  have hone : ∀ i, Within (record samples t u i) (u.conn i).ewmaBytesPerSecond ↔
      (i ∈ t.links → (t.conn i).bytesDone ≠ 0 → samples i = [] →
        t.offsetInfo.completedSegmentCount = 0 ∨ t.conf.ewmaFactor = 1 ∨
          truncate ((t.conn i).bytesDone / elapsed i) = 0) := by
    intro i
    rw [record, gbUpdateGoodput_conn hu]
    by_cases hi : i ∈ t.links
    · by_cases hd : (t.conn i).bytesDone = 0
      · simp only [hi, hd, Conn.updateGoodput]
        simpa using h i
      · simp only [hi, hd, if_true, ne_eq, not_false_eq_true, and_self, true_implies]
        rw [within_updateGoodput_iff hf.1 hf.2 (h i) hd, decide_eq_true_eq]
    · simp only [hi, false_and, if_false, false_implies, iff_true]
      exact h i
  exact forall_congr' hone

/-- The averages stay within the samples as long as no first sample is late, and no longer. -/
theorem ewma_within_iff (samples : Link → List ℤ) (s : Session) :
    (GoodputCalls Early samples s → ∀ i, Within (samples i) (s.conn i).ewmaBytesPerSecond) ∧
    ∀ t u elapsed, GoodputCalls Early samples s → SameAverage s t →
      0 ≤ t.conf.ewmaFactor ∧ t.conf.ewmaFactor ≤ 1 → gbUpdateGoodput elapsed t = .ok () u →
      ((∀ i, Within (record samples t u i) (u.conn i).ewmaBytesPerSecond) ↔
        Early samples t elapsed) := by
  have hrun (h : GoodputCalls Early samples s) :
      ∀ i, Within (samples i) (s.conn i).ewmaBytesPerSecond := by
    induction h with
    | start hz => exact fun i => ⟨fun _ => hz i, fun hn => absurd rfl hn, fun hn => absurd rfl hn⟩
    | call _ hst hf hu hearly ih =>
      exact (within_record_iff hf hu fun i => hst i ▸ ih i).mpr hearly
  exact ⟨hrun, fun t u elapsed h hst hf hu =>
    within_record_iff hf hu fun i => hst i ▸ hrun h i⟩

end

/-- The WiFi link has received its first 10 bytes, after so many segments. -/
def wifiSession (completed : ℕ) : Session :=
  { gbNew freshStatics plainConf 2000 true 206 with
    conn := fun i => { freshConn i true 206 with bytesDone := if i = .wifi then 10 else 0 }
    offsetInfo := { emptyOffsetInfo with completedSegmentCount := completed } }

/-- The session a second later. -/
def wifiMeasured (completed : ℕ) : Session :=
  after (gbUpdateGoodput fun _ => 1) (wifiSession completed)

lemma goodputCalls_wifiMeasured {allow : (Link → List ℤ) → Session → (Link → ℚ) → Prop} (n : ℕ)
    (hr : result (gbUpdateGoodput fun _ => 1) (wifiSession n) = some ())
    (ha : allow (fun _ => []) (wifiSession n) fun _ => 1) :
    GoodputCalls allow (record (fun _ => []) (wifiSession n) (wifiMeasured n)) (wifiMeasured n) :=
  .call (.start (s := wifiSession n) fun _ => rfl) (fun _ => rfl)
    ⟨by norm_num [wifiSession, gbNew, plainConf], by norm_num [wifiSession, gbNew, plainConf]⟩
    (ok_of_result hr) ha

/-- The WiFi link receives more bytes in another second, behind the first segment. -/
def Session.receiving (s : Session) (bytes : ℤ) : Session := { s with
  conn := Function.update s.conn .wifi { s.conn .wifi with bytesDone := bytes }
  offsetInfo := { s.offsetInfo with completedSegmentCount := 1 } }

def Session.measured (s : Session) (bytes : ℤ) : Session := after (gbUpdateGoodput fun _ => 1) (s.receiving bytes)

lemma GoodputCalls.measured {samples : Link → List ℤ} {s : Session} (h : GoodputCalls Early samples s) (bytes : ℤ)
    (hf : 0 ≤ s.conf.ewmaFactor ∧ s.conf.ewmaFactor ≤ 1)
    (hr : result (gbUpdateGoodput fun _ => 1) (s.receiving bytes) = some ())
    (ha : Early samples (s.receiving bytes) fun _ => 1) :
    GoodputCalls Early (record samples (s.receiving bytes) (s.measured bytes)) (s.measured bytes) := by
  refine .call h (fun i => ?_) hf (ok_of_result hr) ha
  cases i <;> rfl

/-- Three samples, of which the latter two are averaged with what there was before. -/
theorem ewma_within_iff_of_wifi : ∃ (samples : Link → List ℤ) (s : Session), samples .wifi = [4, 21, 10] ∧
    (s.conn .wifi).ewmaBytesPerSecond = 9 ∧ Within (samples .wifi) (s.conn .wifi).ewmaBytesPerSecond := by
  have h₁ := @goodputCalls_wifiMeasured Early 0 (by decide +kernel) fun _ _ _ _ => .inl rfl
  have h₂ := h₁.measured 21 (by decide +kernel) (by decide +kernel) (by decide +kernel)
  have h₃ := h₂.measured 4 (by decide +kernel) (by decide +kernel) (by decide +kernel)
  exact ⟨_, _, by decide +kernel, by decide +kernel, (ewma_within_iff _ _).1 h₃ .wifi⟩

/-- The first sample, of 10 bytes a second, comes after the first segment, and the average is 5. -/
theorem late_sample_halved : ∃ samples s, GoodputCalls (fun _ _ _ => True) samples s ∧
    ¬ Within (samples .wifi) (s.conn .wifi).ewmaBytesPerSecond := by
  have hs : record (fun _ => []) (wifiSession 1) (wifiMeasured 1) .wifi = [10] := by decide +kernel
  have he : ((wifiMeasured 1).conn .wifi).ewmaBytesPerSecond = 5 := by decide +kernel
  refine ⟨_, _, goodputCalls_wifiMeasured 1 (by decide +kernel) trivial, ?_⟩
  rw [hs, he, within_singleton_iff]
  decide

end GreenBag
