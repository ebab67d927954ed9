import GreenBag.Buffers
import GreenBag.Urls

/-! `http_encode` and `http_decode`: a string is rewritten in place by way of a work buffer. -/

namespace GreenBag

open Programs Buffers

/-- The buffer of the string, and the work buffer. -/
inductive EscapeBuffer
  | s
  | t
  deriving DecidableEq

abbrev EscapeProgram := BufferProgram EscapeBuffer

/-- End the work buffer and copy its string back. -/
def copyBack (j : ℕ) : EscapeProgram Unit := do
  store .t j 0
  let t ← fetchString .t 0
  strcpy .s 0 t

structure EncodeVars where
  i : ℕ
  j : ℕ

/-- A round of the loop of `http_encode`, which ends with its `j`. -/
def encodeChar (v : EncodeVars) : EscapeProgram (EncodeVars ⊕ ℕ) := do
  let c ← fetchChar .s v.i
  if c = 0 then return .inr v.j
  else if v.j ≥ maxString - 1 then return .inr v.j
  else
    store .t v.j c
    if c = 32 then
      if v.j ≥ maxString - 3 then return .inr v.j
      else
        strcpy .t v.j [37, 50, 48]
        return .inl ⟨v.i + 1, v.j + 3⟩
    else return .inl ⟨v.i + 1, v.j + 1⟩

def httpEncodeInPlace (rounds : ℕ) : EscapeProgram Unit := do
  let j ← loop .endless encodeChar rounds ⟨0, 0⟩
  copyBack j

/-- The value that `%x` finds. -/
def scanHex : List UInt8 → Option ℕ
  | 48 :: 120 :: bs => scanDigits 16 none bs
  | 48 :: 88 :: bs => scanDigits 16 none bs
  | bs => scanDigits 16 none bs

/-- The conversion `%2x`. Nothing at the end of the text; no value where there is no number. -/
def scanHex2 (text : List UInt8) : Option (Option ℤ) :=
  match (text.dropWhile isSpace).take 2 with
  | [] => none
  | 45 :: ds => some ((scanHex ds).map fun n : ℕ => -(n : ℤ))
  | 43 :: ds => some ((scanHex ds).map Nat.cast)
  | ds => some ((scanHex ds).map Nat.cast)

structure DecodeVars where
  i : ℕ
  j : ℕ
  k : ℤ

/-- A round of the loop of `http_decode`. -/
def decodeChar (v : DecodeVars) : EscapeProgram (DecodeVars ⊕ ℕ) := do
  let c ← fetchChar .s v.i
  if c = 0 then return .inr v.j
  else
    store .t v.j c
    if c = 37 then
      let rest ← fetchString .s (v.i + 1)
      if scanHex2 rest = some none then return .inl ⟨v.i + 1, v.j + 1, v.k⟩
      else
        let k := (scanHex2 rest).join.getD v.k
        store .t v.j (UInt8.ofInt k)
        return .inl ⟨v.i + 3, v.j + 1, k⟩
    else return .inl ⟨v.i + 1, v.j + 1, v.k⟩

/-- `k` is what is in the variable of that name at first. -/
def httpDecode (k : ℤ) (rounds : ℕ) : EscapeProgram Unit := do
  let j ← loop .endless decodeChar rounds ⟨0, 0, k⟩
  copyBack j

/-- The byte that the two hexadecimal digits at the front of a text denote. -/
def escaped : List UInt8 → Option UInt8
  | x :: y :: _ => (digitValue x).bind fun a => (digitValue y).map fun b => UInt8.ofNat (16 * a + b)
  | _ => none

/-- Each `%` and two hexadecimal digits is the byte they denote. -/
def percentDecode : List UInt8 → List UInt8
  | [] => []
  | b :: rest =>
    match rest with
    | x :: y :: more =>
      match escaped (x :: y :: more) with
      | some c => if b = 37 then c :: percentDecode more else b :: percentDecode (x :: y :: more)
      | none => b :: percentDecode (x :: y :: more)
    | [x] => [b, x]
    | [] => [b]

/-- What the loop of `http_decode` puts in the work buffer, unless it reads behind the string. -/
def decodeFrom (k : ℤ) : List UInt8 → Option (List UInt8)
  | [] => some []
  | b :: rest =>
    if b = 37 ∧ scanHex2 rest ≠ some none then
      let k := (scanHex2 rest).join.getD k
      match rest with
      | _ :: _ :: more => (decodeFrom k more).map (UInt8.ofInt k :: ·)
      | _ => none
    else (decodeFrom k rest).map (b :: ·)

/-- Behind each `%` are two hexadecimal digits that denote no NUL, or `sscanf` finds that there is no
number. -/
def Exact (value : List UInt8) : Prop :=
  ∀ rest, 37 :: rest <:+ value → (escaped rest).elim (scanHex2 rest = some none) (· ≠ 0)

section

variable {value rest text s out : List UInt8} {b c : UInt8} {k v : ℤ} {m : Memory EscapeBuffer} {j n rounds : ℕ}

lemma of_digitValue {d : ℕ} (h : digitValue b = some d) :
    d < 16 ∧ (b.toNat = d + 48 ∧ d ≤ 9 ∨ b.toNat = d + 87 ∧ 10 ≤ d ∨ b.toNat = d + 55 ∧ 10 ≤ d) := by
  unfold digitValue at h
  split_ifs at h with h₁ h₂ h₃ <;> cases h
  · simp only [UInt8.le_iff_toNat_le, UInt8.reduceToNat] at h₁
    omega
  · simp only [UInt8.le_iff_toNat_le, UInt8.reduceToNat] at h₂
    omega
  · simp only [UInt8.le_iff_toNat_le, UInt8.reduceToNat] at h₃
    omega

lemma digitValue_lt {d : ℕ} (h : digitValue b = some d) : d < 16 := (of_digitValue h).1

lemma isSpace_of_digitValue {d : ℕ} (h : digitValue b = some d) : isSpace b = false := by
  have hd := of_digitValue h
  have h32 : b ≠ 32 := fun he => by
    rw [he] at hd
    simp at hd
  have h13 : ¬ b ≤ 13 := fun hle => by
    simp only [UInt8.le_iff_toNat_le, UInt8.reduceToNat] at hle
    omega
  simp [isSpace, h32, h13]

lemma percentDecode_cons_of_ne (hb : b ≠ 37) : percentDecode (b :: rest) = b :: percentDecode rest := by
  match rest with
  | [] => rfl
  | [x] => rfl
  | x :: y :: more =>
    rw [percentDecode]
    cases escaped (x :: y :: more) <;> simp [hb]

lemma percentDecode_kept (h : escaped rest = none) :
    percentDecode (37 :: rest) = 37 :: percentDecode rest := by
  match rest with
  | [] => rfl
  | [x] => rfl
  | x :: y :: more => rw [percentDecode, h]

lemma percentDecode_escaped (h : escaped rest = some c) :
    percentDecode (37 :: rest) = c :: percentDecode (rest.drop 2) := by
  match rest with
  | [] => cases h
  | [x] => cases h
  | x :: y :: more =>
    rw [percentDecode, h]
    rfl

lemma decodeFrom_cons_of_ne (hb : b ≠ 37) :
    decodeFrom k (b :: rest) = (decodeFrom k rest).map (b :: ·) := by
  rw [decodeFrom, if_neg fun h => hb h.1]

lemma decodeFrom_kept (h : scanHex2 rest = some none) :
    decodeFrom k (37 :: rest) = (decodeFrom k rest).map (37 :: ·) := by
  rw [decodeFrom, if_neg fun hn => hn.2 h]

lemma decodeFrom_behind (h : scanHex2 rest ≠ some none) (hr : rest.length < 2) :
    decodeFrom k (37 :: rest) = none := by
  rw [decodeFrom, if_pos ⟨rfl, h⟩]
  match rest, hr with
  | [], _ => rfl
  | [x], _ => rfl

lemma decodeFrom_taken (h : scanHex2 rest ≠ some none) (hr : 2 ≤ rest.length) :
    decodeFrom k (37 :: rest) = (decodeFrom ((scanHex2 rest).join.getD k) (rest.drop 2)).map
      (UInt8.ofInt ((scanHex2 rest).join.getD k) :: ·) := by
  rw [decodeFrom, if_pos ⟨rfl, h⟩]
  match rest, hr with
  | x :: y :: more, _ => rfl

lemma scanHex_one : scanHex [b] = digitValue b := by
  cases hd : digitValue b <;> simp [scanHex, scanDigits, hd]
  exact digitValue_lt hd

lemma scanHex_two (hx : ¬ (b = 48 ∧ (c = 120 ∨ c = 88))) : scanHex [b, c] =
    (digitValue b).map fun x => (digitValue c).elim x fun y => 16 * x + y := by
  have hscan : scanHex [b, c] = scanDigits 16 none [b, c] := by
    unfold scanHex
    split
    · simp_all
    · simp_all
    · rfl
  rw [hscan]
  cases hb : digitValue b with
  | none => simp [scanDigits, hb]
  | some x =>
    have hx := digitValue_lt hb
    cases hc : digitValue c with
    | none => simp [scanDigits, hb, hc, hx]
    | some y =>
      have hy := digitValue_lt hc
      simp [scanDigits, hb, hc, hx, hy, Nat.mul_comm]

lemma ofInt_natCast (n : ℕ) : UInt8.ofInt n = UInt8.ofNat n := by
  apply UInt8.toNat_inj.mp
  simp only [UInt8.ofInt, UInt8.toNat_ofNat']
  omega

lemma scanHex2_nil (h : rest.dropWhile isSpace = []) : scanHex2 rest = none := by
  rw [scanHex2, h]
  rfl

lemma scanHex2_cons (h : rest.dropWhile isSpace = b :: out) : scanHex2 rest = some
    (if b = 45 then (scanHex (out.take 1)).map fun n : ℕ => -(n : ℤ)
    else if b = 43 then (scanHex (out.take 1)).map Nat.cast
    else (scanHex (b :: out.take 1)).map Nat.cast) := by
  rw [scanHex2, h, List.take_succ_cons]
  split
  · simp_all
  · simp_all
  · simp_all
  · simp_all

lemma scanHex2_escaped (h : escaped rest = some c) :
    ∃ v, scanHex2 rest = some (some v) ∧ UInt8.ofInt v = c := by
  match rest with
  | [] => cases h
  | [x] => cases h
  | x :: y :: more =>
    rw [escaped, Option.bind_eq_some_iff] at h
    obtain ⟨a, ha, h⟩ := h
    obtain ⟨b, hb, rfl⟩ := Option.map_eq_some_iff.mp h
    have hx : x ≠ 45 ∧ x ≠ 43 := by
      constructor <;> rintro rfl <;> cases ha
    have hy : ¬ (x = 48 ∧ (y = 120 ∨ y = 88)) := by
      rintro ⟨-, rfl | rfl⟩ <;> cases hb
    have hdrop : (x :: y :: more).dropWhile isSpace = x :: y :: more := by
      rw [List.dropWhile_cons_of_neg]
      simp [isSpace_of_digitValue ha]
    refine ⟨((16 * a + b : ℕ) : ℤ), ?_, ofInt_natCast _⟩
    rw [scanHex2_cons hdrop, if_neg hx.1, if_neg hx.2, List.take_succ_cons, List.take_zero,
      scanHex_two hy, ha, hb]
    rfl

/-- A scan that gives the byte of `%` and does not start with the digits themselves found them behind
blanks. -/
lemma blanks_of_scanHex2 (h : scanHex2 rest = some (some v)) (hv : UInt8.ofInt v = 37)
    (hrest : escaped rest = none) : ∃ blanks more, rest = blanks ++ 50 :: 53 :: more ∧ blanks ≠ [] ∧
      ∀ b ∈ blanks, isSpace b = true := by
  obtain ⟨blanks, item, rfl, hblanks, hitem⟩ := Cuts.exists_span isSpace rest
  have hdrop := Cuts.dropWhile_span hblanks hitem
  have hsmall : ∀ d < 16, UInt8.ofInt (d : ℕ) ≠ 37 ∧ UInt8.ofInt (-(d : ℕ)) ≠ 37 := by decide
  cases item with
  | nil =>
    rw [scanHex2_nil hdrop] at h
    cases h
  | cons x more =>
    rw [scanHex2_cons hdrop, Option.some.injEq] at h
    by_cases hsign : x = 45 ∨ x = 43
    · -- one digit behind a sign is too small, or too large
      have hdigit : ∃ d < 16, v = (d : ℕ) ∨ v = -(d : ℕ) := by
        have hscan : ∀ n, scanHex (more.take 1) = some n → n < 16 := fun n hn => by
          cases more with
          | nil => cases hn
          | cons y more =>
            rw [List.take_succ_cons, List.take_zero, scanHex_one] at hn
            exact digitValue_lt hn
        rcases hsign with rfl | rfl
        · obtain ⟨n, hn, rfl⟩ := Option.map_eq_some_iff.mp h
          exact ⟨n, hscan n hn, .inr rfl⟩
        · obtain ⟨n, hn, rfl⟩ := Option.map_eq_some_iff.mp h
          exact ⟨n, hscan n hn, .inl rfl⟩
      obtain ⟨d, hd, rfl | rfl⟩ := hdigit
      · exact absurd hv (hsmall d hd).1
      · exact absurd hv (hsmall d hd).2
    · rw [not_or] at hsign
      rw [if_neg hsign.1, if_neg hsign.2] at h
      obtain ⟨n, hn, rfl⟩ := Option.map_eq_some_iff.mp h
      cases more with
      | nil =>
        rw [List.take_nil, scanHex_one] at hn
        exact absurd hv (hsmall n (digitValue_lt hn)).1
      | cons y more =>
        rw [List.take_succ_cons, List.take_zero] at hn
        have hprefix : ¬ (x = 48 ∧ (y = 120 ∨ y = 88)) := by
          rintro ⟨rfl, rfl | rfl⟩ <;> cases hn
        rw [scanHex_two hprefix] at hn
        obtain ⟨a, ha, hn⟩ := Option.map_eq_some_iff.mp hn
        cases hb : digitValue y with
        | none =>
          rw [hb] at hn
          subst hn
          exact absurd hv (hsmall a (digitValue_lt ha)).1
        | some b =>
          rw [hb] at hn
          subst hn
          have hx := of_digitValue ha
          have hy := of_digitValue hb
          have h37 : 16 * a + b = 37 := by
            rw [Option.elim_some, ofInt_natCast] at hv
            have := congrArg UInt8.toNat hv
            simp only [UInt8.toNat_ofNat', UInt8.reduceToNat] at this
            omega
          have hx50 : x = 50 := UInt8.toNat_inj.mp (by simp; omega)
          have hy53 : y = 53 := UInt8.toNat_inj.mp (by simp; omega)
          subst hx50 hy53
          refine ⟨blanks, more, rfl, ?_, hblanks⟩
          rintro rfl
          cases hrest

lemma exact_cons_of_ne (hb : b ≠ 37) : Exact (b :: rest) ↔ Exact rest := by
  refine ⟨fun h r hr => h r (hr.trans (List.suffix_cons b rest)), fun h r hr => ?_⟩
  rcases List.suffix_cons_iff.mp hr with he | hr
  · cases he
    exact absurd rfl hb
  · exact h r hr

lemma exact_percent :
    Exact (37 :: rest) ↔ (escaped rest).elim (scanHex2 rest = some none) (· ≠ 0) ∧ Exact rest := by
  refine ⟨fun h => ⟨h rest (List.suffix_refl _), fun r hr => h r (hr.trans (List.suffix_cons 37 rest))⟩,
    fun h r hr => ?_⟩
  rcases List.suffix_cons_iff.mp hr with he | hr
  · cases he
    exact h.1
  · exact h.2 r hr

/-- Hexadecimal digits are no `%`. -/
lemma exact_drop (h : escaped rest = some c) : Exact rest ↔ Exact (rest.drop 2) := by
  match rest with
  | [] => cases h
  | [x] => cases h
  | x :: y :: more =>
    have hx : x ≠ 37 := by
      rintro rfl
      cases h
    have hy : y ≠ 37 := by
      rintro rfl
      obtain ⟨a, -, h⟩ := Option.bind_eq_some_iff.mp h
      cases h
    rw [exact_cons_of_ne hx, exact_cons_of_ne hy]
    rfl

lemma two_le_of_escaped (h : escaped rest = some c) : 2 ≤ rest.length := by
  match rest with
  | [] => cases h
  | [x] => cases h
  | x :: y :: more => simp

lemma decodeFrom_escaped (h : escaped rest = some c) : ∃ v : ℤ, decodeFrom k (37 :: rest) =
    (decodeFrom v (rest.drop 2)).map (c :: ·) := by
  obtain ⟨v, hv, rfl⟩ := scanHex2_escaped h
  refine ⟨v, ?_⟩
  rw [decodeFrom_taken (by simp [hv]) (two_le_of_escaped h), hv]
  rfl

lemma decodeFrom_of_exact (h0 : 0 ∉ value) (h : Exact value) :
    decodeFrom k value = some (percentDecode value) ∧ 0 ∉ percentDecode value := by
  induction hn : value.length using Nat.strong_induction_on generalizing value k with
  | h n ih =>
    cases value with
    | nil => exact ⟨rfl, by simp [percentDecode]⟩
    | cons b rest =>
      rw [List.length_cons] at hn
      rw [List.mem_cons, not_or] at h0
      by_cases hb : b = 37
      · subst hb
        obtain ⟨hfirst, hrest⟩ := exact_percent.mp h
        cases he : escaped rest with
        | none =>
          rw [he] at hfirst
          obtain ⟨hdec, hnul⟩ := ih rest.length (by omega) h0.2 hrest rfl (k := k)
          rw [decodeFrom_kept hfirst, percentDecode_kept he, hdec]
          exact ⟨rfl, by simpa using hnul⟩
        | some c =>
          rw [he] at hfirst
          obtain ⟨v, hv⟩ := decodeFrom_escaped he (k := k)
          have hmem : 0 ∉ rest.drop 2 := fun hm => h0.2 (List.mem_of_mem_drop hm)
          have hlen : (rest.drop 2).length < n := by
            rw [List.length_drop]
            omega
          obtain ⟨hdec, hnul⟩ := ih _ hlen hmem ((exact_drop he).mp hrest) rfl (k := v)
          rw [hv, percentDecode_escaped he, hdec]
          exact ⟨rfl, by simpa using ⟨Ne.symm hfirst, hnul⟩⟩
      · obtain ⟨hdec, hnul⟩ := ih rest.length (by omega) h0.2 ((exact_cons_of_ne hb).mp h) rfl (k := k)
        rw [decodeFrom_cons_of_ne hb, percentDecode_cons_of_ne hb, hdec]
        exact ⟨rfl, by simpa using ⟨h0.1, hnul⟩⟩

lemma percentDecode_append (hs : 37 ∉ s) : percentDecode (s ++ rest) = s ++ percentDecode rest := by
  induction s with
  | nil => rfl
  | cons b s ih =>
    rw [List.mem_cons, not_or] at hs
    rw [List.cons_append, percentDecode_cons_of_ne (Ne.symm hs.1), ih hs.2, List.cons_append]

lemma decodeFrom_append (hs : 37 ∉ s) :
    decodeFrom k (s ++ rest) = (decodeFrom k rest).map (s ++ ·) := by
  induction s with
  | nil => simp
  | cons b s ih =>
    rw [List.mem_cons, not_or] at hs
    rw [List.cons_append, decodeFrom_cons_of_ne (Ne.symm hs.1), ih hs.2, Option.map_map]
    rfl

lemma not_mem_of_blank (hs : ∀ b ∈ s, isSpace b = true) (hc : isSpace c = false) : c ∉ s :=
  fun hm => by simp [hs c hm] at hc

/-- Where `sscanf` takes for a number what are not two hexadecimal digits, the output is another. -/
lemma decodeFrom_misread (h0 : 0 ∉ rest) (he : escaped rest = none) (hscan : scanHex2 rest ≠ some none)
    (h : decodeFrom k (37 :: rest) = some out) :
    out.takeWhile (· ≠ 0) ≠ percentDecode (37 :: rest) := by
  by_cases hlen : rest.length < 2
  · rw [decodeFrom_behind hscan hlen] at h
    cases h
  rw [decodeFrom_taken hscan (by omega), Option.map_eq_some_iff] at h
  obtain ⟨more, hmore, rfl⟩ := h
  rw [percentDecode_kept he]
  intro heq
  have hbyte : UInt8.ofInt ((scanHex2 rest).join.getD k) = 37 := by
    by_contra hne
    by_cases hz : UInt8.ofInt ((scanHex2 rest).join.getD k) = 0
    · rw [List.takeWhile_cons_of_neg (by simp [hz])] at heq
      cases heq
    · rw [List.takeWhile_cons_of_pos (by simp [hz]), List.cons.injEq] at heq
      exact hne heq.1
  rw [hbyte, List.takeWhile_cons_of_pos (by decide), List.cons.injEq] at heq
  have htail := heq.2
  cases hs : scanHex2 rest with
  | none =>
    have hblanks : ∀ b ∈ rest, isSpace b = true := by
      cases hd : rest.dropWhile isSpace with
      | nil => exact List.dropWhile_eq_nil_iff.mp hd
      | cons b item =>
        rw [scanHex2_cons hd] at hs
        cases hs
    have hdec : percentDecode (rest ++ []) = rest ++ percentDecode [] :=
      percentDecode_append (not_mem_of_blank hblanks rfl)
    have hdec' : decodeFrom ((scanHex2 rest).join.getD k) (rest.drop 2 ++ []) =
        (decodeFrom ((scanHex2 rest).join.getD k) []).map (rest.drop 2 ++ ·) :=
      decodeFrom_append (not_mem_of_blank (fun b hb => hblanks b (List.mem_of_mem_drop hb)) rfl)
    rw [List.append_nil, percentDecode, List.append_nil] at hdec
    rw [List.append_nil, hmore, decodeFrom, Option.map_some, List.append_nil, Option.some.injEq] at hdec'
    have hlt := congrArg List.length htail
    have hle := (List.takeWhile_sublist (· ≠ 0) (l := more)).length_le
    rw [hdec] at hlt
    rw [hdec', List.length_drop] at hle
    rw [hdec'] at hlt
    omega
  | some o =>
    cases o with
    | none => exact hscan hs
    | some v =>
      rw [hs] at hbyte
      obtain ⟨blanks, tail, rfl, hne, hblanks⟩ := blanks_of_scanHex2 hs hbyte he
      rw [percentDecode_append (not_mem_of_blank hblanks rfl), percentDecode_cons_of_ne (by decide)]
        at htail
      obtain ⟨b, bs, rfl⟩ := List.exists_cons_of_ne_nil hne
      cases bs with
      | nil =>
        rw [List.singleton_append, List.drop_succ_cons, List.drop_succ_cons, List.drop_zero,
          decodeFrom_cons_of_ne (by decide), Option.map_eq_some_iff] at hmore
        obtain ⟨more, -, rfl⟩ := hmore
        rw [List.takeWhile_cons_of_pos (by decide), List.singleton_append, List.cons.injEq] at htail
        have hb := hblanks b (by simp)
        rw [← htail.1] at hb
        cases hb
      | cons b' bs =>
        have hbs : ∀ c ∈ bs, isSpace c = true := fun c hc => hblanks c (by simp [hc])
        rw [List.cons_append, List.cons_append, List.drop_succ_cons, List.drop_succ_cons, List.drop_zero,
          decodeFrom_append (not_mem_of_blank hbs rfl), decodeFrom_cons_of_ne (by decide),
          Option.map_map, Option.map_eq_some_iff] at hmore
        obtain ⟨more, -, rfl⟩ := hmore
        have hkept : (bs ++ 50 :: more).takeWhile (· ≠ 0) = bs ++ 50 :: more.takeWhile (· ≠ 0) := by
          rw [List.takeWhile_append_of_pos, List.takeWhile_cons_of_pos (by decide)]
          intro c hc
          have hc0 : c ≠ 0 := fun h => h0 (by simp [← h, hc])
          simpa using hc0
        have hcut := congrArg (Cuts.first 50) (hkept.symm.trans htail)
        rw [Cuts.first_append (not_mem_of_blank hbs rfl), Cuts.first_append (not_mem_of_blank hblanks rfl)]
          at hcut
        have hlen := congrArg (fun o => o.elim 0 fun c => c.1.length) hcut
        simp only [Option.elim_some, List.length_cons] at hlen
        omega

lemma exact_of_decodeFrom (h0 : 0 ∉ value) (h : decodeFrom k value = some out)
    (hout : out.takeWhile (· ≠ 0) = percentDecode value) : Exact value := by
  induction hn : value.length using Nat.strong_induction_on generalizing value out k with
  | h n ih =>
    cases value with
    | nil => exact fun r hr => by simp at hr
    | cons b rest =>
      rw [List.length_cons] at hn
      rw [List.mem_cons, not_or] at h0
      by_cases hb : b = 37
      · subst hb
        rw [exact_percent]
        cases he : escaped rest with
        | none =>
          by_cases hscan : scanHex2 rest = some none
          · rw [decodeFrom_kept hscan, Option.map_eq_some_iff] at h
            obtain ⟨out, h, rfl⟩ := h
            rw [percentDecode_kept he, List.takeWhile_cons_of_pos (by decide), List.cons.injEq] at hout
            exact ⟨hscan, ih rest.length (by omega) h0.2 h hout.2 rfl⟩
          · exact absurd hout (decodeFrom_misread h0.2 he hscan h)
        | some c =>
          obtain ⟨v, hv⟩ := decodeFrom_escaped he (k := k)
          rw [hv, Option.map_eq_some_iff] at h
          obtain ⟨out, h, rfl⟩ := h
          rw [percentDecode_escaped he] at hout
          have hc : c ≠ 0 := by
            rintro rfl
            rw [List.takeWhile_cons_of_neg (by decide)] at hout
            cases hout
          rw [List.takeWhile_cons_of_pos (by simpa using hc), List.cons.injEq] at hout
          have hmem : 0 ∉ rest.drop 2 := fun hm => h0.2 (List.mem_of_mem_drop hm)
          have hlen : (rest.drop 2).length < n := by
            rw [List.length_drop]
            omega
          exact ⟨hc, (exact_drop he).mpr (ih _ hlen hmem h hout.2 rfl)⟩
      · rw [decodeFrom_cons_of_ne hb, Option.map_eq_some_iff] at h
        obtain ⟨out, h, rfl⟩ := h
        rw [percentDecode_cons_of_ne hb, List.takeWhile_cons_of_pos (by simpa using Ne.symm h0.1),
          List.cons.injEq] at hout
        exact (exact_cons_of_ne hb).mpr (ih rest.length (by omega) h0.2 h hout.2 rfl)

/-- Both buffers are as long as the string buffers of the source. -/
abbrev FullSize (m : Memory EscapeBuffer) : Prop := Shaped (fun _ => maxString) m

lemma FullSize.length (hm : FullSize m) (x : EscapeBuffer) : (m x).length = maxString := hm x

lemma wp_copyBack {crash : BufferFault → Memory EscapeBuffer → Prop} (hm : FullSize m) (hj : j < maxString) :
    wp (copyBack j) (fun _ m' => FullSize m' ∧ Holds (m' .s) (((m .t).take j).takeWhile (· ≠ 0))) crash
      m := by
  have hjt : j < (m .t).length := by rwa [hm.length .t]
  have hset : FullSize (Function.update m .t ((m .t).set j 0)) := hm.update (by rw [List.length_set])
  have hheld := holds_set (l := m .t) rfl hjt
  have hlen : (((m .t).take j).takeWhile (· ≠ 0)).length < maxString := by
    have hle := (List.takeWhile_sublist (· ≠ 0) (l := (m .t).take j)).length_le
    have htake := List.length_take_le j (m .t)
    omega
  have hfetch : Holds ((Function.update m .t ((m .t).set j 0)) .t)
      ([] ++ ((m .t).take j).takeWhile (· ≠ 0)) := by
    rw [Function.update_self, List.nil_append]
    exact hheld
  have hs : (((m .t).take j).takeWhile (· ≠ 0)).length < (Function.update m .t ((m .t).set j 0) .s).length := by
    rw [hset.length .s]
    exact hlen
  rw [copyBack, wp_bind, wp_store hjt, wp_bind]
  apply (wp_fetchString hfetch).mpr
  rw [wp_strcpy (by rwa [zero_add])]
  refine ⟨hset.update length_overwrite, ?_⟩
  rw [Function.update_self]
  exact holds_overwrite hheld.1 hs

/-- The loop of `http_decode` has so many characters to come, or it has left the string. -/
structure Decoding (k : ℤ) (value : List UInt8) (n : ℕ) (v : DecodeVars) (m : Memory EscapeBuffer) : Prop where
  sized : FullSize m
  held : Holds (m .s) value
  place : (∃ pre rest, value = pre ++ rest ∧ v.i = pre.length ∧ n = rest.length ∧ v.j ≤ v.i ∧
      decodeFrom k value = (decodeFrom v.k rest).map ((m .t).take v.j ++ ·)) ∨
    (value.length < v.i ∧ n = 0 ∧ decodeFrom k value = none)

/-- The loop has ended with so many bytes in the work buffer. -/
structure Decoded (k : ℤ) (value : List UInt8) (j : ℕ) (m : Memory EscapeBuffer) : Prop where
  sized : FullSize m
  held : Holds (m .s) value
  room : j < maxString
  out : decodeFrom k value = some ((m .t).take j)

lemma Decoding.next {pre : List UInt8} {m' : Memory EscapeBuffer} {v : DecodeVars} {k' : ℤ}
    (used : List UInt8) (hm : FullSize m')
    (hs : Holds (m' .s) (pre ++ (used ++ rest))) (hi : v.i = pre.length) (hj : v.j ≤ v.i) (hused : used ≠ [])
    (ht : (m' .t).take (v.j + 1) = (m .t).take v.j ++ [b])
    (hdec : decodeFrom k (pre ++ (used ++ rest)) =
      (decodeFrom v.k (used ++ rest)).map ((m .t).take v.j ++ ·))
    (hb : decodeFrom v.k (used ++ rest) = (decodeFrom k' rest).map (b :: ·)) :
    ∃ n < (used ++ rest).length, Decoding k (pre ++ (used ++ rest)) n
      ⟨v.i + used.length, v.j + 1, k'⟩ m' := by
  have hpos := List.length_pos_iff.mpr hused
  refine ⟨rest.length, ?_, hm, hs, .inl ⟨pre ++ used, rest, by simp, ?_, rfl, ?_, ?_⟩⟩
  · rw [List.length_append]
    omega
  · rw [List.length_append, hi]
  · show v.j + 1 ≤ v.i + used.length
    omega
  · rw [hdec, hb, Option.map_map, ht]
    congr 1
    funext l
    simp

lemma Decoding.wp_decodeChar {v : DecodeVars} (h : Decoding k value n v m) :
    wp (decodeChar v) (Programs.Round (Decoding k value) (Decoded k value) n)
      (fun _ _ => decodeFrom k value = none) m := by
  obtain ⟨hm, hs, ⟨pre, rest, rfl, hi, rfl, hj, hdec⟩ | ⟨hi, rfl, hdec⟩⟩ := h
  · have hlt := hs.length_lt
    rw [hm.length .s, List.length_append] at hlt
    have hjt : v.j < (m .t).length := by
      rw [hm.length .t]
      omega
    rw [decodeChar, wp_bind, hi]
    apply (wp_fetchChar hs).mpr
    rw [wp_ite]
    cases rest with
    | nil =>
      refine ⟨fun _ => ⟨hm, hs, by omega, ?_⟩, fun hn => absurd rfl hn⟩
      rw [hdec, decodeFrom, Option.map_some, List.append_nil]
    | cons c rest =>
      have hc : c ≠ 0 := fun h => hs.1 (by simp [← h])
      have hwrite : ∀ b, FullSize (Function.update m .t ((m .t).set v.j b)) ∧
          ((Function.update m .t ((m .t).set v.j b)) .t).take (v.j + 1) = (m .t).take v.j ++ [b] :=
        fun b => ⟨hm.update (by rw [List.length_set]), by rw [Function.update_self, take_set_succ hjt]⟩
      refine ⟨fun hn => absurd hn hc, fun _ => ?_⟩
      rw [wp_bind, wp_store hjt, wp_ite, ← hi]
      refine ⟨?_, fun hn => ?_⟩
      · rintro rfl
        have hfetch : Holds (Function.update m .t ((m .t).set v.j 37) .s) (pre ++ [37] ++ rest) := by
          simpa using hs
        have hi' : v.i + 1 = (pre ++ [37]).length := by simp [hi]
        rw [wp_bind, hi']
        apply (wp_fetchString hfetch).mpr
        rw [wp_ite, ← hi']
        refine ⟨fun hscan => ?_, fun hscan => ?_⟩
        · exact Decoding.next [37] (hwrite 37).1 hs hi hj (by simp) (hwrite 37).2 hdec
            (decodeFrom_kept hscan)
        · rw [wp_bind, wp_store (by rwa [(hwrite 37).1.length .t, ← hm.length .t]), wp_pure, Function.update_self,
            Function.update_idem, List.set_set]
          by_cases hlen : rest.length < 2
          · refine ⟨0, by simp, (hwrite _).1, hs, .inr ⟨?_, rfl, ?_⟩⟩
            · show (pre ++ 37 :: rest).length < v.i + 3
              rw [List.length_append, List.length_cons, hi]
              omega
            · rw [hdec, decodeFrom_behind hscan hlen, Option.map_none]
          · obtain ⟨x, y, more, rfl⟩ : ∃ x y more, rest = x :: y :: more := by
              rcases rest with _ | ⟨x, _ | ⟨y, more⟩⟩
              · simp at hlen
              · simp at hlen
              · exact ⟨x, y, more, rfl⟩
            exact Decoding.next [37, x, y] (hwrite _).1 hs hi hj (by simp) (hwrite _).2 hdec
              (decodeFrom_taken hscan (by simp))
      · exact Decoding.next [c] (hwrite c).1 hs hi hj (by simp) (hwrite c).2 hdec
          (decodeFrom_cons_of_ne hn)
  · rw [decodeChar, wp_bind]
    exact (wp_fetchChar_behind hs hi).mpr hdec

/-- The program leaves what the functional version of its loop does, and it reads behind the string where
there is nothing of that. -/
lemma wp_httpDecode (hm : FullSize m) (hs : Holds (m .s) value) (hr : value.length < rounds) :
    wp (httpDecode k rounds) (fun _ m' => FullSize m' ∧ ∃ out, decodeFrom k value = some out ∧
      Holds (m' .s) (out.takeWhile (· ≠ 0))) (fun _ _ => decodeFrom k value = none) m := by
  rw [httpDecode, wp_bind]
  apply wp_mono (wp_loop (Decoding k value) (fun n v m h => h.wp_decodeChar) _ hr) _ fun _ _ h => h
  · exact ⟨hm, hs, .inl ⟨[], value, rfl, rfl, rfl, le_rfl, by simp⟩⟩
  · intro j m' hd
    apply wp_mono (wp_copyBack hd.sized hd.room) _ fun _ _ hf => hf
    exact fun _ m'' h => ⟨h.1, _, hd.out, h.2⟩

lemma takeWhile_of_not_mem (h : 0 ∉ s) : s.takeWhile (· ≠ 0) = s := by
  rw [List.takeWhile_eq_self_iff]
  exact fun c hc => by simpa using ne_of_mem_of_not_mem hc h

lemma httpDecode_of_exact (hm : FullSize m) (hs : Holds (m .s) value) (hr : value.length < rounds)
    (h : Exact value) :
    ∃ m', httpDecode k rounds m = .ok () m' ∧ Holds (m' .s) (percentDecode value) := by
  obtain ⟨hdec, hnul⟩ := decodeFrom_of_exact (k := k) hs.1 h
  have hrun : wp (httpDecode k rounds) (fun _ m' => Holds (m' .s) (percentDecode value))
      (fun _ _ => False) m := by
    apply wp_mono (wp_httpDecode hm hs hr)
    · rintro - m' ⟨-, out, hout, hheld⟩
      rw [hdec, Option.some.injEq] at hout
      rwa [← hout, takeWhile_of_not_mem hnul] at hheld
    · intro _ _ hn
      rw [hdec] at hn
      cases hn
  obtain ⟨⟨⟩, m', hok, hheld⟩ := exists_of_wp hrun
  exact ⟨m', hok, hheld⟩

end

/-- Two buffers of which one holds a text. -/
def escapeBuffers (text : List UInt8) : Memory EscapeBuffer
  | .s => text ++ List.replicate (maxString - text.length) 0
  | .t => List.replicate maxString 0

lemma fullSize_escapeBuffers {text : List UInt8} (h : text.length ≤ maxString) : FullSize (escapeBuffers text) := by
  rintro (_ | _)
  · show (text ++ List.replicate (maxString - text.length) 0).length = maxString
    rw [List.length_append, List.length_replicate]
    omega
  · exact List.length_replicate

lemma holds_escapeBuffers {text : List UInt8} (h0 : 0 ∉ text) (h : text.length < maxString) :
    Holds (escapeBuffers text .s) text := by
  refine ⟨h0, List.replicate (maxString - text.length - 1) 0, ?_⟩
  rw [escapeBuffers, List.append_assoc, List.singleton_append, ← List.replicate_succ]
  congr 2
  omega

section

variable {value rest text s out : List UInt8} {b c : UInt8} {k v : ℤ} {m : Memory EscapeBuffer} {j n rounds : ℕ}

/-- The decoding ends without a read behind the string and leaves the decoded string, just where the
`%` are all as they should be. -/
theorem httpDecode_exact_iff (hm : FullSize m) (hs : Holds (m .s) value) (hr : value.length < rounds) :
    (∃ m', httpDecode k rounds m = .ok () m' ∧ Holds (m' .s) (percentDecode value)) ↔ Exact value := by
  refine ⟨?_, httpDecode_of_exact hm hs hr⟩
  rintro ⟨m', hok, hheld⟩
  obtain ⟨-, out, hout, hheld'⟩ := ((wp_iff _).mp (wp_httpDecode (k := k) hm hs hr)).1 () m' hok
  exact exact_of_decodeFrom hs.1 hout (hheld'.unique hheld)

lemma buffers_of_text (text : List UInt8) (h0 : 0 ∉ text) (h : text.length < maxString) :
    FullSize (escapeBuffers text) ∧ Holds (escapeBuffers text .s) text :=
  ⟨fullSize_escapeBuffers h.le, holds_escapeBuffers h0 h⟩

theorem httpDecode_exact_iff_of_space : (∃ m', httpDecode 7 maxString
    (escapeBuffers [97, 37, 50, 48, 98]) = .ok () m' ∧ Holds (m' .s) (percentDecode [97, 37, 50, 48, 98])) ↔
      Exact [97, 37, 50, 48, 98] := by
  obtain ⟨hm, hs⟩ := buffers_of_text [97, 37, 50, 48, 98] (by decide) (by decide)
  exact httpDecode_exact_iff hm hs (by decide)

/-- A text that ends with `%`. -/
theorem percent_at_end_runs_over : ¬ ∃ m', httpDecode 0 maxString (escapeBuffers [97, 37]) = .ok () m' ∧
    Holds (m' .s) (percentDecode [97, 37]) := by
  rintro ⟨m', hok, -⟩
  obtain ⟨hm, hs⟩ := buffers_of_text [97, 37] (by decide) (by decide)
  obtain ⟨-, out, hout, -⟩ := ((wp_iff _).mp (wp_httpDecode hm hs (by decide))).1 () m' hok
  cases hout

lemma nul_not_mem_encodeFrom (h : 0 ∉ s) (j : ℕ) : 0 ∉ encodeFrom j s := by
  induction s generalizing j with
  | nil => simp [encodeFrom]
  | cons b bs ih =>
    rw [List.mem_cons, not_or] at h
    rw [encodeFrom]
    split_ifs with hfull hb hthree
    · simp
    · simp
    · simpa using ih h.2 (j + 3)
    · simpa using ⟨h.1, ih h.2 (j + 1)⟩

lemma nul_not_mem_httpEncode (h : 0 ∉ s) : 0 ∉ httpEncode s := nul_not_mem_encodeFrom h 0

lemma space_not_mem_httpEncode (s : List UInt8) : 32 ∉ httpEncode s := not_mem_encodeFrom 0 s

/-- The loop of `http_encode` has so many characters to come. -/
structure Encoding (value : List UInt8) (n : ℕ) (v : EncodeVars) (m : Memory EscapeBuffer) : Prop where
  sized : FullSize m
  held : Holds (m .s) value
  room : v.j < maxString
  place : ∃ pre rest, value = pre ++ rest ∧ v.i = pre.length ∧ n = rest.length ∧
    (m .t).take v.j ++ encodeFrom v.j rest = httpEncode value

/-- The loop has ended with so many bytes in the work buffer. -/
structure Encoded (value : List UInt8) (j : ℕ) (m : Memory EscapeBuffer) : Prop where
  sized : FullSize m
  held : Holds (m .s) value
  room : j < maxString
  out : (m .t).take j = httpEncode value

lemma Encoding.wp_encodeChar {v : EncodeVars} {crash : BufferFault → Memory EscapeBuffer → Prop}
    (h : Encoding value n v m) :
    wp (encodeChar v) (Programs.Round (Encoding value) (Encoded value) n) crash m := by
  obtain ⟨hm, hs, hroom, pre, rest, rfl, hi, rfl, hout⟩ := h
  have hjt : v.j < (m .t).length := by rwa [hm.length .t]
  rw [encodeChar, wp_bind, hi]
  apply (wp_fetchChar hs).mpr
  rw [wp_ite]
  cases rest with
  | nil =>
    rw [encodeFrom, List.append_nil] at hout
    exact ⟨fun _ => ⟨hm, hs, hroom, hout⟩, fun hn => absurd rfl hn⟩
  | cons c rest =>
    have hc : c ≠ 0 := fun h => hs.1 (by simp [← h])
    have hsplit : pre ++ c :: rest = (pre ++ [c]) ++ rest := by simp
    have hi' : pre.length + 1 = (pre ++ [c]).length := by simp
    refine ⟨fun hn => absurd hn hc, fun _ => ?_⟩
    rw [encodeFrom] at hout
    rw [List.headD_cons, wp_ite]
    refine ⟨fun hfull => ?_, fun hfull => ?_⟩
    · rw [if_pos hfull, List.append_nil] at hout
      exact ⟨hm, hs, hroom, hout⟩
    rw [if_neg hfull] at hout
    have hm₁ : FullSize (Function.update m .t ((m .t).set v.j c)) := hm.update (by rw [List.length_set])
    rw [wp_bind, wp_store hjt, wp_ite]
    refine ⟨fun hspace => ?_, fun hspace => ?_⟩
    · rw [if_pos hspace] at hout
      rw [wp_ite]
      refine ⟨fun hthree => ?_, fun hthree => ?_⟩
      · rw [if_pos hthree, List.append_nil] at hout
        refine ⟨hm₁, hs, hroom, ?_⟩
        rw [Function.update_self, List.take_set_of_le le_rfl, hout]
      · rw [if_neg hthree] at hout
        have hj : v.j + 3 < (Function.update m .t ((m .t).set v.j c) .t).length := by
          rw [hm₁.length .t]
          omega
        rw [wp_bind, wp_strcpy hj, wp_pure]
        refine ⟨rest.length, by simp, hm₁.update length_overwrite, hs, by rw [hm₁.length .t] at hj; exact hj,
          pre ++ [c], rest, hsplit, hi', rfl, ?_⟩
        have hroom : v.j + ([37, 50, 48] ++ [(0 : UInt8)]).length ≤
          (Function.update m .t ((m .t).set v.j c) .t).length := hj
        have htake := take_overwrite_append hroom
        rw [Function.update_self] at htake ⊢
        have hset : ((m .t).set v.j c).take v.j = (m .t).take v.j := List.take_set_of_le le_rfl
        rw [hset] at htake
        rw [← hout, ← List.append_assoc]
        exact congrArg (· ++ encodeFrom (v.j + 3) rest) htake
    · rw [if_neg hspace] at hout
      refine ⟨rest.length, by simp, hm₁, hs, by show v.j + 1 < maxString; omega,
        pre ++ [c], rest, hsplit, hi', rfl, ?_⟩
      rw [Function.update_self, take_set_succ hjt, List.append_assoc, List.singleton_append, hout]

lemma wp_httpEncodeInPlace {crash : BufferFault → Memory EscapeBuffer → Prop} (hm : FullSize m)
    (hs : Holds (m .s) value) (hr : value.length < rounds) :
    wp (httpEncodeInPlace rounds) (fun _ m' => FullSize m' ∧ Holds (m' .s) (httpEncode value)) crash m := by
  rw [httpEncodeInPlace, wp_bind]
  apply wp_mono (wp_loop (Encoding value) (fun n v m h => h.wp_encodeChar) _ hr) _ fun _ _ h => h
  · exact ⟨hm, hs, by decide, [], value, rfl, rfl, rfl, rfl⟩
  · intro j m' hd
    apply wp_mono (wp_copyBack hd.sized hd.room) _ fun _ _ hf => hf
    rintro - m'' ⟨hm'', hheld⟩
    rw [hd.out, takeWhile_of_not_mem (nul_not_mem_httpEncode hs.1)] at hheld
    exact ⟨hm'', hheld⟩

lemma spaceEncode_cons : spaceEncode (b :: s) = (if b = 32 then [37, 50, 48] else [b]) ++ spaceEncode s :=
  List.flatMap_cons

/-- Decoding the encoded spaces of a text without `%`. -/
lemma percentDecode_spaceEncode (h : 37 ∉ s) : percentDecode (spaceEncode s) = s := by
  induction s with
  | nil => rfl
  | cons b s ih =>
    rw [List.mem_cons, not_or] at h
    rw [spaceEncode_cons]
    split_ifs with hb
    · have hesc : escaped (50 :: 48 :: spaceEncode s) = some 32 := rfl
      rw [hb]
      exact (percentDecode_escaped hesc).trans (congrArg _ (ih h.2))
    · rw [List.singleton_append, percentDecode_cons_of_ne (Ne.symm h.1), ih h.2]

lemma exact_spaceEncode (h : 37 ∉ s) : Exact (spaceEncode s) := by
  induction s with
  | nil => exact fun r hr => by simp [spaceEncode] at hr
  | cons b s ih =>
    rw [List.mem_cons, not_or] at h
    rw [spaceEncode_cons]
    split_ifs with hb
    · have hesc : escaped (50 :: 48 :: spaceEncode s) = some 32 := rfl
      refine exact_percent.mpr ⟨?_, (exact_drop hesc).mpr (ih h.2)⟩
      show (escaped (50 :: 48 :: spaceEncode s)).elim _ _
      rw [hesc]
      exact (by decide : (32 : UInt8) ≠ 0)
    · exact (exact_cons_of_ne (Ne.symm h.1)).mpr (ih h.2)

/-- The encoding stays in its buffer and leaves a string without spaces, all of the encoded string where
that fits. Encoding again changes nothing, and a text without `%` comes back by decoding. -/
theorem httpEncodeInPlace_bounded (hm : FullSize m) (hs : Holds (m .s) value) (hr : maxString ≤ rounds) (k : ℤ) :
    ∃ m' out, httpEncodeInPlace rounds m = .ok () m' ∧ Holds (m' .s) out ∧ 32 ∉ out ∧
      out.length < maxString ∧ ((spaceEncode value).length < maxString → out = spaceEncode value) ∧
      (∃ m'', httpEncodeInPlace rounds m' = .ok () m'' ∧ Holds (m'' .s) out) ∧
      (37 ∉ value → (spaceEncode value).length < maxString →
        ∃ m'', httpDecode k rounds m' = .ok () m'' ∧ Holds (m'' .s) value) := by
  have hlen := hs.length_lt
  rw [hm.length .s] at hlen
  obtain ⟨⟨⟩, m', hok, hm', hheld⟩ := exists_of_wp (wp_httpEncodeInPlace hm hs (hlen.trans_le hr))
  have hlen' := hheld.length_lt
  rw [hm'.length .s] at hlen'
  have hfull : (spaceEncode value).length < maxString → httpEncode value = spaceEncode value := fun h =>
    encodeFrom_eq (by omega)
  refine ⟨m', httpEncode value, hok, hheld, space_not_mem_httpEncode value, hlen', hfull, ?_, fun h37 hfit => ?_⟩
  · obtain ⟨⟨⟩, m'', hok', -, hheld'⟩ := exists_of_wp (wp_httpEncodeInPlace hm' hheld (hlen'.trans_le hr))
    rw [httpEncode_of_not_mem (space_not_mem_httpEncode value) hlen'] at hheld'
    exact ⟨m'', hok', hheld'⟩
  · rw [hfull hfit] at hheld
    obtain ⟨m'', hok', hheld'⟩ := httpDecode_of_exact (k := k) hm' hheld (by omega : _ < rounds)
      (exact_spaceEncode h37)
    rw [percentDecode_spaceEncode h37] at hheld'
    exact ⟨m'', hok', hheld'⟩

end

theorem httpEncodeInPlace_bounded_of_space : ∃ m' out,
    httpEncodeInPlace maxString (escapeBuffers [97, 32, 98]) = .ok () m' ∧ Holds (m' .s) out ∧ 32 ∉ out ∧
      out.length < maxString ∧
      ((spaceEncode [97, 32, 98]).length < maxString → out = spaceEncode [97, 32, 98]) ∧
      (∃ m'', httpEncodeInPlace maxString m' = .ok () m'' ∧ Holds (m'' .s) out) ∧
      ((37 : UInt8) ∉ [97, 32, 98] → (spaceEncode [97, 32, 98]).length < maxString →
        ∃ m'', httpDecode 0 maxString m' = .ok () m'' ∧ Holds (m'' .s) [97, 32, 98]) := by
  obtain ⟨hm, hs⟩ := buffers_of_text [97, 32, 98] (by decide) (by decide)
  exact httpEncodeInPlace_bounded hm hs le_rfl 0

end GreenBag
