import GreenBag.Cuts
import GreenBag.Http
import Mathlib.Data.List.TakeWhile

/-! `conn_set` and `conn_url`: parsing a URL into the target of a connection, and printing it. A
string is the list of its characters before the NUL. -/

namespace GreenBag

/-- MAX_STRING, the size of all string buffers here. -/
def maxString : ℕ := 1024

def text (s : String) : List UInt8 := s.toList.map fun c => c.toNat.toUInt8

/-- The part of a `conn_t` that says what is asked for, and where. -/
structure Target where
  host : List UInt8
  port : ℤ
  dir : List UInt8
  file : List UInt8
  user : List UInt8
  pass : List UInt8
  deriving DecidableEq, Repr

/-- A copy with `strncpy`, which leaves no string where there is no room for the terminator. -/
def strncpy (s : List UInt8) : Option (List UInt8) := if s.length < maxString then some s else none

/-- A copy with `snprintf`. -/
def snprintf (s : List UInt8) : List UInt8 := s.take (maxString - 1)

/-- The loop of `http_encode` from an index of the output on. -/
def encodeFrom (j : ℕ) : List UInt8 → List UInt8
  | [] => []
  | b :: bs =>
    if j ≥ maxString - 1 then []
    else if b = 32 then
      if j ≥ maxString - 3 then [] else [37, 50, 48] ++ encodeFrom (j + 3) bs
    else b :: encodeFrom (j + 1) bs

def httpEncode (s : List UInt8) : List UInt8 := encodeFrom 0 s

/-- The conversion `%i`. -/
def scanInt (s : List UInt8) : Option ℤ :=
  match s.dropWhile isSpace with
  | 45 :: ds => (scanUnsigned ds).map fun n : ℕ => -(n : ℤ)
  | 43 :: ds => (scanUnsigned ds).map Nat.cast
  | ds => (scanUnsigned ds).map Nat.cast

def FitsInt (n : ℤ) : Prop := -2 ^ 31 ≤ n ∧ n < 2 ^ 31

instance (n : ℤ) : Decidable (FitsInt n) := inferInstanceAs (Decidable (_ ∧ _))

/-- The conversion `%s`; nothing is converted where the word is empty. -/
def firstWord (s : List UInt8) : List UInt8 := (s.dropWhile isSpace).takeWhile fun b => !isSpace b

/-- What stands behind `://`, if the first letter of the text lets it pass for HTTP. -/
def withoutScheme (url : List UInt8) : Option (List UInt8) :=
  match Cuts.pattern [58, 47, 47] url with
  | none => some url
  | some (_, rest) => if url.head? = some 104 then some rest else none

/-- The directory and the file of a path, cut at the last slash before the query; nothing where
there is none. -/
def splitPath (path : List UInt8) : Option (List UInt8 × List UInt8) :=
  match Cuts.first 63 path with
  | none => (Cuts.last 47 path).map fun (dir, file) => (dir ++ [47], file)
  | some (path, query) =>
    (Cuts.last 47 path).map fun (dir, file) => (dir ++ [47], file ++ 63 :: query)

/-- The user, the password and what is left, from the part before the path. -/
def splitUser (host : List UInt8) : List UInt8 × List UInt8 × List UInt8 :=
  match Cuts.last 64 host with
  | none => ([], [], host)
  | some (user, host) =>
    match Cuts.first 58 user with
    | none => (user, [], host)
    | some (user, pass) => (user, pass, host)

/-- The host and the port; a port that is no number leaves the present one. -/
def splitPort (port : ℤ) (host : List UInt8) : List UInt8 × ℤ :=
  match Cuts.first 58 host with
  | none => (host, 80)
  | some (host, number) => (host, (scanInt number).getD port)

/-- The part in front of the path, and the path with each space encoded. -/
def splitHost (url : List UInt8) : List UInt8 × List UInt8 :=
  match Cuts.first 47 url with
  | none => (url, [47])
  | some (host, path) => (host, httpEncode (snprintf (47 :: path)))

/-- The result, 0 or 1, and the target it leaves; nothing where a string without a terminator is
read or NULL dereferenced. -/
def connSet (c : Target) (setUrl : List UInt8) : Option (Bool × Target) :=
  match withoutScheme setUrl with
  | none => some (false, c)
  | some rest => do
    let url ← strncpy rest
    let (host, path) := splitHost url
    let (dir, file) ← splitPath path
    let (user, pass, host) := splitUser host
    let (host, port) := splitPort c.port host
    return (port > 0, ⟨host, port, dir, file, user, pass⟩)

def digits (n : ℤ) : List UInt8 := (decimal n).map fun c => c.toNat.toUInt8

/-- The user is not printed where there is none or it is `anonymous`. -/
def Target.printsUser (c : Target) : Bool := c.user ≠ [] ∧ c.user ≠ text "anonymous"

/-- Nothing where the URL does not fit in `string`. -/
def connUrl (c : Target) : Option (List UInt8) :=
  strncpy (text "http://" ++ (if c.printsUser then c.user ++ 58 :: c.pass ++ [64] else []) ++
    c.host ++ 58 :: digits c.port ++ c.dir ++ c.file)

/-- Each space is `%20`. -/
def spaceEncode (s : List UInt8) : List UInt8 := s.flatMap fun b => if b = 32 then [37, 50, 48] else [b]

def isSchemeChar (b : UInt8) : Bool :=
  (97 ≤ b && b ≤ 122) || (65 ≤ b && b ≤ 90) || (48 ≤ b && b ≤ 57) || b = 43 || b = 45 || b = 46

/-- What the first `://` is behind, if there is one, is a scheme. -/
def SchemeFirst (url : List UInt8) : Prop :=
  ∀ scheme rest, Cuts.pattern [58, 47, 47] url = some (scheme, rest) → scheme.all isSchemeChar

/-- The URL without its scheme, if it has one. -/
def afterScheme (url : List UInt8) : List UInt8 :=
  match Cuts.pattern [58, 47, 47] url with
  | some (scheme, rest) => if scheme.all isSchemeChar then rest else url
  | none => url

/-- The path behind a host, with the query. -/
def pathBehind (rest : List UInt8) : List UInt8 := 47 :: (Cuts.first 47 rest).elim [] Prod.snd

/-- The path of a URL, with the query. -/
def urlPath (url : List UInt8) : List UInt8 := pathBehind (afterScheme url)

/-- The part of a URL before the last `@` in front of the path. -/
def userInfo (url : List UInt8) : List UInt8 :=
  (Cuts.last 64 ((afterScheme url).takeWhile (· ≠ 47))).elim [] Prod.fst

/-- The user has a name, which is not `anonymous`, or there is neither user nor password. -/
def Named (info : List UInt8) : Prop :=
  info.takeWhile (· ≠ 58) ≠ text "anonymous" ∧ (info.takeWhile (· ≠ 58) = [] → info.length ≤ 1)

section

variable {c t : Target} {url rest path dir file host user pass xs ys : List UInt8} {port : ℤ}
  {accepted : Bool}

lemma splitPath_append (h : splitPath path = some (dir, file)) :
    dir ++ file = path ∧ dir.getLast? = some 47 ∧ 47 ∉ file.takeWhile (· ≠ 63) := by
  rw [splitPath] at h
  split at h
  · rename_i hq
    rw [Option.map_eq_some_iff] at h
    obtain ⟨⟨xs, ys⟩, hl, hp⟩ := h
    obtain ⟨rfl, hn⟩ := Cuts.of_last hl
    cases hp
    refine ⟨by simp, by simp, fun hm => hn ((List.takeWhile_prefix _).subset hm)⟩
  · rename_i before query hq
    rw [Option.map_eq_some_iff] at h
    obtain ⟨⟨xs, ys⟩, hl, hp⟩ := h
    obtain ⟨rfl, hn⟩ := Cuts.of_last hl
    obtain ⟨rfl, hno⟩ := Cuts.of_first hq
    cases hp
    refine ⟨by simp, by simp, ?_⟩
    have hys : ∀ b ∈ ys, decide (b ≠ 63) = true := fun b hb =>
      decide_eq_true fun he => hno (he ▸ by simp [hb])
    rw [List.takeWhile_append_of_pos hys]
    simpa using hn

lemma splitPath_isSome (path : List UInt8) (h : path.head? = some 47) :
    ∃ dir file, splitPath path = some (dir, file) := by
  have hlast : ∀ p : List UInt8, p.head? = some 47 → ∃ xs ys, Cuts.last 47 p = some (xs, ys) := by
    intro p hp
    by_contra hn
    have hnone : Cuts.last 47 p = none := by
      by_contra hs
      obtain ⟨⟨xs, ys⟩, hxy⟩ := Option.ne_none_iff_exists'.mp hs
      exact hn ⟨xs, ys, hxy⟩
    exact Cuts.last_eq_none_iff.mp hnone (List.mem_of_head? hp)
  rw [splitPath]
  cases hq : Cuts.first 63 path with
  | none =>
    obtain ⟨xs, ys, hxy⟩ := hlast path h
    exact ⟨_, _, by rw [hxy]; rfl⟩
  | some cut =>
    obtain ⟨before, query⟩ := cut
    obtain ⟨rfl, -⟩ := Cuts.of_first hq
    have hb : before.head? = some 47 := by
      cases before with
      | nil => simp at h
      | cons b bs => exact h
    obtain ⟨xs, ys, hxy⟩ := hlast before hb
    exact ⟨_, _, by simp only [hxy]; rfl⟩

/-- What the three parts of a host field are, and what they cannot contain. -/
structure UserSplit (field user pass host : List UInt8) : Prop where
  subset : ∀ b, b ∈ user ∨ b ∈ pass ∨ b ∈ host → b ∈ field
  user : 58 ∉ user
  host : 64 ∉ host

lemma splitUser_spec (xs : List UInt8) :
    UserSplit xs (splitUser xs).1 (splitUser xs).2.1 (splitUser xs).2.2 := by
  unfold splitUser
  split
  · rename_i h
    exact ⟨by simp, by simp, Cuts.last_eq_none_iff.mp h⟩
  · rename_i before host h
    obtain ⟨rfl, hn⟩ := Cuts.of_last h
    split
    · rename_i hc
      exact ⟨by simp; tauto, Cuts.first_eq_none_iff.mp hc, hn⟩
    · rename_i user pass hc
      obtain ⟨rfl, hno⟩ := Cuts.of_first hc
      exact ⟨by simp; tauto, hno, hn⟩

lemma splitPort_spec (port : ℤ) (xs : List UInt8) :
    (∀ b ∈ (splitPort port xs).1, b ∈ xs) ∧ 58 ∉ (splitPort port xs).1 := by
  unfold splitPort
  split
  · rename_i h
    exact ⟨fun _ hb => hb, Cuts.first_eq_none_iff.mp h⟩
  · rename_i host number h
    obtain ⟨rfl, hn⟩ := Cuts.of_first h
    exact ⟨by simp; tauto, hn⟩

lemma isDigit_bounds {d : Char} (h : d.isDigit) : 48 ≤ d.toNat ∧ d.toNat ≤ 57 := by
  simp only [Char.isDigit, Bool.and_eq_true, decide_eq_true_eq] at h
  exact ⟨h.1, h.2⟩

lemma toNat_digit {d : Char} (h : d.isDigit) : d.toNat.toUInt8.toNat = d.toNat := by
  have := isDigit_bounds h
  rw [Nat.toUInt8, UInt8.toNat_ofNat']
  omega

lemma digitValue_digit {d : Char} (h : d.isDigit) :
    digitValue d.toNat.toUInt8 = some (d.toNat - 48) := by
  have hb := isDigit_bounds h
  have h₁ : (48 : UInt8) ≤ d.toNat.toUInt8 ∧ d.toNat.toUInt8 ≤ 57 := by
    rw [UInt8.le_iff_toNat_le, UInt8.le_iff_toNat_le, toNat_digit h]
    exact hb
  rw [digitValue, if_pos h₁, toNat_digit h]

lemma scanDigits_digits {ds : List Char} (h : ∀ d ∈ ds, d.isDigit) (v : ℕ) :
    scanDigits 10 (some v) (ds.map fun d => d.toNat.toUInt8) = some (Nat.ofDigitChars 10 ds v) := by
  induction ds generalizing v with
  | nil => rfl
  | cons d ds ih =>
    have hd := h d List.mem_cons_self
    have hb := isDigit_bounds hd
    rw [List.map_cons, scanDigits, digitValue_digit hd]
    simp only
    rw [if_pos (by omega), ih fun e he => h e (List.mem_cons_of_mem _ he)]
    rw [Nat.ofDigitChars_cons, show (some v).getD 0 * 10 + (d.toNat - 48) =
      10 * v + (d.toNat - '0'.toNat) by simp [mul_comm]]

lemma head_toDigits (n : ℕ) : 0 < n → ∃ d ds, Nat.toDigits 10 n = d :: ds ∧ d ≠ '0' := by
  induction n using Nat.strong_induction_on with
  | _ n ih =>
    intro hn
    by_cases hlt : n < 10
    · rw [Nat.toDigits_of_lt_base hlt]
      refine ⟨_, _, rfl, ?_⟩
      interval_cases n <;> decide
    · obtain ⟨d, ds, hd, h₀⟩ := ih (n / 10) (by omega) (by omega)
      rw [Nat.toDigits_of_base_le (by omega) (by omega), hd]
      exact ⟨d, _, rfl, h₀⟩

lemma digits_of_nonneg {n : ℤ} (hn : 0 ≤ n) :
    digits n = (Nat.toDigits 10 n.toNat).map fun d => d.toNat.toUInt8 := by
  rw [digits, decimal_of_nonneg hn, show n.natAbs = n.toNat by omega]

lemma digits_of_neg {n : ℤ} (hn : n < 0) : digits n = 45 :: digits (-n) := by
  have hp : digits (-n) = (Nat.toDigits 10 (-n).toNat).map fun d => d.toNat.toUInt8 :=
    digits_of_nonneg (by omega)
  rw [hp, digits, decimal, if_pos hn, List.map_cons, show n.natAbs = (-n).toNat by omega]
  rfl

lemma scanUnsigned_of_ne {b : UInt8} {bs : List UInt8} (h : b ≠ 48) :
    scanUnsigned (b :: bs) = scanDigits 10 none (b :: bs) := by
  unfold scanUnsigned
  split <;> simp_all

/-- A positive number is printed with a digit in front that is not zero. -/
lemma head_digits {n : ℤ} (hn : 0 < n) : ∃ b bs, digits n = b :: bs ∧ b ≠ 48 ∧ isSpace b = false ∧
    b ≠ 45 ∧ b ≠ 43 := by
  have hdigits := isDigit_toDigits n.toNat
  obtain ⟨d, ds, hd, h₀⟩ := head_toDigits n.toNat (by omega)
  rw [hd] at hdigits
  have hdd := hdigits d List.mem_cons_self
  have hb := isDigit_bounds hdd
  have hne : ∀ b : UInt8, b.toNat ≤ 48 → d.toNat.toUInt8 ≠ b := by
    rintro b hle rfl
    rw [toNat_digit hdd] at hle
    exact h₀ (Char.toNat_inj.mp (le_antisymm hle hb.1))
  refine ⟨_, _, by rw [digits_of_nonneg hn.le, hd, List.map_cons], hne 48 (by decide), ?_,
    hne 45 (by decide), hne 43 (by decide)⟩
  by_contra hs
  simp only [isSpace, Bool.or_eq_true, Bool.and_eq_true, decide_eq_true_eq, Bool.not_eq_false,
    UInt8.le_iff_toNat_le] at hs
  rcases hs with hs | ⟨-, hs⟩
  · exact hne 32 (by decide) hs
  · exact hne _ (hs.trans (by decide)) rfl

lemma scanDigits_toDigits {ds : List Char} (hne : ds ≠ []) (h : ∀ d ∈ ds, d.isDigit) :
    scanDigits 10 none (ds.map fun d => d.toNat.toUInt8) = some (Nat.ofDigitChars 10 ds 0) := by
  cases ds with
  | nil => exact absurd rfl hne
  | cons d ds =>
    rw [← scanDigits_digits h 0, List.map_cons, scanDigits, scanDigits,
      digitValue_digit (h d List.mem_cons_self)]
    have hb := isDigit_bounds (h d List.mem_cons_self)
    simp only [if_pos (show d.toNat - 48 < 10 by omega), Option.getD_none, Option.getD_some]

lemma scanUnsigned_digits {n : ℤ} (hn : 0 < n) : scanUnsigned (digits n) = some n.toNat := by
  obtain ⟨b, bs, hd, h₄₈, -⟩ := head_digits hn
  rw [hd, scanUnsigned_of_ne h₄₈, ← hd, digits_of_nonneg hn.le,
    scanDigits_toDigits Nat.toDigits_ne_nil (isDigit_toDigits _), Nat.ofDigitChars_ten_toDigits]

lemma scanInt_digits (n : ℤ) : scanInt (digits n) = some n := by
  rcases lt_trichotomy n 0 with hn | rfl | hn
  · have hscan := scanUnsigned_digits (n := -n) (by omega)
    rw [digits_of_neg hn, scanInt, List.dropWhile_cons_of_neg (by decide)]
    simp only [hscan, Option.map_some]
    congr 1
    omega
  · rfl
  · obtain ⟨b, bs, hd, -, hs, h₄₅, h₄₃⟩ := head_digits hn
    have hscan := scanUnsigned_digits hn
    rw [hd] at hscan ⊢
    rw [scanInt, List.dropWhile_cons_of_neg (by simp [hs])]
    split
    · simp_all
    · simp_all
    · rw [hscan, Option.map_some]
      congr 1
      omega

lemma not_mem_digits {b : UInt8} (hb : b.toNat < 48 ∨ 57 < b.toNat) (h₄₅ : b ≠ 45) (n : ℤ) :
    b ∉ digits n := by
  have hpos : ∀ n : ℤ, 0 ≤ n → b ∉ digits n := by
    intro n hn hm
    rw [digits_of_nonneg hn] at hm
    obtain ⟨d, hd, rfl⟩ := List.mem_map.mp hm
    have hdigit := isDigit_toDigits n.toNat d hd
    have := isDigit_bounds hdigit
    rw [toNat_digit hdigit] at hb
    omega
  rcases lt_or_ge n 0 with hn | hn
  · rw [digits_of_neg hn, List.mem_cons, not_or]
    exact ⟨h₄₅, hpos _ (by omega)⟩
  · exact hpos n hn

/-- How a URL is taken apart. -/
structure Parsed (port : ℤ) (rest host : List UInt8) (t : Target) : Prop where
  length : rest.length < maxString
  path : splitPath (splitHost rest).2 = some (t.dir, t.file)
  user : splitUser (splitHost rest).1 = (t.user, t.pass, host)
  port : splitPort port host = (t.host, t.port)

lemma of_connSet (h : connSet c url = some (accepted, t)) (hw : withoutScheme url = some rest) :
    accepted = decide (t.port > 0) ∧ ∃ host, Parsed c.port rest host t := by
  simp only [connSet, hw, strncpy, Option.bind_eq_bind, Option.bind_eq_some_iff] at h
  obtain ⟨url', hlen, ⟨dir, file⟩, hp, ht⟩ := h
  split_ifs at hlen with hlt
  obtain rfl := Option.some.inj hlen
  obtain ⟨ha, rfl⟩ := Prod.mk.inj (Option.some.inj ht)
  exact ⟨ha.symm, _, hlt, hp, rfl, rfl⟩

lemma withoutScheme_of_connSet (h : connSet c url = some (true, t)) :
    ∃ rest, withoutScheme url = some rest := by
  rw [connSet] at h
  cases hw : withoutScheme url with
  | none =>
    rw [hw] at h
    cases h
  | some rest => exact ⟨rest, rfl⟩

lemma Parsed.connSet (h : Parsed c.port rest host t) (hw : withoutScheme url = some rest) :
    connSet c url = some (decide (t.port > 0), t) := by
  obtain ⟨hlen, hpath, huser, hport⟩ := h
  simp only [GreenBag.connSet, hw, strncpy, if_pos hlen, hpath, huser, hport,
    Option.bind_eq_bind, Option.bind_some]
  rfl

/-- The output of `http_encode` where there is room for it. -/
lemma encodeFrom_eq {s : List UInt8} {j : ℕ} (h : j + (spaceEncode s).length ≤ maxString - 1) :
    encodeFrom j s = spaceEncode s := by
  induction s generalizing j with
  | nil => rfl
  | cons b bs ih =>
    rw [spaceEncode, List.flatMap_cons, ← spaceEncode] at h ⊢
    rw [encodeFrom]
    by_cases hb : b = 32
    · simp only [hb, if_true, List.length_append, List.length_cons, List.length_nil] at h ⊢
      rw [if_neg (by omega), if_neg (by omega), ih (by omega)]
    · simp only [hb, if_false, List.length_append, List.length_cons, List.length_nil] at h ⊢
      rw [if_neg (by omega), ih (by omega)]
      rfl

lemma le_length_encodeFrom {s : List UInt8} {j : ℕ}
    (h : maxString - 1 < j + (spaceEncode s).length) (hj : j ≤ maxString - 1) :
    maxString - 3 ≤ j + (encodeFrom j s).length := by
  induction s generalizing j with
  | nil =>
    simp only [spaceEncode, List.flatMap_nil, List.length_nil] at h
    omega
  | cons b bs ih =>
    rw [spaceEncode, List.flatMap_cons, ← spaceEncode] at h
    rw [encodeFrom]
    split_ifs with hfull hb hthree
    · omega
    · omega
    · simp only [hb, if_true, List.length_append, List.length_cons, List.length_nil] at h ⊢
      have := ih (j := j + 3) (by omega) (by omega)
      omega
    · simp only [hb, if_false, List.length_append, List.length_cons, List.length_nil] at h ⊢
      have := ih (j := j + 1) (by omega) (by omega)
      omega

lemma spaceEncode_append (xs ys : List UInt8) :
    spaceEncode (xs ++ ys) = spaceEncode xs ++ spaceEncode ys := List.flatMap_append

lemma spaceEncode_of_not_mem {s : List UInt8} (h : 32 ∉ s) : spaceEncode s = s := by
  induction s with
  | nil => rfl
  | cons b bs ih =>
    obtain ⟨hb, hbs⟩ := not_or.mp (List.mem_cons.not.mp h)
    rw [spaceEncode, List.flatMap_cons, ← spaceEncode, ih hbs, if_neg (Ne.symm hb)]
    rfl

lemma httpEncode_eq {s : List UInt8} (h : (httpEncode s).length < maxString - 3) :
    httpEncode s = spaceEncode s := by
  by_cases hle : (spaceEncode s).length ≤ maxString - 1
  · exact encodeFrom_eq (by rwa [zero_add])
  · have := le_length_encodeFrom (s := s) (j := 0) (by omega) (by omega)
    rw [httpEncode] at h
    omega

lemma splitHost_path (hlen : rest.length < maxString) :
    (splitHost rest).2 = httpEncode (pathBehind rest) := by
  rw [splitHost, pathBehind]
  cases hf : Cuts.first 47 rest with
  | none => rfl
  | some cut =>
    obtain ⟨host, path⟩ := cut
    obtain ⟨rfl, -⟩ := Cuts.of_first hf
    simp only [List.length_append, List.length_cons] at hlen
    simp only [Option.elim_some, snprintf]
    rw [List.take_of_length_le (by simp only [List.length_cons]; omega)]

lemma splitHost_host (rest : List UInt8) : (splitHost rest).1 = rest.takeWhile (· ≠ 47) := by
  rw [splitHost, Cuts.takeWhile_eq]
  cases Cuts.first 47 rest <;> rfl

lemma withoutScheme_eq (h : withoutScheme url = some rest) :
    SchemeFirst url ∧ afterScheme url = rest ∨
      ¬ SchemeFirst url ∧ afterScheme url = url ∧ ∃ scheme, url = scheme ++ ([58, 47, 47] ++ rest) := by
  rw [withoutScheme] at h
  rw [afterScheme, SchemeFirst]
  cases hp : Cuts.pattern [58, 47, 47] url with
  | none =>
    rw [hp] at h
    obtain rfl := Option.some.inj h
    exact .inl ⟨fun _ _ hs => (by cases hs), rfl⟩
  | some cut =>
    obtain ⟨scheme, rest'⟩ := cut
    rw [hp] at h
    simp only at h
    split_ifs at h
    obtain rfl := Option.some.inj h
    by_cases hs : scheme.all isSchemeChar
    · refine .inl ⟨fun scheme' rest'' hs' => ?_, if_pos hs⟩
      cases hs'
      exact hs
    · exact .inr ⟨fun hf => hs (hf _ _ rfl), if_neg hs, scheme, Cuts.of_pattern hp⟩

/-- The path of the URL is longer than that of its part behind a `://`. -/
lemma length_pathBehind_lt (scheme rest : List UInt8) :
    (spaceEncode (pathBehind rest)).length <
      (spaceEncode (pathBehind (scheme ++ ([58, 47, 47] ++ rest)))).length := by
  obtain ⟨zs, hz⟩ := Cuts.behind_append 47 (scheme ++ [58]) (47 :: rest)
  obtain ⟨ws, hw⟩ := Cuts.behind_suffix 47 rest
  have hurl : scheme ++ ([58, 47, 47] ++ rest) = scheme ++ [58] ++ 47 :: 47 :: rest := by simp
  have hcons : ∀ s, spaceEncode (47 :: s) = 47 :: spaceEncode s := fun _ => rfl
  rw [pathBehind, pathBehind, hurl, hz, hcons, hcons, spaceEncode_append, hcons]
  conv_rhs => rw [← hw]
  rw [spaceEncode_append]
  simp only [List.length_cons, List.length_append]
  omega

/-- The part of a printed URL between the scheme and the path. -/
def Target.authority (t : Target) : List UInt8 :=
  (if t.printsUser then t.user ++ 58 :: t.pass ++ [64] else []) ++ t.host ++ 58 :: digits t.port

lemma Parsed.subset (h : Parsed port rest host t) :
    (∀ b, b ∈ t.user ∨ b ∈ t.pass ∨ b ∈ t.host → b ∈ rest.takeWhile (· ≠ 47)) ∧
      58 ∉ t.user ∧ 58 ∉ t.host ∧ 64 ∉ t.host := by
  have hu := splitUser_spec (splitHost rest).1
  have hp := splitPort_spec port host
  rw [h.user] at hu
  rw [h.port] at hp
  have hsub := hu.subset
  rw [splitHost_host] at hsub
  refine ⟨fun b hb => hsub b ?_, hu.user, hp.2, fun hm => hu.host (hp.1 _ hm)⟩
  rcases hb with hb | hb | hb
  · exact .inl hb
  · exact .inr (.inl hb)
  · exact .inr (.inr (hp.1 b hb))

lemma Parsed.not_mem_authority (h : Parsed port rest host t) : 47 ∉ t.authority := by
  have hslash : ∀ b, b ∈ t.user ∨ b ∈ t.pass ∨ b ∈ t.host → b ≠ 47 := fun b hb => by
    simpa using List.mem_takeWhile_imp (h.subset.1 b hb)
  have hd : (47 : UInt8) ∉ digits t.port := not_mem_digits (.inl (by decide)) (by decide) _
  rw [Target.authority]
  intro hm
  simp only [List.mem_append, List.mem_cons] at hm
  rcases hm with (hm | hm) | hm | hm
  · split_ifs at hm
    · simp only [List.mem_append, List.mem_cons] at hm
      rcases hm with (hm | hm | hm) | hm
      · exact hslash _ (.inl hm) rfl
      · exact absurd hm (by decide)
      · exact hslash _ (.inr (.inl hm)) rfl
      · exact absurd hm (by simp)
    · simp at hm
  · exact hslash _ (.inr (.inr hm)) rfl
  · exact absurd hm (by decide)
  · exact hd hm

lemma Parsed.splitUser_authority (h : Parsed port rest host t) :
    splitUser t.authority = (if t.printsUser then t.user else [], if t.printsUser then t.pass else [],
      t.host ++ 58 :: digits t.port) := by
  obtain ⟨-, hu, -, hh⟩ := h.subset
  have hn : (64 : UInt8) ∉ t.host ++ 58 :: digits t.port := by
    simp only [List.mem_append, List.mem_cons, not_or]
    exact ⟨hh, by decide, not_mem_digits (.inr (by decide)) (by decide) _⟩
  rw [Target.authority]
  split_ifs with hp
  · have hauth : t.user ++ 58 :: t.pass ++ [64] ++ t.host ++ 58 :: digits t.port =
        (t.user ++ 58 :: t.pass) ++ 64 :: (t.host ++ 58 :: digits t.port) := by simp
    rw [hauth, splitUser, Cuts.last_append hn]
    simp only [Cuts.first_append hu]
  · rw [List.nil_append, splitUser, Cuts.last_eq_none_iff.mpr hn]

lemma Parsed.splitPort_authority (h : Parsed port rest host t) (p : ℤ) :
    splitPort p (t.host ++ 58 :: digits t.port) = (t.host, t.port) := by
  obtain ⟨-, -, hc, -⟩ := h.subset
  rw [splitPort, Cuts.first_append hc]
  simp only [scanInt_digits, Option.getD_some]

lemma connUrl_eq (t : Target) :
    connUrl t = strncpy (text "http" ++ ([58, 47, 47] ++ (t.authority ++ (t.dir ++ t.file)))) := by
  have hs : text "http://" = text "http" ++ [58, 47, 47] := by decide
  rw [connUrl, Target.authority, hs]
  simp only [List.append_assoc, List.cons_append]

lemma Parsed.path_eq (h : Parsed port rest host t) (hu : connUrl t = some url) :
    t.dir ++ t.file = spaceEncode (pathBehind rest) ∧
      (t.authority ++ (t.dir ++ t.file)).length < maxString := by
  rw [connUrl_eq, strncpy] at hu
  split_ifs at hu with hlt
  simp only [Target.authority, List.length_append, List.length_cons, show (text "http").length = 4 from
    rfl] at hlt ⊢
  have hpath := (splitPath_append h.path).1
  rw [splitHost_path h.length] at hpath
  refine ⟨?_, by omega⟩
  have hlen := congrArg List.length hpath
  rw [List.length_append] at hlen
  rw [hpath, httpEncode_eq (by omega)]

lemma httpEncode_of_not_mem (h : 32 ∉ path) (hlen : path.length < maxString) :
    httpEncode path = path := by
  have hsp := spaceEncode_of_not_mem h
  rw [httpEncode, encodeFrom_eq, hsp]
  rw [hsp]
  omega

lemma not_mem_encodeFrom (j : ℕ) (s : List UInt8) : 32 ∉ encodeFrom j s := by
  induction s generalizing j with
  | nil => simp [encodeFrom]
  | cons b bs ih =>
    rw [encodeFrom]
    split_ifs with hfull hb hthree
    · simp
    · simp
    · simpa using ih (j + 3)
    · exact List.mem_cons.not.mpr (not_or.mpr ⟨Ne.symm hb, ih (j + 1)⟩)

lemma splitHost_slash (rest : List UInt8) :
    (∃ p, (splitHost rest).2 = 47 :: p) ∧ 32 ∉ (splitHost rest).2 := by
  rw [splitHost]
  split
  · exact ⟨⟨[], rfl⟩, by simp⟩
  · rename_i path _
    exact ⟨⟨encodeFrom 1 (path.take 1022), rfl⟩, not_mem_encodeFrom _ _⟩

/-- A path behind the authority of a target is read with that authority, but for a user and a password
that are not printed. -/
lemma Parsed.connSet_authority (h : Parsed port rest host t) (hp : splitPath (47 :: path) = some (dir, file))
    (h₃₂ : 32 ∉ 47 :: path) (hlen : (t.authority ++ 47 :: path).length < maxString) (c : Target) :
    GreenBag.connSet c (text "http" ++ ([58, 47, 47] ++ (t.authority ++ 47 :: path))) =
      some (decide (t.port > 0), ⟨t.host, t.port, dir, file, if t.printsUser then t.user else [],
        if t.printsUser then t.pass else []⟩) := by
  have hw : withoutScheme (text "http" ++ ([58, 47, 47] ++ (t.authority ++ 47 :: path))) =
      some (t.authority ++ 47 :: path) := by
    rw [withoutScheme, Cuts.pattern_append (by decide)]
    exact if_pos rfl
  have hhost : splitHost (t.authority ++ 47 :: path) = (t.authority, 47 :: path) := by
    have hle : (47 :: path).length < maxString := by
      rw [List.length_append] at hlen
      omega
    rw [splitHost, Cuts.first_append h.not_mem_authority]
    simp only
    rw [snprintf, List.take_of_length_le (by omega), httpEncode_of_not_mem h₃₂ hle]
  have hparsed : Parsed c.port (t.authority ++ 47 :: path) (t.host ++ 58 :: digits t.port)
      ⟨t.host, t.port, dir, file, if t.printsUser then t.user else [],
        if t.printsUser then t.pass else []⟩ := by
    refine ⟨hlen, ?_, ?_, h.splitPort_authority _⟩
    · rw [hhost]
      exact hp
    · rw [hhost]
      exact h.splitUser_authority
  exact hparsed.connSet hw

/-- What a printed URL is read as: the target, with the user and the password that are printed. -/
lemma Parsed.reparse (h : Parsed port rest host t) (hu : connUrl t = some url) (c : Target) :
    GreenBag.connSet c url = some (decide (t.port > 0), { t with
      user := if t.printsUser then t.user else []
      pass := if t.printsUser then t.pass else [] }) := by
  obtain ⟨-, hlen⟩ := h.path_eq hu
  obtain ⟨⟨path, hpath⟩, h₃₂⟩ := splitHost_slash rest
  have hdir := (splitPath_append h.path).1
  have hp := h.path
  rw [connUrl_eq, strncpy] at hu
  split_ifs at hu
  obtain rfl := Option.some.inj hu
  rw [hdir, hpath] at hlen ⊢
  rw [hpath] at hp h₃₂
  exact h.connSet_authority hp h₃₂ hlen c

/-- A user can be told from the printed URL exactly if it is named. -/
lemma Parsed.named_iff (h : Parsed port rest host t) :
    Named ((Cuts.last 64 (rest.takeWhile (· ≠ 47))).elim [] Prod.fst) ↔
      t.printsUser ∨ t.user = [] ∧ t.pass = [] := by
  have hu := h.user
  have hne : ([] : List UInt8) ≠ text "anonymous" := by decide
  rw [splitHost_host, splitUser] at hu
  rw [Named, Target.printsUser, decide_eq_true_eq, Cuts.takeWhile_eq]
  cases hl : Cuts.last 64 (rest.takeWhile (· ≠ 47)) with
  | none =>
    simp only [hl, Prod.mk.injEq] at hu
    rw [← hu.1, ← hu.2.1]
    simp [Cuts.first, hne]
  | some cut =>
    obtain ⟨before, behind⟩ := cut
    simp only [hl] at hu
    simp only [Option.elim_some]
    cases hf : Cuts.first 58 before with
    | none =>
      simp only [hf, Prod.mk.injEq] at hu
      rw [← hu.1, ← hu.2.1, Option.elim_none]
      by_cases hb : before = [] <;> simp [hb, hne]
    | some cut =>
      obtain ⟨user, pass⟩ := cut
      simp only [hf, Prod.mk.injEq] at hu
      rw [← hu.1, ← hu.2.1, Option.elim_some, (Cuts.of_first hf).1]
      by_cases hb : user = [] <;> simp [hb, hne]

/-- The path of an accepted URL that can be printed is that of the URL exactly if its first `://` is
behind a scheme. -/
lemma path_iff (h : connSet c url = some (true, t)) (hu : connUrl t = some xs) :
    t.dir ++ t.file = spaceEncode (urlPath url) ↔ SchemeFirst url := by
  obtain ⟨rest, hw⟩ := withoutScheme_of_connSet h
  obtain ⟨-, host, hp⟩ := of_connSet h hw
  rw [(hp.path_eq hu).1, urlPath]
  rcases withoutScheme_eq hw with ⟨hs, he⟩ | ⟨hs, he, scheme, hscheme⟩
  · exact iff_of_true (by rw [he]) hs
  · refine iff_of_false (fun hpath => ?_) hs
    have hlt := length_pathBehind_lt scheme rest
    rw [← hscheme, ← he, ← hpath] at hlt
    exact lt_irrefl _ hlt

/-- An accepted URL that can be printed is read and printed right exactly if its first `://` is behind
a scheme, and its user is not `anonymous` and has a name if it has a password. -/
theorem url_round_trip_iff (h : connSet c url = some (true, t)) (hu : connUrl t = some xs) :
    ((t.dir ++ t.file = spaceEncode (urlPath url) ∧ t.dir.getLast? = some 47 ∧
        47 ∉ t.file.takeWhile (· ≠ 63)) ∧ ∀ c', connSet c' xs = some (true, t)) ↔
      SchemeFirst url ∧ Named (userInfo url) := by
  obtain ⟨rest, hw⟩ := withoutScheme_of_connSet h
  obtain ⟨hpos, host, hp⟩ := of_connSet h hw
  obtain ⟨-, hdir, hfile⟩ := splitPath_append hp.path
  have hre : (∀ c', connSet c' xs = some (true, t)) ↔ t.printsUser ∨ t.user = [] ∧ t.pass = [] := by
    constructor
    · intro hc
      by_contra hn
      obtain ⟨hprints, hsome⟩ := not_or.mp hn
      have ht := hc t
      rw [hp.reparse hu, ← hpos, Option.some.injEq, Prod.mk.injEq, if_neg hprints, if_neg hprints] at ht
      refine hsome ⟨?_, ?_⟩
      · rw [← ht.2]
      · rw [← ht.2]
    · intro ht c'
      rw [hp.reparse hu, ← hpos]
      rcases ht with ht | ⟨huser, hpass⟩
      · rw [if_pos ht, if_pos ht]
      · have hu' : (if t.printsUser then t.user else []) = t.user := by rw [huser, ite_self]
        have hp' : (if t.printsUser then t.pass else []) = t.pass := by rw [hpass, ite_self]
        rw [hu', hp']
  rw [path_iff h hu, hre]
  constructor
  · rintro ⟨⟨hs, -⟩, hn⟩
    refine ⟨hs, ?_⟩
    rcases withoutScheme_eq hw with ⟨-, he⟩ | ⟨hs', -⟩
    · rw [userInfo, he]
      exact hp.named_iff.mpr hn
    · exact absurd hs hs'
  · rintro ⟨hs, hn⟩
    refine ⟨⟨hs, hdir, hfile⟩, ?_⟩
    rcases withoutScheme_eq hw with ⟨-, he⟩ | ⟨hs', -⟩
    · rw [userInfo, he] at hn
      exact hp.named_iff.mp hn
    · exact absurd hs hs'

/-- What `calloc` leaves. -/
def emptyTarget : Target := ⟨[], 0, [], [], [], []⟩

theorem url_round_trip_iff_of_full : ∃ url t xs, connSet emptyTarget url = some (true, t) ∧
    (((t.dir ++ t.file = spaceEncode (urlPath url) ∧ t.dir.getLast? = some 47 ∧
        47 ∉ t.file.takeWhile (· ≠ 63)) ∧ ∀ c', connSet c' xs = some (true, t)) ↔
      SchemeFirst url ∧ Named (userInfo url)) := by
  have h : connSet emptyTarget (text "http://u:p@h:8080/a b/c?x/y") =
      some (true, ⟨text "h", 8080, text "/a%20b/", text "c?x/y", text "u", text "p"⟩) := by
    decide +kernel
  exact ⟨_, _, text "http://u:p@h:8080/a%20b/c?x/y", h, url_round_trip_iff h (by decide +kernel)⟩

/-- The password of `anonymous` does not reach the other connections. -/
theorem password_dropped : ∃ url t xs, connSet emptyTarget url = some (true, t) ∧
    connUrl t = some xs ∧ connSet emptyTarget xs ≠ some (true, t) :=
  ⟨text "http://anonymous:p@h/f", ⟨text "h", 80, text "/", text "f", text "anonymous", text "p"⟩,
    text "http://h:80/f", by decide +kernel⟩

end

end GreenBag
