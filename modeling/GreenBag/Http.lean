import GreenBag.State

/-! Reading a header block and its status, and the text of a range request. -/

namespace GreenBag

open Programs Ranges

/-- The loop that reads a header block byte by byte; `i` counts the characters of the line. Nothing
where the connection is gone before the block ends. A NUL is read but appends nothing. -/
def readHeaderBlock (i : ℕ) (headers : List UInt8) : List UInt8 → Option (List UInt8)
  | [] => none
  | b :: bs =>
    if b = 13 then readHeaderBlock i headers bs
    else if b = 10 then
      if i = 0 then some headers else readHeaderBlock 0 (headers ++ [b]) bs
    else readHeaderBlock (i + 1) (if b = 0 then headers else headers ++ [b]) bs

def isSpace (b : UInt8) : Bool := b = 32 || (9 ≤ b && b ≤ 13)

def digitValue (b : UInt8) : Option ℕ :=
  if 48 ≤ b ∧ b ≤ 57 then some (b.toNat - 48)
  else if 97 ≤ b ∧ b ≤ 102 then some (b.toNat - 87)
  else if 65 ≤ b ∧ b ≤ 70 then some (b.toNat - 55)
  else none

/-- The value of the longest run of digits, if there is a digit at all. -/
def scanDigits (base : ℕ) : Option ℕ → List UInt8 → Option ℕ
  | value, [] => value
  | value, b :: bs =>
    match digitValue b with
    | none => value
    | some d => if d < base then scanDigits base (some (value.getD 0 * base + d)) bs else value

def scanUnsigned : List UInt8 → Option ℕ
  | 48 :: 120 :: bs => scanDigits 16 none bs
  | 48 :: 88 :: bs => scanDigits 16 none bs
  | 48 :: bs => scanDigits 8 (some 0) bs
  | bs => scanDigits 10 none bs

/-- The conversion `%3i`, on input without leading blanks. -/
def scanInt3 (bs : List UInt8) : Option ℤ :=
  match bs.take 3 with
  | 45 :: ds => (scanUnsigned ds).map (fun n => -(n : ℤ))
  | 43 :: ds => (scanUnsigned ds).map Nat.cast
  | ds => (scanUnsigned ds).map Nat.cast

/-- The status that `sscanf` with `%*s %3i` finds. -/
def scanStatus (headers : List UInt8) : Option ℤ :=
  let word := headers.dropWhile isSpace
  if word = [] then none
  else scanInt3 ((word.dropWhile (fun b => !isSpace b)).dropWhile isSpace)

def decimal (n : ℤ) : List Char :=
  if n < 0 then '-' :: Nat.toDigits 10 n.natAbs else Nat.toDigits 10 n.natAbs

def rangePrefix : List Char := "Range: bytes=".toList

/-- The range line of `http_get`. -/
def rangeHeader (firstbyte lastbyte : ℤ) : List Char :=
  rangePrefix ++ (decimal firstbyte ++ '-' :: if lastbyte ≠ 0 then decimal lastbyte else [])

/-- What a server with `size` bytes is asked for. -/
def requestedRange (size firstbyte lastbyte : ℤ) : Range :=
  ⟨firstbyte, if lastbyte ≠ 0 then lastbyte else size - 1⟩

/-- The bytes that the part of a range line behind the prefix denotes in a file of `size` bytes. -/
def denotedSpec (size : ℤ) (spec : List Char) : Option Range :=
  let first := spec.takeWhile Char.isDigit
  let last := (spec.dropWhile Char.isDigit).tail
  if first ≠ [] ∧ (spec.dropWhile Char.isDigit).head? = some '-' ∧ last.all Char.isDigit then
    some ⟨Nat.ofDigitChars 10 first 0,
      if last = [] then size - 1 else min (Nat.ofDigitChars 10 last 0) (size - 1)⟩
  else none

def denotedRange (size : ℤ) (text : List Char) : Option Range :=
  if rangePrefix <+: text then denotedSpec size (text.drop rangePrefix.length) else none

lemma isDigit_toDigits (n : ℕ) : ∀ c ∈ Nat.toDigits 10 n, c.isDigit :=
  fun _ hc => Nat.isDigit_of_mem_toDigits (by omega) (by omega) hc

lemma takeWhile_digits (n : ℕ) (cs : List Char) :
    (Nat.toDigits 10 n ++ '-' :: cs).takeWhile Char.isDigit = Nat.toDigits 10 n := by
  rw [List.takeWhile_append_of_pos (isDigit_toDigits n)]
  simp

lemma dropWhile_digits (n : ℕ) (cs : List Char) :
    (Nat.toDigits 10 n ++ '-' :: cs).dropWhile Char.isDigit = '-' :: cs := by
  rw [List.dropWhile_append_of_pos (isDigit_toDigits n)]
  simp

lemma decimal_of_nonneg {n : ℤ} (hn : 0 ≤ n) : decimal n = Nat.toDigits 10 n.natAbs := by
  rw [decimal, if_neg (by omega)]

lemma ofDigitChars_decimal {n : ℤ} (hn : 0 ≤ n) :
    (Nat.ofDigitChars 10 (Nat.toDigits 10 n.natAbs) 0 : ℤ) = n := by
  rw [Nat.ofDigitChars_ten_toDigits]
  omega

/-- The line of `http_get` denotes the bytes asked for, but for a last byte of 0, which it takes for
the end of the file. -/
lemma denotedRange_rangeHeader {size a b : ℤ} (ha : 0 ≤ a) (hb : 0 ≤ b) :
    denotedRange size (rangeHeader a b) =
      some ⟨a, if b ≠ 0 then min b (size - 1) else size - 1⟩ := by
  rw [denotedRange, rangeHeader, if_pos (List.prefix_append _ _), List.drop_left, denotedSpec,
    decimal_of_nonneg ha]
  simp only [takeWhile_digits, dropWhile_digits, List.head?_cons, List.tail_cons,
    ofDigitChars_decimal ha]
  by_cases h : b = 0
  · simp [h, Nat.toDigits_ne_nil]
  · rw [if_pos h, decimal_of_nonneg hb, if_pos, if_neg Nat.toDigits_ne_nil, if_pos h,
      ofDigitChars_decimal hb]
    exact ⟨Nat.toDigits_ne_nil, trivial, List.all_eq_true.mpr (isDigit_toDigits _)⟩

end GreenBag
