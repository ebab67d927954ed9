import Mathlib.Tactic

/-! Base64: three bytes are four characters of an alphabet of 64, and `=` fills up the last four. -/

namespace GreenBag.Base64

def char (n : ℕ) : UInt8 :=
  if n < 26 then UInt8.ofNat (65 + n)
  else if n < 52 then UInt8.ofNat (71 + n)
  else if n < 62 then UInt8.ofNat (n - 4)
  else if n = 62 then 43
  else 47

def value (c : UInt8) : Option ℕ :=
  if 65 ≤ c ∧ c ≤ 90 then some (c.toNat - 65)
  else if 97 ≤ c ∧ c ≤ 122 then some (c.toNat - 71)
  else if 48 ≤ c ∧ c ≤ 57 then some (c.toNat + 4)
  else if c = 43 then some 62
  else if c = 47 then some 63
  else none

/-- The number of three bytes. -/
def word (a b c : UInt8) : ℕ := a.toNat * 65536 + b.toNat * 256 + c.toNat

def quad (n : ℕ) : List UInt8 :=
  [char (n / 262144), char (n / 4096 % 64), char (n / 64 % 64), char (n % 64)]

def encode : List UInt8 → List UInt8
  | a :: b :: c :: rest => quad (word a b c) ++ encode rest
  | [a, b] => (quad (word a b 0)).take 3 ++ [61]
  | [a] => (quad (word a 0 0)).take 2 ++ [61, 61]
  | [] => []

/-- The number of four characters. -/
def unquad (w x y z : UInt8) : Option ℕ := do
  let i ← value w
  let j ← value x
  let k ← value y
  let l ← value z
  return i * 262144 + j * 4096 + k * 64 + l

def bytes (n : ℕ) : List UInt8 := [UInt8.ofNat (n / 65536), UInt8.ofNat (n / 256), UInt8.ofNat n]

def decode : List UInt8 → Option (List UInt8)
  | [] => some []
  | w :: x :: y :: z :: rest =>
    if z = 61 ∧ rest = [] then
      if y = 61 then (unquad w x 65 65).map fun n => (bytes n).take 1
      else (unquad w x y 65).map fun n => (bytes n).take 2
    else do
      let n ← unquad w x y z
      let more ← decode rest
      return bytes n ++ more
  | _ => none

variable {a b c : UInt8} {n : ℕ} {s : List UInt8}

lemma value_char (hn : n < 64) : value (char n) = some n := by
  have hall : ∀ n < 64, value (char n) = some n := by decide +kernel
  exact hall n hn

lemma char_ne_pad (hn : n < 64) : char n ≠ 61 := fun h => by
  have hv := value_char hn
  rw [h] at hv
  cases hv

lemma word_lt (a b c : UInt8) : word a b c < 16777216 := by
  have ha := a.toNat_lt
  have hb := b.toNat_lt
  have hc := c.toNat_lt
  rw [word]
  omega

lemma unquad_char (hn : n < 16777216) :
    unquad (char (n / 262144)) (char (n / 4096 % 64)) (char (n / 64 % 64)) (char (n % 64)) = some n := by
  rw [unquad, value_char (by omega), value_char (by omega), value_char (by omega), value_char (by omega)]
  show some (n / 262144 * 262144 + n / 4096 % 64 * 4096 + n / 64 % 64 * 64 + n % 64) = some n
  congr 1
  omega

lemma bytes_word (a b c : UInt8) : bytes (word a b c) = [a, b, c] := by
  have ha := a.toNat_lt
  have hb := b.toNat_lt
  have hc := c.toNat_lt
  have hmod : ∀ (x : UInt8) (m : ℕ), m % 256 = x.toNat → UInt8.ofNat m = x := fun x m hm => by
    apply UInt8.toNat_inj.mp
    rw [UInt8.toNat_ofNat']
    exact hm
  rw [bytes, hmod a, hmod b, hmod c] <;> rw [word] <;> omega

/-- Decoding gives back what was encoded. -/
theorem decode_encode (s : List UInt8) : decode (encode s) = some s := by
  induction s using encode.induct with
  | case1 a b c rest ih =>
    have hn := word_lt a b c
    have hz : ¬ (char (word a b c % 64) = 61 ∧ encode rest = []) :=
      fun h => char_ne_pad (by omega) h.1
    rw [encode, quad]
    simp only [List.cons_append, List.nil_append]
    rw [decode, if_neg hz, unquad_char hn, ih]
    show some (bytes (word a b c) ++ rest) = _
    rw [bytes_word]
    rfl
  | case2 a b =>
    have hn := word_lt a b 0
    have hlast : word a b 0 % 64 = 0 := by
      rw [word, UInt8.toNat_zero]
      omega
    have hquad := unquad_char hn
    rw [hlast] at hquad
    rw [encode, quad, List.take_succ_cons, List.take_succ_cons, List.take_succ_cons, List.take_zero]
    simp only [List.cons_append, List.nil_append]
    rw [decode, if_pos ⟨rfl, rfl⟩, if_neg (char_ne_pad (by omega))]
    have hA : char 0 = 65 := rfl
    rw [← hA, hquad, Option.map_some, bytes_word]
    rfl
  | case3 a =>
    have hn := word_lt a 0 0
    have hlast : word a 0 0 % 64 = 0 ∧ word a 0 0 / 64 % 64 = 0 := by
      rw [word, UInt8.toNat_zero]
      omega
    have hquad := unquad_char hn
    rw [hlast.1, hlast.2] at hquad
    rw [encode, quad, List.take_succ_cons, List.take_succ_cons, List.take_zero]
    simp only [List.cons_append, List.nil_append]
    rw [decode, if_pos ⟨rfl, rfl⟩, if_pos rfl]
    have hA : char 0 = 65 := rfl
    rw [← hA, hquad, Option.map_some, bytes_word]
    rfl
  | case4 => rfl

lemma length_encode (s : List UInt8) : (encode s).length = (s.length + 2) / 3 * 4 := by
  induction s using encode.induct with
  | case1 a b c rest ih =>
    rw [encode, List.length_append, ih]
    simp only [quad, List.length_cons, List.length_nil]
    omega
  | case2 a b => simp [encode, quad]
  | case3 a => simp [encode, quad]
  | case4 => rfl

lemma char_ne_nul (n : ℕ) : char n ≠ 0 := by
  by_cases hn : n < 64
  · intro h
    have hv := value_char hn
    rw [h] at hv
    cases hv
  · rw [char, if_neg (by omega), if_neg (by omega), if_neg (by omega), if_neg (by omega)]
    decide

lemma nul_not_mem_encode (s : List UInt8) : 0 ∉ encode s := by
  have hquad : ∀ n, 0 ∉ quad n := fun n h => by
    simp only [quad, List.mem_cons, List.not_mem_nil, or_false] at h
    rcases h with h | h | h | h <;> exact char_ne_nul _ h.symm
  induction s using encode.induct with
  | case1 a b c rest ih =>
    rw [encode, List.mem_append, not_or]
    exact ⟨hquad _, ih⟩
  | case2 a b =>
    rw [encode, List.mem_append, not_or]
    exact ⟨fun h => hquad _ (List.mem_of_mem_take h), by decide⟩
  | case3 a =>
    rw [encode, List.mem_append, not_or]
    exact ⟨fun h => hquad _ (List.mem_of_mem_take h), by decide⟩
  | case4 => simp [encode]

end GreenBag.Base64
