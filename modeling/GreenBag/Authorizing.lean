import GreenBag.Base64
import GreenBag.Buffers
import GreenBag.Urls

/-! `http_connect`: the name and the password of a user, in Base64. -/

namespace GreenBag

open Programs Buffers

/-- The local buffer, and those of the connection. -/
inductive AuthBuffer
  | auth
  | connAuth
  | connHost
  deriving DecidableEq

abbrev AuthProgram := BufferProgram AuthBuffer

def base64Encode : List UInt8 :=
  text "ABCDEFGHIJKLMNOPQRSTUVWXYZabcdefghijklmnopqrstuvwxyz0123456789+/"

/-- The type `char` is signed on some platforms. -/
def promote (signed : Bool) (b : UInt8) : BitVec 32 :=
  if signed then b.toBitVec.signExtend 32 else b.toBitVec.setWidth 32

/-- A character of the table; there is none at a negative index. -/
def encodeSextet (i : BitVec 32) : AuthProgram UInt8 :=
  demand .outOfBounds (if i.msb then none else base64Encode[i.toNat]?)

/-- A round of the loop, with `i`. -/
def encodeGroup (signed : Bool) (i : ℕ) : AuthProgram (ℕ ⊕ Unit) := do
  let first ← fetch .auth (i * 3)
  if first = 0 then return .inr ()
  else
    let second ← fetch .auth (i * 3 + 1)
    let third ← fetch .auth (i * 3 + 2)
    let a := promote signed first
    let b := promote signed second
    let c := promote signed third
    let c₀ ← encodeSextet (a.sshiftRight 2)
    store .connAuth (i * 4) c₀
    let c₁ ← encodeSextet ((a &&& 3) <<< 4 ||| b.sshiftRight 4)
    store .connAuth (i * 4 + 1) c₁
    let c₂ ← encodeSextet ((b &&& 15) <<< 2 ||| c.sshiftRight 6)
    store .connAuth (i * 4 + 2) c₂
    let c₃ ← encodeSextet (c &&& 63)
    store .connAuth (i * 4 + 3) c₃
    whenever (third = 0) (store .connAuth (i * 4 + 3) 61)
    whenever (second = 0) (store .connAuth (i * 4 + 2) 61)
    return .inl (i + 1)

/-- `fd` is what `tcp_connect` returns. -/
def httpConnect (signed : Bool) (rounds : ℕ) (fd : ℤ) (host user pass : List UInt8) : AuthProgram ℤ := do
  storeAll .connHost 0 ((host ++ List.replicate maxString 0).take maxString)
  if fd = -1 then return 0
  else if user = [] then
    store .connAuth 0 0
    return 1
  else
    storeAll .auth 0 (List.replicate maxString 0)
    strcpy .auth 0 (snprintf (user ++ 58 :: pass))
    loop .endless (encodeGroup signed) rounds 0
    return 1

/-- The table has a character for each of the bytes. -/
def Plain (signed : Bool) (s : List UInt8) : Prop := signed = true → ∀ b ∈ s, b < 128

/-- The four characters for three bytes, where a NUL stands for a missing one. -/
def group (a b c : UInt8) : List UInt8 :=
  let n := Base64.word a b c
  [Base64.char (n / 262144), Base64.char (n / 4096 % 64),
    if b = 0 then 61 else Base64.char (n / 64 % 64), if c = 0 then 61 else Base64.char (n % 64)]

section

variable {signed : Bool} {s pre more l prev user pass host : List UInt8} {a b c : UInt8} {i n rounds : ℕ} {fd : ℤ}
  {m : Memory AuthBuffer} {ix : BitVec 32}

lemma encode_cons (h0 : 0 ∉ a :: more) : Base64.encode (a :: more) =
    group a ((more[0]?).getD 0) ((more[1]?).getD 0) ++ Base64.encode (more.drop 2) := by
  match more with
  | [] => rfl
  | [b] =>
    have hb : b ≠ 0 := fun h => h0 (by simp [h])
    simp [Base64.encode, Base64.quad, group, hb]
  | b :: c :: rest =>
    have hb : b ≠ 0 := fun h => h0 (by simp [h])
    have hc : c ≠ 0 := fun h => h0 (by simp [h])
    simp [Base64.encode, Base64.quad, group, hb, hc]

lemma base64Encode_getElem? (hn : n < 64) : base64Encode[n]? = some (Base64.char n) := by
  have hall : ∀ n < 64, base64Encode[n]? = some (Base64.char n) := by decide +kernel
  exact hall n hn

lemma wp_encodeSextet {post : UInt8 → Memory AuthBuffer → Prop} {crash : BufferFault → Memory AuthBuffer → Prop}
    (hn : n < 64) (hix : ix = BitVec.ofNat 32 n) :
    wp (encodeSextet ix) post crash m ↔ post (Base64.char n) m := by
  have hmsb : (BitVec.ofNat 32 n).msb = false := by
    rw [BitVec.msb_eq_decide, BitVec.toNat_ofNat]
    simp
    omega
  have htoNat : (BitVec.ofNat 32 n).toNat = n := by
    rw [BitVec.toNat_ofNat]
    omega
  rw [encodeSextet, hix, hmsb, htoNat, base64Encode_getElem? hn]
  rfl

lemma wp_encodeSextet_negative {post : UInt8 → Memory AuthBuffer → Prop}
    {crash : BufferFault → Memory AuthBuffer → Prop} (hix : ix.msb = true) :
    wp (encodeSextet ix) post crash m ↔ crash .outOfBounds m := by
  rw [encodeSextet, hix]
  rfl

lemma promote_plain (h : signed = true → b < 128) : promote signed b = BitVec.ofNat 32 b.toNat := by
  have hset : b.toBitVec.setWidth 32 = BitVec.ofNat 32 b.toNat := BitVec.eq_of_toNat_eq (by simp)
  cases signed with
  | false => exact hset
  | true =>
    have hb := UInt8.lt_iff_toNat_lt.mp (h rfl)
    have hmsb : b.toBitVec.msb = false := by
      rw [BitVec.msb_eq_decide]
      simpa using hb
    rw [promote, if_pos rfl, BitVec.signExtend_eq_setWidth_of_msb_false hmsb, hset]

lemma promote_negative (h : ¬ (signed = true → b < 128)) : (promote signed b).msb = true := by
  rw [Classical.not_imp] at h
  obtain ⟨hs, hb⟩ := h
  have hb' : 128 ≤ b.toNat := by
    rw [UInt8.lt_iff_toNat_lt] at hb
    simpa using hb
  rw [promote, if_pos hs, BitVec.msb_signExtend, BitVec.msb_eq_decide]
  simpa using hb'

lemma first_sextet (hn : n < 256) : (BitVec.ofNat 32 n).sshiftRight 2 = BitVec.ofNat 32 (n / 4) := by
  have hall : ∀ n < 256, (BitVec.ofNat 32 n).sshiftRight 2 = BitVec.ofNat 32 (n / 4) := by decide +kernel
  exact hall n hn

lemma second_sextet {k : ℕ} (hn : n < 256) (hk : k < 256) :
    (BitVec.ofNat 32 n &&& 3) <<< 4 ||| (BitVec.ofNat 32 k).sshiftRight 4 =
      BitVec.ofNat 32 (n % 4 * 16 + k / 16) := by
  have hleft : ∀ n < 256, (BitVec.ofNat 32 n &&& 3) <<< 4 = BitVec.ofNat 32 (n % 4 * 16) := by decide +kernel
  have hright : ∀ k < 256, (BitVec.ofNat 32 k).sshiftRight 4 = BitVec.ofNat 32 (k / 16) := by decide +kernel
  have hor : ∀ x < 4, ∀ y < 16, BitVec.ofNat 32 (x * 16) ||| BitVec.ofNat 32 y = BitVec.ofNat 32 (x * 16 + y) := by
    decide +kernel
  rw [hleft n hn, hright k hk, hor _ (by omega) _ (by omega)]

lemma third_sextet {k : ℕ} (hn : n < 256) (hk : k < 256) :
    (BitVec.ofNat 32 n &&& 15) <<< 2 ||| (BitVec.ofNat 32 k).sshiftRight 6 =
      BitVec.ofNat 32 (n % 16 * 4 + k / 64) := by
  have hleft : ∀ n < 256, (BitVec.ofNat 32 n &&& 15) <<< 2 = BitVec.ofNat 32 (n % 16 * 4) := by decide +kernel
  have hright : ∀ k < 256, (BitVec.ofNat 32 k).sshiftRight 6 = BitVec.ofNat 32 (k / 64) := by decide +kernel
  have hor : ∀ x < 16, ∀ y < 4, BitVec.ofNat 32 (x * 4) ||| BitVec.ofNat 32 y = BitVec.ofNat 32 (x * 4 + y) := by
    decide +kernel
  rw [hleft n hn, hright k hk, hor _ (by omega) _ (by omega)]

lemma fourth_sextet (hn : n < 256) : BitVec.ofNat 32 n &&& 63 = BitVec.ofNat 32 (n % 64) := by
  have hall : ∀ n < 256, BitVec.ofNat 32 n &&& 63 = BitVec.ofNat 32 (n % 64) := by decide +kernel
  exact hall n hn

lemma negative_or {x y : BitVec 32} {k : ℕ} (hy : y.msb = true) : (x ||| y.sshiftRight k).msb = true := by
  rw [BitVec.msb_or, BitVec.msb_sshiftRight, hy, Bool.or_true]

/-- The last two of four characters that were written are written again. -/
lemma set_third (l : List UInt8) (j : ℕ) (w x y y' z : UInt8) :
    (overwrite l j [w, x, y, z]).set (j + 2) y' = overwrite l j [w, x, y', z] := by
  simp only [overwrite]
  rw [List.set_comm _ _ (by omega), List.set_set]

lemma set_fourth (l : List UInt8) (j : ℕ) (w x y z z' : UInt8) :
    (overwrite l j [w, x, y, z]).set (j + 3) z' = overwrite l j [w, x, y, z'] := by
  simp only [overwrite]
  rw [List.set_set]

/-- A round either writes a group, or it has met a negative character. -/
lemma wp_encodeGroup {post : ℕ ⊕ Unit → Memory AuthBuffer → Prop} {crash : BufferFault → Memory AuthBuffer → Prop}
    (ha : (m .auth)[i * 3]? = some a) (hb : (m .auth)[i * 3 + 1]? = some b)
    (hc : (m .auth)[i * 3 + 2]? = some c) (ha0 : a ≠ 0) (hi : i * 4 + 4 ≤ (m .connAuth).length)
    (hpost : Plain signed [a, b, c] → post (.inl (i + 1))
      (Function.update m .connAuth (overwrite (m .connAuth) (i * 4) (group a b c))))
    (hcrash : ¬ Plain signed [a, b, c] → ∀ m', crash .outOfBounds m') :
    wp (encodeGroup signed i) post crash m := by
  have hlt := a.toNat_lt
  have hlt' := b.toNat_lt
  have hlt'' := c.toNat_lt
  have hplain : Plain signed [a, b, c] ↔
      (signed = true → a < 128) ∧ (signed = true → b < 128) ∧ (signed = true → c < 128) := by
    simp only [Plain, List.mem_cons, List.not_mem_nil, or_false, forall_eq_or_imp, forall_eq]
    tauto
  rw [encodeGroup, wp_bind, wp_fetch ha, wp_ite]
  refine ⟨fun hn => absurd hn ha0, fun _ => ?_⟩
  rw [wp_bind, wp_fetch hb, wp_bind, wp_fetch hc, wp_bind]
  by_cases hpa : signed = true → a < 128
  swap
  · have hneg := promote_negative hpa
    rw [wp_encodeSextet_negative (by rwa [BitVec.msb_sshiftRight])]
    exact hcrash (fun h => hpa (hplain.mp h).1) _
  rw [promote_plain hpa, wp_encodeSextet (by omega) (first_sextet hlt), wp_bind, wp_store (by omega), wp_bind]
  by_cases hpb : signed = true → b < 128
  swap
  · rw [wp_encodeSextet_negative (negative_or (promote_negative hpb))]
    exact hcrash (fun h => hpb (hplain.mp h).2.1) _
  rw [promote_plain hpb, wp_encodeSextet (by omega) (second_sextet hlt hlt'), wp_bind,
    wp_store_update (by rw [List.length_set]; omega), wp_bind]
  by_cases hpc : signed = true → c < 128
  swap
  · rw [wp_encodeSextet_negative (negative_or (promote_negative hpc))]
    exact hcrash (fun h => hpc (hplain.mp h).2.2) _
  rw [promote_plain hpc, wp_encodeSextet (by omega) (third_sextet hlt' hlt''), wp_bind,
    wp_store_update (by simp only [List.length_set]; omega), wp_bind,
    wp_encodeSextet (by omega) (fourth_sextet hlt''), wp_bind,
    wp_store_update (by simp only [List.length_set]; omega), wp_bind, wp_whenever]
  have hword : group a b c = [Base64.char (a.toNat / 4), Base64.char (a.toNat % 4 * 16 + b.toNat / 16),
      if b = 0 then 61 else Base64.char (b.toNat % 16 * 4 + c.toNat / 64),
      if c = 0 then 61 else Base64.char (c.toNat % 64)] := by
    have h₁ : Base64.word a b c / 262144 = a.toNat / 4 := by
      rw [Base64.word]
      omega
    have h₂ : Base64.word a b c / 4096 % 64 = a.toNat % 4 * 16 + b.toNat / 16 := by
      rw [Base64.word]
      omega
    have h₃ : Base64.word a b c / 64 % 64 = b.toNat % 16 * 4 + c.toNat / 64 := by
      rw [Base64.word]
      omega
    have h₄ : Base64.word a b c % 64 = c.toNat % 64 := by
      rw [Base64.word]
      omega
    rw [group, h₁, h₂, h₃, h₄]
  have hlast := hpost (hplain.mpr ⟨hpa, hpb, hpc⟩)
  rw [hword] at hlast
  have hwrote : ∀ w x y z, ((((m .connAuth).set (i * 4) w).set (i * 4 + 1) x).set (i * 4 + 2) y).set
      (i * 4 + 3) z = overwrite (m .connAuth) (i * 4) [w, x, y, z] := fun _ _ _ _ => rfl
  have hlen : ∀ bs, i * 4 + 3 < (overwrite (m .connAuth) (i * 4) bs).length := fun bs => by
    rw [length_overwrite]
    omega
  rw [hwrote]
  refine ⟨fun hc0 => ?_, fun hc0 => ?_⟩
  · rw [wp_store_update (hlen _), set_fourth, wp_bind, wp_whenever]
    rw [if_pos hc0] at hlast
    refine ⟨fun hb0 => ?_, fun hb0 => ?_⟩
    · rw [if_pos hb0] at hlast
      rwa [wp_store_update ((Nat.lt_succ_self _).trans (hlen _)), set_third, wp_pure]
    · rw [if_neg hb0] at hlast
      rwa [wp_pure]
  · rw [wp_bind, wp_whenever]
    rw [if_neg hc0] at hlast
    refine ⟨fun hb0 => ?_, fun hb0 => ?_⟩
    · rw [if_pos hb0] at hlast
      rwa [wp_store_update ((Nat.lt_succ_self _).trans (hlen _)), set_third, wp_pure]
    · rw [if_neg hb0] at hlast
      rwa [wp_pure]

/-- The loop has encoded `i` groups, and so many characters are to come. -/
structure Authorizing (signed : Bool) (s prev : List UInt8) (n i : ℕ) (m : Memory AuthBuffer) : Prop where
  auth : ∀ j < maxString, (m .auth)[j]? = some ((s[j]?).getD 0)
  length : (m .connAuth).length = maxString
  index : i * 3 ≤ s.length + 2
  left : n = s.length - i * 3
  plain : Plain signed (s.take (i * 3))
  out : (m .connAuth).take (i * 4) ++ Base64.encode (s.drop (i * 3)) = Base64.encode s
  rest : ∀ j, i * 4 ≤ j → (m .connAuth)[j]? = prev[j]?

/-- What the loop leaves behind the last group is what was there. -/
structure Authorized (signed : Bool) (s prev : List UInt8) (m : Memory AuthBuffer) : Prop where
  plain : Plain signed s
  out : (m .connAuth).take (Base64.encode s).length = Base64.encode s
  rest : ∀ j, (Base64.encode s).length ≤ j → (m .connAuth)[j]? = prev[j]?

lemma getD_mem (j : ℕ) : (s[j]?).getD 0 ∈ s ∨ (s[j]?).getD 0 = 0 := by
  by_cases hj : j < s.length
  · rw [List.getElem?_eq_getElem hj]
    exact .inl (List.getElem_mem hj)
  · rw [List.getElem?_eq_none (by omega)]
    exact .inr rfl

lemma plain_group (h : Plain signed (a :: more)) : Plain signed [a, (more[0]?).getD 0, (more[1]?).getD 0] := by
  intro hs b hb
  have hget : ∀ j : ℕ, (more[j]?).getD 0 < (128 : UInt8) := fun j => by
    rcases getD_mem (s := more) j with hm | h0
    · exact h hs _ (List.mem_cons_of_mem a hm)
    · rw [h0]
      decide
  simp only [List.mem_cons, List.not_mem_nil, or_false] at hb
  rcases hb with rfl | rfl | rfl
  · exact h hs _ List.mem_cons_self
  · exact hget 0
  · exact hget 1

lemma mem_of_mem_take_three (hb : b ∈ (a :: more).take 3) :
    b ∈ [a, (more[0]?).getD 0, (more[1]?).getD 0] := by
  match more with
  | [] => exact List.mem_append_left [0, 0] hb
  | [x] => exact List.mem_append_left [0] hb
  | x :: y :: more => exact hb

lemma Authorizing.wp_encodeGroup (hlen : s.length ≤ 765) (h0 : 0 ∉ s) (h : Authorizing signed s prev n i m) :
    wp (encodeGroup signed i) (Programs.Round (Authorizing signed s prev) (fun _ => Authorized signed s prev) n)
      (fun _ _ => ¬ Plain signed s) m := by
  obtain ⟨hauth, hconn, hindex, rfl, hplain, hout, hrest⟩ := h
  have hmax : maxString = 1024 := rfl
  cases hdrop : s.drop (i * 3) with
  | nil =>
    have hle := List.drop_eq_nil_iff.mp hdrop
    have hfetch := hauth (i * 3) (by omega)
    rw [List.getElem?_eq_none hle, Option.getD_none] at hfetch
    rw [hdrop, Base64.encode, List.append_nil] at hout
    have hcount := congrArg List.length hout
    rw [List.length_take, hconn] at hcount
    have hi : (Base64.encode s).length = i * 4 := by omega
    rw [encodeGroup, wp_bind, wp_fetch hfetch, if_pos rfl, wp_pure]
    rw [List.take_of_length_le hle] at hplain
    exact ⟨hplain, by rwa [hi], fun j hj => hrest j (by omega)⟩
  | cons a more =>
    have hlt : i * 3 < s.length := by
      have hl := congrArg List.length hdrop
      rw [List.length_drop, List.length_cons] at hl
      omega
    have hget : ∀ j, s[i * 3 + j]? = (a :: more)[j]? := fun j => by rw [← hdrop, List.getElem?_drop]
    have hmem : ∀ b ∈ a :: more, b ∈ s := fun b hb => List.mem_of_mem_drop (hdrop ▸ hb)
    have h0' : 0 ∉ a :: more := fun hm => h0 (hmem 0 hm)
    apply GreenBag.wp_encodeGroup (a := a) (b := (more[0]?).getD 0) (c := (more[1]?).getD 0)
    · rw [hauth _ (by omega), ← Nat.add_zero (i * 3), hget 0]
      rfl
    · rw [hauth _ (by omega), hget 1]
      rfl
    · rw [hauth _ (by omega), hget 2]
      rfl
    · exact fun ha => h0' (by simp [ha])
    · omega
    · intro hgroup
      have hroom : i * 4 + (group a ((more[0]?).getD 0) ((more[1]?).getD 0)).length ≤ (m .connAuth).length := by
        show i * 4 + 4 ≤ _
        omega
      have hnext : s.drop ((i + 1) * 3) = more.drop 2 := by
        rw [Nat.add_mul, one_mul, ← List.drop_drop, hdrop]
        rfl
      have htake : s.take ((i + 1) * 3) = s.take (i * 3) ++ (a :: more).take 3 := by
        rw [Nat.add_mul, one_mul, List.take_add, hdrop]
      refine ⟨s.length - (i + 1) * 3, by omega, hauth, ?_, by omega, rfl, ?_, ?_, fun j hj => ?_⟩
      · rw [Function.update_self, length_overwrite, hconn]
      · intro hs b hb
        rw [htake, List.mem_append] at hb
        exact hb.elim (hplain hs b) fun hb => hgroup hs b (mem_of_mem_take_three hb)
      · rw [Function.update_self, hnext, Nat.add_mul, one_mul]
        rw [hdrop, encode_cons h0', ← List.append_assoc, ← take_overwrite hroom] at hout
        exact hout
      · rw [Function.update_self, getElem?_overwrite]
        · exact hrest j (by omega)
        · show i * 4 + 4 ≤ j
          omega
    · exact fun hn _ hs => hn (plain_group fun hsig b hb => hs hsig b (hmem b hb))

/-- All buffers have the size of the string buffers. -/
abbrev AuthSized (m : Memory AuthBuffer) : Prop := Shaped (fun _ => maxString) m

lemma AuthSized.length (hm : AuthSized m) (x : AuthBuffer) : (m x).length = maxString := hm x

lemma AuthSized.wp_encodeSextet (hm : AuthSized m) :
    wp (encodeSextet ix) (fun _ => AuthSized) (fun _ _ => True) m := by
  rw [encodeSextet, wp_demand]
  exact ⟨fun _ _ => hm, fun _ => trivial⟩

lemma AuthSized.wp_encodeGroup (hm : AuthSized m) :
    wp (encodeGroup signed i) (fun _ => AuthSized) (fun _ _ => True) m := by
  apply wp_bind_keeps hm.wp_fetch
  intro first t ht
  rw [wp_ite]
  refine ⟨fun _ => ht, fun _ => ?_⟩
  apply wp_bind_keeps ht.wp_fetch
  intro second t ht
  apply wp_bind_keeps ht.wp_fetch
  intro third t ht
  apply wp_bind_keeps (AuthSized.wp_encodeSextet ht)
  intro _ t ht
  apply wp_bind_keeps ht.wp_store
  intro _ t ht
  apply wp_bind_keeps (AuthSized.wp_encodeSextet ht)
  intro _ t ht
  apply wp_bind_keeps ht.wp_store
  intro _ t ht
  apply wp_bind_keeps (AuthSized.wp_encodeSextet ht)
  intro _ t ht
  apply wp_bind_keeps ht.wp_store
  intro _ t ht
  apply wp_bind_keeps (AuthSized.wp_encodeSextet ht)
  intro _ t ht
  apply wp_bind_keeps ht.wp_store
  intro _ t ht
  apply wp_bind_keeps ((wp_whenever _ _).mpr ⟨fun _ => ht.wp_store, fun _ => ht⟩)
  intro _ t ht
  exact wp_bind_keeps ((wp_whenever _ _).mpr ⟨fun _ => ht.wp_store, fun _ => ht⟩) fun _ _ ht => ht

lemma AuthSized.wp_httpConnect (hm : AuthSized m) :
    wp (httpConnect signed rounds fd host user pass) (fun _ => AuthSized) (fun _ _ => True) m := by
  apply wp_bind_keeps hm.wp_storeAll
  intro _ t ht
  rw [wp_ite]
  refine ⟨fun _ => ht, fun _ => ?_⟩
  rw [wp_ite]
  refine ⟨fun _ => wp_bind_keeps ht.wp_store fun _ _ ht => ht, fun _ => ?_⟩
  apply wp_bind_keeps ht.wp_storeAll
  intro _ t ht
  apply wp_bind_keeps ht.wp_storeAll
  intro _ t ht
  apply wp_bind_keeps _ fun _ _ ht => ht
  exact wp_loop_keeps (fun _ _ => trivial) (fun _ _ ht => AuthSized.wp_encodeGroup ht) ht

lemma getElem?_copied (hl : l.length = maxString) (hs : s.length < maxString) {j : ℕ} (hj : j < maxString) :
    (overwrite (overwrite l 0 (List.replicate maxString 0)) 0 (s ++ [0]))[j]? = some ((s[j]?).getD 0) := by
  have hclear : overwrite l 0 (List.replicate maxString 0) = List.replicate maxString 0 := by
    rw [overwrite_eq (by simp [hl])]
    simp [hl]
  rw [hclear, overwrite_eq (by simpa using hs), List.take_zero, List.nil_append]
  by_cases hjs : j < s.length
  · rw [List.append_assoc, List.getElem?_append_left hjs, List.getElem?_eq_getElem hjs]
    rfl
  · have hnone : s[j]? = none := List.getElem?_eq_none (by omega)
    rw [List.append_assoc, List.getElem?_append_right (by omega), hnone]
    obtain ⟨k, rfl⟩ : ∃ k, j = s.length + k := ⟨j - s.length, by omega⟩
    rw [Nat.add_sub_cancel_left]
    cases k with
    | zero => rfl
    | succ k =>
      rw [List.singleton_append, List.getElem?_cons_succ, List.getElem?_drop, List.length_append,
        List.length_singleton, List.getElem?_replicate, if_pos (by omega)]
      rfl

lemma length_hostCopy : ((host ++ List.replicate maxString 0).take maxString).length = maxString := by
  rw [List.length_take, List.length_append, List.length_replicate]
  omega

/-- The host is stored first, and only then is the result of the connection looked at. -/
lemma wp_httpConnect_host {post : ℤ → Memory AuthBuffer → Prop} {crash : BufferFault → Memory AuthBuffer → Prop}
    (hm : AuthSized m)
    (h : ∀ m₁, AuthSized m₁ → m₁ .connAuth = m .connAuth → wp (do
      if fd = -1 then return 0
      else if user = [] then
        store .connAuth 0 0
        return 1
      else
        storeAll .auth 0 (List.replicate maxString 0)
        strcpy .auth 0 (snprintf (user ++ 58 :: pass))
        loop .endless (encodeGroup signed) rounds 0
        return 1) post crash m₁) :
    wp (httpConnect signed rounds fd host user pass) post crash m := by
  rw [httpConnect, wp_bind, wp_storeAll (by rw [length_hostCopy, hm.length, zero_add])]
  exact h _ (hm.update length_overwrite) (Function.update_of_ne (by decide) _ _)

lemma wp_httpConnect_failed (hm : AuthSized m) (hfd : fd = -1) :
    wp (httpConnect signed rounds fd host user pass) (fun _ m' => m' .connAuth = m .connAuth)
      (fun _ _ => False) m := by
  apply wp_httpConnect_host hm
  intro m₁ _ hconn
  rw [if_pos hfd]
  exact hconn

lemma wp_httpConnect_anonymous (hm : AuthSized m) (hfd : fd ≠ -1) (hu : user = []) :
    wp (httpConnect signed rounds fd host user pass) (fun _ m' => Holds (m' .connAuth) [])
      (fun _ _ => False) m := by
  apply wp_httpConnect_host hm
  intro m₁ hm₁ _
  have hpos : 0 < (m₁ .connAuth).length := by
    rw [hm₁.length]
    decide
  rw [if_neg hfd, if_pos hu, wp_bind, wp_store hpos, wp_pure, Function.update_self]
  exact holds_set List.take_zero hpos

lemma wp_httpConnect (hm : AuthSized m) (h0 : 0 ∉ user ++ 58 :: pass)
    (hlen : (user ++ 58 :: pass).length ≤ 765) (hfd : fd ≠ -1) (hu : user ≠ []) (hr : maxString ≤ rounds) :
    wp (httpConnect signed rounds fd host user pass)
      (fun _ m' => Authorized signed (user ++ 58 :: pass) (m .connAuth) m')
      (fun _ _ => ¬ Plain signed (user ++ 58 :: pass)) m := by
  have hmax : maxString = 1024 := rfl
  have hprint : snprintf (user ++ 58 :: pass) = user ++ 58 :: pass :=
    List.take_of_length_le (by omega)
  apply wp_httpConnect_host hm
  intro m₁ hm₁ hconn
  rw [if_neg hfd, if_neg hu, wp_bind]
  have hclear : AuthSized (Function.update m₁ .auth (overwrite (m₁ .auth) 0 (List.replicate maxString 0))) :=
    hm₁.update length_overwrite
  rw [wp_storeAll (by rw [List.length_replicate, hm₁.length, zero_add]), wp_bind,
    wp_strcpy (by rw [hclear.length, hprint]; omega), hprint, wp_bind]
  apply wp_loop (Authorizing signed (user ++ 58 :: pass) (m .connAuth))
    fun n i m' h => h.wp_encodeGroup hlen h0
  · refine ⟨fun j hj => ?_, ?_, by omega, rfl, fun _ b hb => by simp at hb, ?_, fun j _ => ?_⟩
    · rw [Function.update_self, Function.update_self]
      exact getElem?_copied (hm₁.length .auth) (by omega) hj
    · exact (hclear.update length_overwrite) .connAuth
    · simp
    · exact congrArg (fun l : List UInt8 => l[j]?) hconn
  · omega

lemma exists_authorized (hm : AuthSized m) (h0 : 0 ∉ user ++ 58 :: pass)
    (hlen : (user ++ 58 :: pass).length ≤ 765) (hfd : fd ≠ -1) (hu : user ≠ []) (hr : maxString ≤ rounds)
    (hplain : Plain signed (user ++ 58 :: pass)) :
    ∃ r m', httpConnect signed rounds fd host user pass m = .ok r m' ∧ AuthSized m' ∧
      Authorized signed (user ++ 58 :: pass) (m .connAuth) m' :=
  exists_of_wp (wp_mono (wp_and hm.wp_httpConnect (wp_httpConnect hm h0 hlen hfd hu hr))
    (fun _ _ h => h) fun _ _ h => h.2 hplain)

/-- The name and the password are left encoded just where the connection is made for a user with a name,
the table has their characters, and the encoding fits and meets a NUL that was there before. -/
theorem httpConnect_auth_iff (hm : AuthSized m) (hu : 0 ∉ user) (hp : 0 ∉ pass) (hr : maxString ≤ rounds) :
    (∃ r m' e, httpConnect signed rounds fd host user pass m = .ok r m' ∧ Holds (m' .connAuth) e ∧
      e = Base64.encode (user ++ 58 :: pass) ∧ Base64.decode e = some (user ++ 58 :: pass)) ↔
    if fd = -1 then Holds (m .connAuth) (Base64.encode (user ++ 58 :: pass))
    else user ≠ [] ∧ Plain signed (user ++ 58 :: pass) ∧
      (m .connAuth)[(Base64.encode (user ++ 58 :: pass)).length]? = some 0 := by
  have h0 : 0 ∉ user ++ 58 :: pass := by simp [hu, hp]
  have hmax : maxString = 1024 := rfl
  have hcount := Base64.length_encode (user ++ 58 :: pass)
  constructor
  · rintro ⟨r, m', e, hok, hheld, rfl, -⟩
    have hm' := ((wp_iff _).mp hm.wp_httpConnect).1 r m' hok
    have hfits := hheld.length_lt
    rw [AuthSized.length hm'] at hfits
    split_ifs with hfd
    · rwa [((wp_iff _).mp (wp_httpConnect_failed hm hfd)).1 r m' hok] at hheld
    · have hname : user ≠ [] := fun hnil => by
        have hnone := ((wp_iff _).mp (wp_httpConnect_anonymous hm hfd hnil)).1 r m' hok
        rw [← hnone.unique hheld] at hcount
        simp only [List.length_nil, List.length_append, List.length_cons] at hcount
        omega
      have hauth := ((wp_iff _).mp (wp_httpConnect hm h0 (by omega) hfd hname hr)).1 r m' hok
      refine ⟨hname, hauth.plain, ?_⟩
      rw [← hauth.rest _ le_rfl]
      exact (holds_iff.mp hheld).2.2
  · intro h
    split_ifs at h with hfd
    · obtain ⟨r, m', hok, hconn⟩ := exists_of_wp (wp_httpConnect_failed hm hfd)
      exact ⟨r, m', _, hok, by rwa [hconn], rfl, Base64.decode_encode _⟩
    · obtain ⟨hname, hplain, hnul⟩ := h
      have hfits : (Base64.encode (user ++ 58 :: pass)).length < (m .connAuth).length :=
        (List.getElem?_eq_some_iff.mp hnul).1
      rw [hm.length] at hfits
      obtain ⟨r, m', hok, -, hauth⟩ := exists_authorized hm h0 (by omega) hfd hname hr hplain
      refine ⟨r, m', _, hok, holds_iff.mpr ⟨Base64.nul_not_mem_encode _, hauth.out, ?_⟩, rfl,
        Base64.decode_encode _⟩
      rw [hauth.rest _ le_rfl, hnul]

end

/-- The buffers of a connection that was not used yet. -/
def clearBuffers : Memory AuthBuffer := fun _ => List.replicate maxString 0

lemma authSized_clearBuffers : AuthSized clearBuffers := fun _ => List.length_replicate

lemma getElem?_clearBuffers {j : ℕ} (hj : j < maxString) : (clearBuffers .connAuth)[j]? = some 0 := by
  rw [clearBuffers, List.getElem?_replicate, if_pos hj]

theorem httpConnect_auth_iff_of_aladdin :
    (∃ r m' e, httpConnect true maxString 3 (text "h") (text "Aladdin") (text "open") clearBuffers = .ok r m' ∧
      Holds (m' .connAuth) e ∧ e = Base64.encode (text "Aladdin" ++ 58 :: text "open") ∧
      Base64.decode e = some (text "Aladdin" ++ 58 :: text "open")) ↔
    if (3 : ℤ) = -1 then Holds (clearBuffers .connAuth) (Base64.encode (text "Aladdin" ++ 58 :: text "open"))
    else text "Aladdin" ≠ [] ∧ Plain true (text "Aladdin" ++ 58 :: text "open") ∧
      (clearBuffers .connAuth)[(Base64.encode (text "Aladdin" ++ 58 :: text "open")).length]? = some 0 :=
  httpConnect_auth_iff authSized_clearBuffers (by decide) (by decide) le_rfl

lemma plain_of_all {s : List UInt8} (h : s.all (· < 128) = true) : Plain true s := fun _ b hb => by
  simpa using List.all_eq_true.mp h b hb

/-- The second connection has a shorter user and password, and no NUL is written behind them. -/
theorem stale_auth_kept : ∃ r m,
    httpConnect true maxString 3 (text "h") (text "Aladdin") (text "open") clearBuffers = .ok r m ∧
      Holds (m .connAuth) (Base64.encode (text "Aladdin" ++ 58 :: text "open")) ∧
      ¬ ∃ r' m' e, httpConnect true maxString 3 (text "h") (text "a") (text "b") m = .ok r' m' ∧
        Holds (m' .connAuth) e ∧ e = Base64.encode (text "a" ++ 58 :: text "b") ∧
        Base64.decode e = some (text "a" ++ 58 :: text "b") := by
  have hplain : Plain true (text "Aladdin" ++ 58 :: text "open") := plain_of_all (by decide)
  obtain ⟨r, m, hok, hm, hauth⟩ := exists_authorized authSized_clearBuffers
    (by decide) (by decide) (by decide : (3 : ℤ) ≠ -1) (by decide) le_rfl hplain
  refine ⟨r, m, hok, holds_iff.mpr ⟨Base64.nul_not_mem_encode _, hauth.out, ?_⟩, ?_⟩
  · rw [hauth.rest _ le_rfl]
    exact getElem?_clearBuffers (by decide)
  · rintro ⟨r', m', e, hok', hheld, rfl, -⟩
    have hauth' := ((wp_iff _).mp (wp_httpConnect hm (by decide) (by decide) (by decide) (by decide)
      le_rfl)).1 r' m' hok'
    have hrest := hauth'.rest 4 (by decide)
    have hnul := (holds_iff.mp hheld).2.2
    have hold := congrArg (fun l : List UInt8 => l[4]?) hauth.out
    have h4 : (Base64.encode (text "a" ++ 58 :: text "b")).length = 4 := by decide
    rw [h4, hrest] at hnul
    simp only [List.getElem?_take] at hold
    rw [if_pos (by decide), hnul] at hold
    revert hold
    decide

end GreenBag
