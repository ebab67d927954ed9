import Mathlib.Data.Bool.AllAny
import GreenBag.Http

/-! Receiving a header block into its buffer: how much is read, and how much is stored. -/

namespace GreenBag

/-- MAX_QUERY, the size of `headers` and `request`. -/
def maxQuery : ℕ := 2048

/-- How a loop that reads a header block ends. -/
inductive HeaderRead
  | block (headers rest : List UInt8)
  | gone
  | overflow
  deriving DecidableEq, Repr

/-- The loop that reads a header block byte by byte; `i` counts the characters of the line. The last
argument of `strncat` is no bound on the string it appends to. -/
def readHeaders (i : ℕ) (headers : List UInt8) : List UInt8 → HeaderRead
  | [] => .gone
  | b :: bs =>
    if b = 13 then readHeaders i headers bs
    else if b = 10 ∧ i = 0 then .block headers bs
    else if b = 0 then readHeaders (i + 1) headers bs
    else if headers.length + 2 ≤ maxQuery then
      readHeaders (if b = 10 then 0 else i + 1) (headers ++ [b]) bs
    else .overflow

/-- The loop of `gb_receive_http_header_response`. -/
def gbReceiveHeaders (stream : List UInt8) : HeaderRead := readHeaders 0 [] stream

/-- The loop of `http_exec`. -/
def httpExecHeaders (stream : List UInt8) : HeaderRead := readHeaders 0 [] stream

inductive HeaderFault
  | overflow
  | nullPointer
  deriving DecidableEq, Repr

/-- What `http_exec` leaves of a response: `headers`, the first line in `request`, and the status. -/
structure Reply where
  headers : List UInt8
  request : List UInt8
  status : ℤ
  rest : List UInt8
  deriving DecidableEq, Repr

/-- `http_exec` once the request is sent; nothing where the connection is gone. -/
def httpExecReply (status : ℤ) (stream : List UInt8) : Except HeaderFault (Option Reply) :=
  match httpExecHeaders stream with
  | .overflow => .error .overflow
  | .gone => .ok none
  | .block headers rest =>
    if 10 ∈ headers then
      let first := headers.takeWhile (· ≠ 10)
      if first.length + 1 ≤ maxQuery then
        .ok (some ⟨headers, first, (scanStatus headers).getD status, rest⟩)
      else .error .overflow
    else .error .nullPointer

/-- What is stored of what is read. -/
def stored (p : List UInt8) : List UInt8 := p.filter fun b => b ≠ 13 ∧ b ≠ 0

/-- The last line of the text is empty, but for carriage returns; with `fresh` it may be the only
one. -/
def EndsEmpty (fresh : Prop) (p : List UInt8) : Prop :=
  ∃ a l, p = a ++ l ++ [10] ∧ (a = [] ∧ fresh ∨ a.getLast? = some 10) ∧ ∀ b ∈ l, b = 13

/-- What comes before the first empty line fits the buffer, with a terminator. -/
def Fits (stream : List UInt8) : Prop :=
  ∀ p, p <+: stream → (∀ q, q <+: p → ¬ EndsEmpty True q) → (stored p).length < maxQuery

/-- The shortest start of the stream that ends with an empty line. -/
structure HeaderPart (fresh : Prop) (stream p : List UInt8) : Prop where
  pre : p <+: stream
  ends : EndsEmpty fresh p
  least : ∀ q, q <+: p → EndsEmpty fresh q → q = p

section

variable {fresh : Prop} {b : UInt8} {p q stream : List UInt8}

lemma not_endsEmpty_nil : ¬ EndsEmpty fresh [] := by
  rintro ⟨a, l, h, -⟩
  simp at h

lemma endsEmpty_return_iff : EndsEmpty fresh (13 :: p) ↔ EndsEmpty fresh p := by
  constructor
  · rintro ⟨_ | ⟨c, a⟩, l, h, ha, hl⟩
    · obtain ⟨-, hf⟩ | hn := ha
      · cases l with
        | nil => simp at h
        | cons d l =>
          obtain ⟨rfl, rfl⟩ := List.cons.inj h
          exact ⟨[], l, rfl, .inl ⟨rfl, hf⟩, fun b hb => hl b (List.mem_cons_of_mem _ hb)⟩
      · cases hn
    · obtain ⟨rfl, rfl⟩ := List.cons.inj h
      obtain ⟨hn, -⟩ | hlast := ha
      · cases hn
      · cases a with
        | nil => simp at hlast
        | cons d a => exact ⟨d :: a, l, rfl, .inr (by simpa using hlast), hl⟩
  · rintro ⟨a, l, rfl, ⟨rfl, hf⟩ | hlast, hl⟩
    · exact ⟨[], 13 :: l, rfl, .inl ⟨rfl, hf⟩, List.forall_mem_cons.mpr ⟨rfl, hl⟩⟩
    · cases a with
      | nil => cases hlast
      | cons d a => exact ⟨13 :: d :: a, l, rfl, .inr (by simpa using hlast), hl⟩

/-- Behind a character that is not a carriage return, the line is empty only if that ended the line
before. -/
lemma endsEmpty_cons_iff (hb : b ≠ 13) :
    EndsEmpty fresh (b :: p) ↔ (b = 10 ∧ fresh ∧ p = []) ∨ EndsEmpty (b = 10) p := by
  constructor
  · rintro ⟨_ | ⟨c, a⟩, l, h, ha, hl⟩
    · obtain ⟨-, hf⟩ | hn := ha
      · cases l with
        | nil =>
          obtain ⟨rfl, rfl⟩ := List.cons.inj h
          exact .inl ⟨rfl, hf, rfl⟩
        | cons d l =>
          obtain ⟨rfl, -⟩ := List.cons.inj h
          exact absurd (hl b List.mem_cons_self) hb
      · cases hn
    · obtain ⟨rfl, rfl⟩ := List.cons.inj h
      obtain ⟨hn, -⟩ | hlast := ha
      · cases hn
      · right
        cases a with
        | nil => exact ⟨[], l, rfl, .inl ⟨rfl, by simpa using hlast⟩, hl⟩
        | cons d a => exact ⟨d :: a, l, rfl, .inr (by simpa using hlast), hl⟩
  · rintro (⟨rfl, hf, rfl⟩ | ⟨a, l, rfl, ⟨rfl, rfl⟩ | hlast, hl⟩)
    · exact ⟨[], [], rfl, .inl ⟨rfl, hf⟩, by simp⟩
    · exact ⟨[10], l, rfl, .inr rfl, hl⟩
    · cases a with
      | nil => cases hlast
      | cons d a => exact ⟨b :: d :: a, l, rfl, .inr (by simpa using hlast), hl⟩

lemma exists_headerPart (fresh : Prop) (stream : List UInt8) :
    (∃ p, HeaderPart fresh stream p) ∨ ∀ p, p <+: stream → ¬ EndsEmpty fresh p := by
  classical
  by_cases h : ∃ n, EndsEmpty fresh (stream.take n)
  · refine .inl ⟨stream.take (Nat.find h), List.take_prefix _ _, Nat.find_spec h, fun q hq he => ?_⟩
    have hq' := List.prefix_iff_eq_take.mp (hq.trans (List.take_prefix _ _))
    have hle := Nat.find_min' h (hq' ▸ he)
    refine hq.eq_of_length_le (le_trans ?_ hle)
    exact List.length_take_le _ _
  · refine .inr fun p hp he => h ⟨p.length, ?_⟩
    rwa [← List.prefix_iff_eq_take.mp hp]

/-- What the loop makes of a stream: it reads up to the first empty line, and stores what it reads
without carriage returns, as long as the buffer is large enough for it. -/
structure ReadsTo (fresh : Prop) (headers stream : List UInt8) (r : HeaderRead) : Prop where
  block : ∀ p rest, stream = p ++ rest → HeaderPart fresh stream p →
    r = if headers.length + (stored p).length ≤ maxQuery then
      .block (headers ++ (stored p).dropLast) rest else .overflow
  gone : (∀ p, p <+: stream → ¬ EndsEmpty fresh p) →
    r = if headers.length + (stored stream).length < maxQuery then .gone else .overflow

variable {fresh' : Prop} {headers bs rest : List UInt8} {r : HeaderRead} {i : ℕ}

lemma stored_cons (b : UInt8) (p : List UInt8) : stored (b :: p) = stored [b] ++ stored p := by
  rw [stored, stored, stored, ← List.filter_append, List.singleton_append]

lemma EndsEmpty.stored_ne_nil (h : EndsEmpty fresh p) : stored p ≠ [] := by
  obtain ⟨a, l, rfl, -⟩ := h
  simp [stored]

lemma stored_singleton (hr : b ≠ 13) (h₀ : b ≠ 0) : stored [b] = [b] := by
  simp [stored, hr, h₀]

lemma endsEmpty_cons_of_ne (hb : b ≠ 13) (hn : ¬ (b = 10 ∧ fresh)) :
    EndsEmpty fresh (b :: p) ↔ EndsEmpty (b = 10) p := by
  rw [endsEmpty_cons_iff hb, or_iff_right fun h => hn ⟨h.1, h.2.1⟩]

lemma HeaderPart.tail (hb : ∀ q, EndsEmpty fresh (b :: q) ↔ EndsEmpty fresh' q)
    (h : HeaderPart fresh (b :: bs) p) : ∃ q, p = b :: q ∧ HeaderPart fresh' bs q := by
  obtain ⟨hpre, hends, hleast⟩ := h
  cases p with
  | nil => exact absurd hends not_endsEmpty_nil
  | cons c q =>
    obtain ⟨rfl, hq⟩ := List.cons_prefix_cons.mp hpre
    refine ⟨q, rfl, hq, (hb q).mp hends, fun q' hq' he => ?_⟩
    exact (List.cons.inj (hleast (c :: q') (List.cons_prefix_cons.mpr ⟨rfl, hq'⟩) ((hb q').mpr he))).2

lemma ReadsTo.cons (hb : ∀ q, EndsEmpty fresh (b :: q) ↔ EndsEmpty fresh' q)
    (h : ReadsTo fresh' (headers ++ stored [b]) bs r) : ReadsTo fresh headers (b :: bs) r := by
  constructor
  · intro p rest hp hpart
    obtain ⟨q, rfl, hq⟩ := hpart.tail hb
    have hbs : bs = q ++ rest := (List.cons.inj hp).2
    rw [h.block q rest hbs hq, stored_cons b q, List.dropLast_append_of_ne_nil hq.ends.stored_ne_nil]
    simp only [List.length_append, List.append_assoc, add_assoc]
  · intro hno
    rw [h.gone fun q hq he => hno (b :: q) (List.cons_prefix_cons.mpr ⟨rfl, hq⟩) ((hb q).mpr he),
      stored_cons b bs]
    simp only [List.length_append, add_assoc]

lemma ReadsTo.overflow (hb : ∀ q, EndsEmpty fresh (b :: q) ↔ EndsEmpty fresh' q)
    (hs : stored [b] = [b]) (hfull : maxQuery < headers.length + 2) :
    ReadsTo fresh headers (b :: bs) .overflow := by
  constructor
  · intro p rest hp hpart
    obtain ⟨q, rfl, hq⟩ := hpart.tail hb
    have hpos := List.length_pos_iff.mpr hq.ends.stored_ne_nil
    rw [if_neg]
    rw [stored_cons, hs, List.length_append, List.length_singleton]
    omega
  · intro hno
    rw [if_neg]
    rw [stored_cons, hs, List.length_append, List.length_singleton]
    omega

lemma readHeaders_readsTo (stream : List UInt8) (hlen : headers.length < maxQuery) :
    ReadsTo (i = 0) headers stream (readHeaders i headers stream) := by
  induction stream generalizing i headers with
  | nil =>
    constructor
    · intro p rest hp hpart
      obtain rfl := (List.append_eq_nil_iff.mp hp.symm).1
      exact absurd hpart.ends not_endsEmpty_nil
    · intro _
      rw [if_pos (by simpa [stored] using hlen)]
      rfl
  | cons b bs ih =>
    rw [readHeaders]
    split_ifs with hcr hend hnul hfit hline
    · subst hcr
      refine .cons (fun q => endsEmpty_return_iff) ?_
      rw [show stored [13] = [] from rfl, List.append_nil]
      exact ih hlen
    · obtain ⟨rfl, rfl⟩ := hend
      constructor
      · intro p rest hp hpart
        have hpre : [10] <+: p := by
          cases p with
          | nil => exact absurd hpart.ends not_endsEmpty_nil
          | cons c q =>
            obtain ⟨rfl, -⟩ := List.cons.inj hp
            exact List.cons_prefix_cons.mpr ⟨rfl, List.nil_prefix⟩
        obtain rfl := hpart.least [10] hpre ⟨[], [], rfl, .inl ⟨rfl, rfl⟩, by simp⟩
        obtain rfl := (List.cons.inj hp).2
        rw [if_pos (by simpa [stored] using hlen)]
        simp [stored]
      · intro hno
        exact absurd ⟨[], [], rfl, .inl ⟨rfl, rfl⟩, by simp⟩ (hno [10] (by simp))
    · subst hnul
      refine .cons (fun q => endsEmpty_cons_of_ne hcr hend) ?_
      rw [show stored [0] = [] from rfl, List.append_nil, show ((0 : UInt8) = 10) = (i + 1 = 0) by simp]
      exact ih hlen
    · refine .cons (fun q => endsEmpty_cons_of_ne hcr hend) ?_
      rw [stored_singleton hcr hnul, show (b = 10) = ((0 : ℕ) = 0) by simp [hline]]
      exact ih (by rw [List.length_append, List.length_singleton]; omega)
    · refine .cons (fun q => endsEmpty_cons_of_ne hcr hend) ?_
      rw [stored_singleton hcr hnul, show (b = 10) = (i + 1 = 0) by simp [hline]]
      exact ih (by rw [List.length_append, List.length_singleton]; omega)
    · exact .overflow (fun q => endsEmpty_cons_of_ne hcr hend) (stored_singleton hcr hnul) (by omega)

lemma readHeaders_zero (stream : List UInt8) : ReadsTo True [] stream (readHeaders 0 [] stream) := by
  have h : ReadsTo (0 = 0) [] stream (readHeaders 0 [] stream) :=
    readHeaders_readsTo stream (by decide)
  rwa [eq_self_iff_true] at h

lemma length_stored_le (h : q <+: p) : (stored q).length ≤ (stored p).length :=
  (h.filter _).length_le

lemma EndsEmpty.stored_eq (h : EndsEmpty fresh p) : stored p = stored p.dropLast ++ [10] := by
  obtain ⟨a, l, rfl, -⟩ := h
  rw [List.dropLast_concat, stored, stored, List.filter_append]
  rfl

lemma HeaderPart.not_endsEmpty (h : HeaderPart fresh stream p) (hq : q <+: p.dropLast) :
    ¬ EndsEmpty fresh q := by
  intro he
  have hqp := h.least q (hq.trans p.dropLast_prefix) he
  have hlen := hq.length_le
  rw [hqp, List.length_dropLast] at hlen
  have hpos : p ≠ [] := fun hn => not_endsEmpty_nil (hn ▸ h.ends)
  have := List.length_pos_iff.mpr hpos
  omega

/-- A start of the stream before the first empty line is a start of what comes before that. -/
lemma HeaderPart.prefix_dropLast (h : HeaderPart fresh stream p) (hq : q <+: stream)
    (hno : ∀ q', q' <+: q → ¬ EndsEmpty fresh q') : q <+: p.dropLast := by
  rcases List.prefix_or_prefix_of_prefix hq h.pre with hqp | hpq
  · refine List.prefix_of_prefix_length_le hqp p.dropLast_prefix ?_
    have hne : q.length ≠ p.length := fun he =>
      hno q (List.prefix_refl q) (hqp.eq_of_length he ▸ h.ends)
    have := hqp.length_le
    rw [List.length_dropLast]
    omega
  · exact absurd h.ends (hno p hpq)

lemma HeaderPart.fits_iff (h : HeaderPart True stream p) :
    Fits stream ↔ (stored p).length ≤ maxQuery := by
  have hlen : (stored p).length = (stored p.dropLast).length + 1 := by
    rw [h.ends.stored_eq, List.length_append, List.length_singleton]
  constructor
  · intro hf
    have hlt := hf p.dropLast (p.dropLast_prefix.trans h.pre) fun q hq => h.not_endsEmpty hq
    omega
  · intro hle q hq hno
    have := length_stored_le (h.prefix_dropLast hq hno)
    omega

lemma fits_iff_of_none (h : ∀ p, p <+: stream → ¬ EndsEmpty True p) :
    Fits stream ↔ (stored stream).length < maxQuery := by
  constructor
  · exact fun hf => hf stream (List.prefix_refl _) fun q hq => h q hq
  · exact fun hlt q hq _ => (length_stored_le hq).trans_lt hlt

/-- The loop stays inside the buffer exactly if the block fits. -/
lemma readHeaders_ne_overflow_iff : readHeaders 0 [] stream ≠ .overflow ↔ Fits stream := by
  have hreads := readHeaders_zero stream
  rcases exists_headerPart True stream with ⟨p, hp⟩ | hno
  · obtain ⟨rest, hrest⟩ := hp.pre
    rw [hp.fits_iff, hreads.block p rest hrest.symm hp]
    split_ifs with hle <;> simpa using hle
  · rw [fits_iff_of_none hno, hreads.gone hno]
    split_ifs with hlt <;> simpa using hlt

/-- What `readHeaderBlock` returns is what is stored, as long as that fits. -/
lemma readHeaderBlock_eq (h : readHeaders i headers stream ≠ .overflow) :
    readHeaderBlock i headers stream = match readHeaders i headers stream with
      | .block headers _ => some headers
      | _ => none := by
  induction stream generalizing i headers with
  | nil => rfl
  | cons b bs ih =>
    rw [readHeaders] at h ⊢
    rw [readHeaderBlock]
    split_ifs at h ⊢ with hcr hend hnul hfit hline hline hline <;> first | exact ih h | simp_all

/-- Both loops read up to the first empty line and no further, and store the lines before it without
carriage returns. -/
theorem header_framing (hnul : ∀ b ∈ stream, b ≠ 0) (hfit : Fits stream) :
    (∀ p rest, stream = p ++ rest → HeaderPart True stream p →
      gbReceiveHeaders stream = .block (p.filter (· ≠ 13)).dropLast rest ∧
        httpExecHeaders stream = .block (p.filter (· ≠ 13)).dropLast rest) ∧
    ((∀ p, p <+: stream → ¬ EndsEmpty True p) →
      gbReceiveHeaders stream = .gone ∧ httpExecHeaders stream = .gone) := by
  have hreads := readHeaders_zero stream
  refine ⟨fun p rest hp hpart => ?_, fun hno => ?_⟩
  · have hstored : stored p = p.filter (· ≠ 13) := by
      refine List.filter_congr fun b hb => ?_
      have := hnul b (hp ▸ List.mem_append_left rest hb)
      simp [this]
    have hblock := hreads.block p rest hp hpart
    rw [List.length_nil, zero_add, if_pos (hpart.fits_iff.mp hfit), hstored, List.nil_append] at hblock
    exact ⟨hblock, hblock⟩
  · have hgone := hreads.gone hno
    rw [List.length_nil, zero_add, if_pos ((fits_iff_of_none hno).mp hfit)] at hgone
    exact ⟨hgone, hgone⟩

/-- The first line is empty, but for carriage returns. -/
def StartsEmpty (stream : List UInt8) : Prop :=
  ∃ l rest, stream = l ++ 10 :: rest ∧ ∀ b ∈ l, b = 13

lemma StartsEmpty.ends (h : StartsEmpty stream) : ∃ p, p <+: stream ∧ EndsEmpty True p := by
  obtain ⟨l, rest, rfl, hl⟩ := h
  exact ⟨l ++ [10], ⟨rest, by simp⟩, [], l, rfl, .inl ⟨rfl, trivial⟩, hl⟩

/-- A line end is stored unless the first line is the empty one. -/
lemma HeaderPart.mem_iff (h : HeaderPart True stream p) :
    10 ∈ (stored p).dropLast ↔ ¬ StartsEmpty stream := by
  have hends := h.ends.stored_eq
  obtain ⟨a, l, hp, ha, hl⟩ := h.ends
  rw [hends, List.dropLast_concat, hp, List.dropLast_concat]
  have hmem : 10 ∈ stored (a ++ l) ↔ a ≠ [] := by
    rw [stored, List.mem_filter]
    refine ⟨fun hm hn => ?_, fun hne => ⟨List.mem_append_left l ?_, by decide⟩⟩
    · rw [hn, List.nil_append] at hm
      exact absurd (hl 10 hm.1) (by decide)
    · exact List.mem_of_getLast? (ha.resolve_left fun hn => hne hn.1)
  rw [hmem, not_iff_not]
  constructor
  · rintro rfl
    obtain ⟨rest, hrest⟩ := h.pre
    exact ⟨l, rest, by rw [← hrest, hp]; simp, hl⟩
  · rintro ⟨l', rest, hs, hl'⟩
    have hq : l' ++ [10] <+: stream := ⟨rest, by rw [hs]; simp⟩
    have hqp : l' ++ [10] <+: p → l' ++ [10] = p := fun hqp =>
      h.least _ hqp ⟨[], l', rfl, .inl ⟨rfl, trivial⟩, hl'⟩
    have ha' : a <+: l' := by
      have hle : p.length ≤ (l' ++ [10]).length := by
        rcases List.prefix_or_prefix_of_prefix h.pre hq with hpq | hqp'
        · exact hpq.length_le
        · exact (congrArg List.length (hqp hqp')).ge
      have hal : a.length ≤ l'.length := by
        simp only [hp, List.length_append, List.length_singleton] at hle
        omega
      have hap : a <+: stream := List.IsPrefix.trans ⟨l ++ [10], by rw [hp]; simp⟩ h.pre
      exact List.prefix_of_prefix_length_le hap ((List.prefix_append l' [10]).trans hq) hal
    by_contra hne
    have hlast := List.mem_of_getLast? (ha.resolve_left fun hn => hne hn.1)
    exact absurd (hl' 10 (ha'.subset hlast)) (by decide)

lemma httpExecReply_ok_iff {status : ℤ} :
    (∃ r, httpExecReply status stream = .ok r) ↔ Fits stream ∧ ¬ StartsEmpty stream := by
  have hreads := readHeaders_zero stream
  rw [← readHeaders_ne_overflow_iff]
  have heq : httpExecHeaders stream = readHeaders 0 [] stream := rfl
  rcases exists_headerPart True stream with ⟨p, hp⟩ | hno
  · obtain ⟨rest, hrest⟩ := hp.pre
    have hblock := hreads.block p rest hrest.symm hp
    rw [← hp.mem_iff, httpExecReply, heq, hblock]
    by_cases hle : (stored p).length ≤ maxQuery
    · simp only [List.length_nil, zero_add, hle, if_true, List.nil_append, ne_eq, reduceCtorEq,
        not_false_eq_true, true_and]
      have hfirst : ((stored p).dropLast.takeWhile (· ≠ 10)).length + 1 ≤ maxQuery := by
        have h₁ := (List.takeWhile_prefix (fun b => b ≠ 10) (l := (stored p).dropLast)).length_le
        have h₂ := List.length_pos_iff.mpr hp.ends.stored_ne_nil
        rw [List.length_dropLast] at h₁
        omega
      by_cases hm : 10 ∈ (stored p).dropLast
      · simp only [hm, hfirst, if_true, iff_true]
        exact ⟨_, rfl⟩
      · simp [hm]
    · simp [hle]
  · have hgone := hreads.gone hno
    have hstart : ¬ StartsEmpty stream := fun hs => by
      obtain ⟨p, hp, he⟩ := hs.ends
      exact hno p hp he
    simp only [httpExecReply, heq, hgone, hstart, not_false_eq_true, and_true]
    split_ifs <;> simp

/-- All writes stay inside the buffers, and the line end is found, exactly where what comes before
the first empty line fits and, for `http_exec`, is not empty itself. -/
theorem header_buffers_safe_iff (status : ℤ) (stream : List UInt8) :
    (gbReceiveHeaders stream ≠ .overflow ↔ Fits stream) ∧
      ((∃ r, httpExecReply status stream = .ok r) ↔ Fits stream ∧ ¬ StartsEmpty stream) :=
  ⟨readHeaders_ne_overflow_iff, httpExecReply_ok_iff⟩

lemma fits_of_length (h : stream.length < maxQuery) : Fits stream :=
  fun _ hp _ => (List.length_filter_le _ _).trans_lt (hp.length_le.trans_lt h)

end

/-- `A`, an empty line, and `B` behind it. -/
theorem header_framing_of_two : gbReceiveHeaders [65, 13, 10, 13, 10, 66] = .block [65, 10] [66] ∧
    httpExecHeaders [65, 13, 10, 13, 10, 66] = .block [65, 10] [66] := by
  have hfit : Fits [65, 13, 10, 13, 10, 66] := fits_of_length (by decide)
  refine (header_framing (List.all_iff_forall_prop.mp (by decide)) hfit).1 [65, 13, 10, 13, 10] [66] rfl
    ⟨by decide, ⟨[65, 13, 10], [13], rfl, .inr rfl, by simp⟩, fun q hq he => ?_⟩
  have hcons : ∀ {f : Prop} {b : UInt8} {p : List UInt8}, b ≠ 13 → ¬ (b = 10 ∧ f) →
      (EndsEmpty f (b :: p) ↔ EndsEmpty (b = 10) p) := endsEmpty_cons_of_ne
  simp only [List.prefix_cons_iff, List.prefix_nil] at hq
  rcases hq with rfl | ⟨_, rfl, rfl | ⟨_, rfl, rfl | ⟨_, rfl, rfl | ⟨_, rfl, rfl | ⟨_, rfl, rfl⟩⟩⟩⟩⟩
  all_goals simp [hcons, endsEmpty_return_iff, not_endsEmpty_nil] at he ⊢

/-- A line of 2048 characters is written over the end of the buffer, and in an empty block no line
end is found. -/
theorem header_buffers_unsafe : ∃ long short,
    gbReceiveHeaders long = .overflow ∧ httpExecReply 0 long = .error .overflow ∧
      httpExecReply 0 short = .error .nullPointer := by
  have hlong : readHeaders 0 [] (List.replicate 2048 97) = .overflow := by
    by_contra hn
    have hlt := readHeaders_ne_overflow_iff.mp hn _ (List.prefix_refl _) fun q hq he => ?_
    · rw [stored, List.filter_replicate, if_pos (by decide), List.length_replicate] at hlt
      exact absurd hlt (by decide)
    · obtain ⟨a, l, rfl, -⟩ := he
      have := List.eq_of_mem_replicate (hq.subset (by simp : (10 : UInt8) ∈ a ++ l ++ [10]))
      exact absurd this (by decide)
  exact ⟨List.replicate 2048 97, [10], hlong, by rw [httpExecReply, httpExecHeaders, hlong], rfl⟩

end GreenBag
