import GreenBag.Building

/-! Looking up a field in a stored header block, and the blocks that a server may send. -/

namespace GreenBag

def toLower (b : UInt8) : UInt8 := if 65 ≤ b ∧ b ≤ 90 then b + 32 else b

/-- Whether `strcasecmp` finds no difference. -/
def sameLetters (xs ys : List UInt8) : Bool := xs.map toLower = ys.map toLower

/-- The conversion `%s` with a width; nothing where the input ends before a word. -/
def scanWord (width : ℕ) (s : List UInt8) : Option (List UInt8) :=
  match s.dropWhile isSpace with
  | [] => none
  | word => some ((word.takeWhile fun b => !isSpace b).take width)

/-- What `http_header` returns; the last is for a word that is compared before one was scanned. -/
inductive Lookup
  | found (rest : List UInt8)
  | missing
  | uninitialized
  deriving DecidableEq, Repr

/-- The loop of `http_header` behind the character `prev`; `s` is the word that was scanned last. -/
def headerFrom (header : List UInt8) (s : Option (List UInt8)) (prev : UInt8) : List UInt8 → Lookup
  | [] => .missing
  | b :: bs =>
    if prev = 10 then
      match (scanWord 31 (b :: bs)).or s with
      | none => .uninitialized
      | some word =>
        if sameLetters word header then .found ((b :: bs).drop header.length)
        else headerFrom header (some word) b bs
    else headerFrom header s b bs

/-- The loop starts with the second character, also where there is none. -/
def httpHeader (headers header : List UInt8) : Lookup :=
  match headers with
  | [] => .uninitialized
  | b :: bs => headerFrom header none b bs

/-- The conversion `%lld`. -/
def scanLong (s : List UInt8) : Option ℤ :=
  match s.dropWhile isSpace with
  | 45 :: ds => (scanDigits 10 none ds).map fun n : ℕ => max (-(n : ℤ)) (-2 ^ 63)
  | 43 :: ds => (scanDigits 10 none ds).map fun n : ℕ => min (n : ℤ) (2 ^ 63 - 1)
  | ds => (scanDigits 10 none ds).map fun n : ℕ => min (n : ℤ) (2 ^ 63 - 1)

/-- Nothing where the value is not initialized. -/
def httpSize (headers : List UInt8) : Option ℤ :=
  match httpHeader headers (text "Content-Length:") with
  | .missing => some (-2)
  | .found rest => scanLong rest
  | .uninitialized => none

/-- A field, with all that stands behind the colon. -/
structure Field where
  name : List UInt8
  body : List UInt8
  name_ne : name ≠ []
  name_token : ∀ b ∈ name, isSpace b = false ∧ b ≠ 58 ∧ b ≠ 0
  body_text : ∀ b ∈ body, b ≠ 10 ∧ b ≠ 13 ∧ b ≠ 0

def Field.line (f : Field) : List UInt8 := f.name ++ 58 :: f.body

/-- A field carries a name in any letter case. -/
def Field.Carries (f : Field) (name : List UInt8) : Prop := f.name.map toLower = name.map toLower

instance (f : Field) (name : List UInt8) : Decidable (f.Carries name) :=
  inferInstanceAs (Decidable (_ = _))

/-- The first character behind the colon, if there is one, is blank. -/
def Field.Blank (f : Field) : Prop := ∀ b, f.body.head? = some b → isSpace b

/-- The word that a line is taken for ends with the colon. -/
def Field.Plain (f : Field) : Prop := f.name.length < 30 ∧ f.Blank ∨ f.name.length = 30

/-- A value with optional white space around it. -/
def Field.Value (f : Field) (value : List UInt8) : Prop :=
  ∃ before behind, f.body = before ++ value ++ behind ∧
    ∀ b, b ∈ before ∨ b ∈ behind → b = 32 ∨ b = 9

/-- A header block, with its status line and its fields. -/
structure Block where
  version : List UInt8
  code : ℤ
  phrase : List UInt8
  fields : List Field
  version_ne : version ≠ []
  version_word : ∀ b ∈ version, isSpace b = false ∧ b ≠ 0
  code_pos : 0 < code
  code_three : (digits code).length = 3
  phrase_text : ∀ b ∈ phrase, b ≠ 10 ∧ b ≠ 13 ∧ b ≠ 0

def Block.statusLine (k : Block) : List UInt8 := k.version ++ 32 :: (digits k.code ++ k.phrase)

def Block.lines (k : Block) : List (List UInt8) := k.statusLine :: k.fields.map Field.line

/-- What the server sends. -/
def Block.sent (k : Block) : List UInt8 := lineText k.lines ++ crlf

/-- Lines as they are stored. -/
def storedText (lines : List (List UInt8)) : List UInt8 := lines.flatMap (· ++ [10])

def Block.Fits (k : Block) : Prop := (storedText k.lines).length < maxQuery

section

variable {f : Field} {k : Block} {header name headers rest line word : List UInt8} {b prev : UInt8}
  {s : Option (List UInt8)} {i : ℕ} {lines : List (List UInt8)} {fields pre post : List Field}

lemma readHeaders_line (hl : ∀ b ∈ line, b ≠ 10 ∧ b ≠ 13 ∧ b ≠ 0) (hi : line = [] → i ≠ 0)
    (hlen : headers.length < maxQuery) :
    readHeaders i headers (line ++ crlf ++ rest) =
      if headers.length + line.length + 1 < maxQuery then
        readHeaders 0 (headers ++ (line ++ [10])) rest
      else .overflow := by
  induction line generalizing i headers with
  | nil =>
    have hi' := hi rfl
    simp only [crlf, List.nil_append, List.cons_append, readHeaders, if_true, List.length_nil]
    rw [if_neg (by decide), if_neg (by simp [hi']), if_neg (by decide)]
    congr 1
  | cons b bs ih =>
    obtain ⟨⟨h₁₀, h₁₃, h₀⟩, hbs⟩ := List.forall_mem_cons.mp hl
    rw [List.cons_append, List.cons_append, readHeaders, if_neg h₁₃, if_neg (by simp [h₁₀]), if_neg h₀,
      if_neg h₁₀]
    split_ifs with hfit hall hall
    · rw [ih hbs (by simp) (by rw [List.length_append, List.length_singleton]; omega), if_pos]
      · simp
      · simp only [List.length_append, List.length_cons, List.length_nil] at hall ⊢
        omega
    · rw [ih hbs (by simp) (by rw [List.length_append, List.length_singleton]; omega), if_neg]
      simp only [List.length_append, List.length_cons, List.length_nil] at hall ⊢
      omega
    · simp only [List.length_cons] at hall
      omega
    · rfl

lemma readHeaders_lines (hl : ∀ line ∈ lines, line ≠ [] ∧ ∀ b ∈ line, b ≠ 10 ∧ b ≠ 13 ∧ b ≠ 0)
    (hlen : headers.length < maxQuery) :
    readHeaders 0 headers (lineText lines ++ crlf ++ rest) =
      if headers.length + (storedText lines).length < maxQuery then
        .block (headers ++ storedText lines) rest
      else .overflow := by
  induction lines generalizing headers with
  | nil => simp [lineText, storedText, crlf, readHeaders, hlen]
  | cons line lines ih =>
    obtain ⟨⟨hne, hline⟩, hlines⟩ := List.forall_mem_cons.mp hl
    have hsplit : lineText (line :: lines) ++ crlf ++ rest =
        line ++ crlf ++ (lineText lines ++ crlf ++ rest) := by
      simp [lineText]
    have hlength : (storedText (line :: lines)).length =
        line.length + 1 + (storedText lines).length := by
      rw [storedText, List.flatMap_cons, List.length_append, List.length_append]
      rfl
    rw [hsplit, readHeaders_line hline (fun hn => absurd hn hne) hlen, hlength]
    split_ifs with hfit hall hall
    · rw [ih hlines (by simp only [List.length_append, List.length_singleton]; omega), if_pos]
      · simp [storedText]
      · simp only [List.length_append, List.length_singleton]
        omega
    · rw [ih hlines (by simp only [List.length_append, List.length_singleton]; omega), if_neg]
      simp only [List.length_append, List.length_singleton]
      omega
    · omega
    · rfl

lemma toLower_eq_iff {c : UInt8} (hc : c.toNat < 65) : toLower b = c ↔ b = c := by
  rw [toLower]
  split_ifs with h
  · have h₆₅ : 65 ≤ b.toNat ∧ b.toNat ≤ 90 := h
    rw [← UInt8.toNat_inj, ← UInt8.toNat_inj, UInt8.toNat_add]
    simp only [UInt8.reduceToNat]
    omega
  · rfl

lemma not_mem_map_toLower (h : 58 ∉ name) : 58 ∉ name.map toLower := by
  intro hm
  obtain ⟨b, hb, he⟩ := List.mem_map.mp hm
  exact h ((toLower_eq_iff (by decide)).mp he ▸ hb)

lemma Field.colon_not_mem (f : Field) : 58 ∉ f.name := fun hm => (f.name_token 58 hm).2.1 rfl

lemma Field.scanWord_line (f : Field) (rest : List UInt8) :
    scanWord 31 (f.line ++ 10 :: rest) =
      some ((f.name ++ 58 :: f.body.takeWhile fun b => !isSpace b).take 31) := by
  have hname : ∀ b ∈ f.name, (!isSpace b) = true := fun b hb => by simp [(f.name_token b hb).1]
  have htake : ((f.name ++ 58 :: f.body) ++ 10 :: rest).takeWhile (fun b => !isSpace b) =
      f.name ++ 58 :: f.body.takeWhile fun b => !isSpace b := by
    rw [List.append_assoc, List.takeWhile_append_of_pos hname, List.cons_append,
      List.takeWhile_cons_of_pos (by decide), List.takeWhile_append]
    split_ifs with hall
    · rw [List.takeWhile_cons_of_neg (by decide), List.append_nil,
        (List.takeWhile_prefix _).eq_of_length hall]
    · rfl
  have hdrop : ((f.name ++ 58 :: f.body) ++ 10 :: rest).dropWhile isSpace =
      (f.name ++ 58 :: f.body) ++ 10 :: rest := by
    obtain ⟨b, bs, hb⟩ := List.exists_cons_of_ne_nil f.name_ne
    have hs := (f.name_token b (hb ▸ List.mem_cons_self)).1
    rw [hb, List.cons_append, List.cons_append, List.dropWhile_cons_of_neg (by simp [hs])]
  rw [Field.line, scanWord, hdrop]
  split
  · rename_i hnil
    simp at hnil
  · rw [htake]

/-- A line is found exactly for its own name, where it is plain. -/
lemma Field.sameLetters_iff (hn : 58 ∉ name) :
    sameLetters ((f.name ++ 58 :: f.body.takeWhile fun b => !isSpace b).take 31) (name ++ [58]) ↔
      f.Carries name ∧ f.Plain := by
  have hcolon : toLower 58 = 58 := rfl
  have hblank : (f.body.takeWhile fun b => !isSpace b).map toLower = [] ↔ f.Blank := by
    rw [List.map_eq_nil_iff, Field.Blank]
    cases f.body with
    | nil => simp
    | cons b bs => simp [List.takeWhile_cons]
  rw [sameLetters, decide_eq_true_eq, List.map_take, List.map_append, List.map_cons, hcolon,
    List.map_append, List.map_singleton, hcolon, Cuts.take_eq_iff
      (not_mem_map_toLower f.colon_not_mem) (not_mem_map_toLower hn), List.length_map, hblank]
  rfl

lemma headerFrom_line (hl : 10 ∉ line) (hp : prev ≠ 10) :
    headerFrom header s prev (line ++ 10 :: rest) = headerFrom header s 10 rest := by
  induction line generalizing prev with
  | nil => rw [List.nil_append, headerFrom, if_neg hp]
  | cons b bs ih =>
    obtain ⟨hb, hbs⟩ := not_or.mp (List.mem_cons.not.mp hl)
    rw [List.cons_append, headerFrom, if_neg hp]
    exact ih hbs (Ne.symm hb)

lemma Field.not_mem_line (f : Field) : 10 ∉ f.line := by
  intro hm
  rcases List.mem_append.mp hm with hm | hm
  · exact absurd (f.name_token 10 hm).1 (by decide)
  · rcases List.mem_cons.mp hm with hm | hm
    · exact absurd hm (by decide)
    · exact (f.body_text 10 hm).1 rfl

lemma headerFrom_start (f : Field) :
    headerFrom (name ++ [58]) s 10 (f.line ++ 10 :: rest) =
      if sameLetters ((f.name ++ 58 :: f.body.takeWhile fun b => !isSpace b).take 31) (name ++ [58])
        then .found ((f.line ++ 10 :: rest).drop (name.length + 1))
      else headerFrom (name ++ [58])
        (some ((f.name ++ 58 :: f.body.takeWhile fun b => !isSpace b).take 31)) 10 rest := by
  have hscan := f.scanWord_line rest
  have hmem := f.not_mem_line
  have hne : f.line ≠ [] := by simp [Field.line]
  cases hl : f.line with
  | nil => exact absurd hl hne
  | cons b bs =>
    rw [hl] at hscan hmem
    obtain ⟨hb, hbs⟩ := not_or.mp (List.mem_cons.not.mp hmem)
    rw [List.cons_append] at hscan ⊢
    rw [headerFrom, if_pos rfl, hscan, Option.some_or]
    simp only [headerFrom_line hbs (Ne.symm hb), List.length_append, List.length_singleton]

lemma headerFrom_found (hn : 58 ∉ name) (hf : f.Carries name) (hp : f.Plain) :
    headerFrom (name ++ [58]) s 10 (f.line ++ 10 :: rest) = .found (f.body ++ 10 :: rest) := by
  have hlen : name.length = f.name.length := by
    have := congrArg List.length hf
    simpa using this.symm
  rw [headerFrom_start f, if_pos ((f.sameLetters_iff hn).mpr ⟨hf, hp⟩), hlen, Field.line]
  congr 1
  rw [List.append_assoc, List.drop_append]
  simp

/-- The lines of fields that are not the one looked for are passed by. -/
lemma headerFrom_fields (rest : List UInt8) (hn : 58 ∉ name) (hpre : ∀ f ∈ pre, ¬ (f.Carries name ∧ f.Plain)) :
    ∃ s', headerFrom (name ++ [58]) s 10 (storedText (pre.map Field.line) ++ rest) =
      headerFrom (name ++ [58]) s' 10 rest := by
  induction pre generalizing s with
  | nil => exact ⟨s, rfl⟩
  | cons f fs ih =>
    obtain ⟨hf, hfs⟩ := List.forall_mem_cons.mp hpre
    obtain ⟨s', hs'⟩ := ih hfs
      (s := some ((f.name ++ 58 :: f.body.takeWhile fun b => !isSpace b).take 31))
    have hsplit : storedText ((f :: fs).map Field.line) ++ rest =
        f.line ++ 10 :: (storedText (fs.map Field.line) ++ rest) := by simp [storedText]
    refine ⟨s', ?_⟩
    rw [← hs', hsplit, headerFrom_start f, if_neg]
    rwa [f.sameLetters_iff hn]

lemma Block.httpHeader_eq (k : Block) (header : List UInt8) :
    httpHeader (storedText k.lines) header =
      headerFrom header none 10 (storedText (k.fields.map Field.line)) := by
  have hmem : 10 ∉ k.statusLine := by
    intro hm
    rcases List.mem_append.mp hm with hm | hm
    · exact absurd (k.version_word 10 hm).1 (by decide)
    · rcases List.mem_cons.mp hm with hm | hm
      · exact absurd hm (by decide)
      · rcases List.mem_append.mp hm with hm | hm
        · exact not_mem_digits (.inl (by decide)) (by decide) _ hm
        · exact (k.phrase_text 10 hm).1 rfl
  have hsplit : storedText k.lines =
      k.statusLine ++ 10 :: storedText (k.fields.map Field.line) := by simp [storedText, lines]
  have hne : k.statusLine ≠ [] := by simp [statusLine]
  rw [hsplit]
  cases hl : k.statusLine with
  | nil => exact absurd hl hne
  | cons b bs =>
    rw [hl] at hmem
    obtain ⟨hb, hbs⟩ := not_or.mp (List.mem_cons.not.mp hmem)
    exact headerFrom_line hbs (Ne.symm hb)

lemma Block.httpHeader_found (hn : 58 ∉ name) (hk : k.fields = pre ++ f :: post)
    (hpre : ∀ f ∈ pre, ¬ (f.Carries name ∧ f.Plain)) (hf : f.Carries name) (hp : f.Plain) :
    httpHeader (storedText k.lines) (name ++ [58]) =
      .found (f.body ++ 10 :: storedText (post.map Field.line)) := by
  have hsplit : storedText (k.fields.map Field.line) =
      storedText (pre.map Field.line) ++ (f.line ++ 10 :: storedText (post.map Field.line)) := by
    simp [hk, storedText]
  obtain ⟨s', hs'⟩ := headerFrom_fields (s := none)
    (f.line ++ 10 :: storedText (post.map Field.line)) hn hpre
  rw [k.httpHeader_eq, hsplit, hs', headerFrom_found hn hf hp]

lemma Block.httpHeader_missing (hn : 58 ∉ name)
    (hk : ∀ f ∈ k.fields, ¬ (f.Carries name ∧ f.Plain)) :
    httpHeader (storedText k.lines) (name ++ [58]) = .missing := by
  obtain ⟨s', hs'⟩ := headerFrom_fields (s := none) [] hn hk
  rw [k.httpHeader_eq, ← List.append_nil (storedText _), hs', headerFrom]

lemma exists_first {P : Field → Prop} (h : ∃ f ∈ fields, P f) :
    ∃ pre f post, fields = pre ++ f :: post ∧ P f ∧ ∀ f ∈ pre, ¬ P f := by
  classical
  obtain ⟨f, hm, hf⟩ := h
  cases hfind : fields.find? P with
  | none => exact absurd hf (by simpa using List.find?_eq_none.mp hfind f hm)
  | some g =>
    obtain ⟨hg, pre, post, hk, hpre⟩ := List.find?_eq_some_iff_append.mp hfind
    exact ⟨pre, g, post, hk, by simpa using hg, fun f hf => by simpa using hpre f hf⟩

/-- A field is found exactly if some line with its name is plain. -/
lemma Block.httpHeader_eq_missing_iff (hn : 58 ∉ name) :
    httpHeader (storedText k.lines) (name ++ [58]) = .missing ↔
      ∀ f ∈ k.fields, ¬ (f.Carries name ∧ f.Plain) := by
  refine ⟨fun h => ?_, httpHeader_missing hn⟩
  by_contra hex
  obtain ⟨pre, f, post, hk, hf, hpre⟩ := exists_first (P := fun f => f.Carries name ∧ f.Plain)
    (by simpa using hex)
  rw [httpHeader_found hn hk hpre hf.1 hf.2] at h
  cases h

lemma Block.lines_clean (k : Block) :
    ∀ line ∈ k.lines, line ≠ [] ∧ ∀ b ∈ line, b ≠ 10 ∧ b ≠ 13 ∧ b ≠ 0 := by
  have hword : ∀ b : UInt8, isSpace b = false → b ≠ 10 ∧ b ≠ 13 := by
    rintro b hb
    constructor <;> rintro rfl <;> exact absurd hb (by decide)
  intro line hl
  rcases List.mem_cons.mp hl with rfl | hl
  · refine ⟨by simp [statusLine], fun b hb => ?_⟩
    simp only [statusLine, List.mem_append, List.mem_cons] at hb
    rcases hb with hb | rfl | hb | hb
    · have hv := k.version_word b hb
      exact ⟨(hword b hv.1).1, (hword b hv.1).2, hv.2⟩
    · decide
    · refine ⟨?_, ?_, ?_⟩ <;> rintro rfl
      · exact not_mem_digits (.inl (by decide)) (by decide) _ hb
      · exact not_mem_digits (.inl (by decide)) (by decide) _ hb
      · exact not_mem_digits (.inl (by decide)) (by decide) _ hb
    · exact k.phrase_text b hb
  · obtain ⟨f, -, rfl⟩ := List.mem_map.mp hl
    refine ⟨by simp [Field.line], fun b hb => ?_⟩
    rcases List.mem_append.mp hb with hb | hb
    · have hv := f.name_token b hb
      exact ⟨(hword b hv.1).1, (hword b hv.1).2, hv.2.2⟩
    · rcases List.mem_cons.mp hb with rfl | hb
      · decide
      · exact f.body_text b hb

lemma scanInt3_digits {n : ℤ} (hn : 0 < n) (hl : (digits n).length = 3) (rest : List UInt8) :
    scanInt3 (digits n ++ rest) = some n := by
  have htake : (digits n ++ rest).take 3 = digits n := by rw [← hl, List.take_left]
  obtain ⟨b, bs, hd, -, -, h₄₅, h₄₃⟩ := head_digits hn
  have hscan := scanUnsigned_digits hn
  rw [scanInt3, htake]
  rw [hd] at hscan ⊢
  split
  · simp_all
  · simp_all
  · rw [hscan]
    change some ((n.toNat : ℕ) : ℤ) = some n
    congr 1
    omega

lemma Block.scanStatus_eq (k : Block) : scanStatus (storedText k.lines) = some k.code := by
  have hword : ∀ b ∈ k.version, (!isSpace b) = true := fun b hb => by
    simp [(k.version_word b hb).1]
  have hsplit : ∃ rest, storedText k.lines = k.version ++ 32 :: (digits k.code ++ rest) :=
    ⟨k.phrase ++ 10 :: storedText (k.fields.map Field.line), by
      simp [storedText, lines, statusLine]⟩
  obtain ⟨rest, hrest⟩ := hsplit
  have hdrop : (storedText k.lines).dropWhile isSpace = storedText k.lines := by
    obtain ⟨b, bs, hb⟩ := List.exists_cons_of_ne_nil k.version_ne
    have hs := (k.version_word b (hb ▸ List.mem_cons_self)).1
    rw [hrest, hb, List.cons_append, List.dropWhile_cons_of_neg (by simp [hs])]
  obtain ⟨b, bs, hd, -, hs, -⟩ := head_digits k.code_pos
  have hcode : (digits k.code ++ rest).dropWhile isSpace = digits k.code ++ rest := by
    rw [hd, List.cons_append, List.dropWhile_cons_of_neg (by simp [hs])]
  have hne : storedText k.lines ≠ [] := by
    rw [hrest]
    simp
  rw [scanStatus]
  simp only [hdrop, if_neg hne]
  rw [hrest, List.dropWhile_append_of_pos hword, List.dropWhile_cons_of_neg (by decide),
    List.dropWhile_cons_of_pos (by decide), hcode, scanInt3_digits k.code_pos k.code_three]

/-- What `http_exec` leaves of a block: its lines and its status. -/
lemma Block.httpExecReply_of_fits (hk : k.Fits) (status : ℤ) (rest : List UInt8) :
    ∃ first, httpExecReply status (k.sent ++ rest) =
      .ok (some ⟨storedText k.lines, first, k.code, rest⟩) := by
  have hread : httpExecHeaders (k.sent ++ rest) = .block (storedText k.lines) rest := by
    rw [httpExecHeaders, sent, readHeaders_lines k.lines_clean (by decide), List.length_nil,
      zero_add, if_pos (show (storedText k.lines).length < maxQuery from hk), List.nil_append]
  have hmem : 10 ∈ storedText k.lines := by simp [storedText, lines]
  have hlen : ((storedText k.lines).takeWhile (· ≠ 10)).length + 1 ≤ maxQuery :=
    (Nat.succ_le_succ (List.takeWhile_prefix _).length_le).trans hk
  refine ⟨(storedText k.lines).takeWhile (· ≠ 10), ?_⟩
  simp only [httpExecReply, hread, if_pos hmem, if_pos hlen, k.scanStatus_eq, Option.getD_some]

lemma Block.httpExecReply_of_not_fits (hk : ¬ k.Fits) (status : ℤ) (rest : List UInt8) :
    httpExecReply status (k.sent ++ rest) = .error .overflow := by
  have hread : httpExecHeaders (k.sent ++ rest) = .overflow := by
    rw [httpExecHeaders, sent, readHeaders_lines k.lines_clean (by decide), List.length_nil,
      zero_add, if_neg (show ¬ (storedText k.lines).length < maxQuery from hk)]
  simp only [httpExecReply, hread]

lemma isSpace_of_blank (h : b = 32 ∨ b = 9) : isSpace b := by
  rcases h with rfl | rfl <;> rfl

lemma Field.Value.dropWhile {value : List UInt8} (h : f.Value value) (hne : value ≠ [])
    (hv : ∀ b ∈ value, isSpace b = false) (rest : List UInt8) : ∃ behind,
      (f.body ++ 10 :: rest).dropWhile isSpace = value ++ behind ∧
        ∀ b, behind.head? = some b → isSpace b := by
  obtain ⟨before, behind, hb, hblank⟩ := h
  refine ⟨behind ++ 10 :: rest, ?_, fun b hhead => ?_⟩
  · obtain ⟨a, as, ha⟩ := List.exists_cons_of_ne_nil hne
    have hs := hv a (ha ▸ List.mem_cons_self)
    rw [hb, List.append_assoc, List.append_assoc, List.dropWhile_append_of_pos
      fun b hm => isSpace_of_blank (hblank b (.inl hm)), ha, List.cons_append,
      List.dropWhile_cons_of_neg (by simp [hs])]
  · cases behind with
    | nil =>
      obtain rfl := Option.some.inj hhead
      rfl
    | cons a as =>
      obtain rfl := Option.some.inj hhead
      exact isSpace_of_blank (hblank a (.inr List.mem_cons_self))

lemma Field.Value.scanWord {value : List UInt8} {width : ℕ} (h : f.Value value) (hne : value ≠ [])
    (hv : ∀ b ∈ value, isSpace b = false) (hw : value.length ≤ width) (rest : List UInt8) :
    scanWord width (f.body ++ 10 :: rest) = some value := by
  obtain ⟨behind, hd, hb⟩ := h.dropWhile hne hv rest
  have hall : ∀ b ∈ value, (!isSpace b) = true := fun b hm => by simp [hv b hm]
  have htake : (value ++ behind).takeWhile (fun b => !isSpace b) = value := by
    rw [List.takeWhile_append_of_pos hall]
    cases behind with
    | nil => simp
    | cons b bs => rw [List.takeWhile_cons_of_neg (by simp [hb b rfl]), List.append_nil]
  rw [GreenBag.scanWord, hd]
  split
  · rename_i hnil
    exact absurd (List.append_eq_nil_iff.mp hnil).1 hne
  · rw [htake, List.take_of_length_le hw]

lemma scanDigits_append {base : ℕ} {v : Option ℕ} {ds : List UInt8}
    (h : ∀ b, rest.head? = some b → digitValue b = none) :
    scanDigits base v (ds ++ rest) = scanDigits base v ds := by
  induction ds generalizing v with
  | nil =>
    cases rest with
    | nil => rfl
    | cons b bs => simp only [List.nil_append, scanDigits, h b rfl]
  | cons d ds ih => rw [List.cons_append, scanDigits, scanDigits]; simp only [ih]

lemma digitValue_of_isSpace (h : isSpace b) : digitValue b = none := by
  have hb : b.toNat ≤ 32 := by
    simp only [isSpace, Bool.or_eq_true, Bool.and_eq_true, decide_eq_true_eq,
      UInt8.le_iff_toNat_le] at h
    rcases h with rfl | ⟨-, h⟩
    · decide
    · exact h.trans (by decide)
  simp only [digitValue, UInt8.le_iff_toNat_le, UInt8.reduceToNat]
  rw [if_neg (by omega), if_neg (by omega), if_neg (by omega)]

lemma Field.Value.scanLong {ds : List Char} (h : f.Value (ds.map fun d => d.toNat.toUInt8))
    (hne : ds ≠ []) (hds : ∀ d ∈ ds, d.isDigit) :
    scanLong (f.body ++ 10 :: rest) = some (min (Nat.ofDigitChars 10 ds 0 : ℤ) (2 ^ 63 - 1)) := by
  have hbyte : ∀ b ∈ ds.map (fun d => d.toNat.toUInt8), 48 ≤ b.toNat ∧ b.toNat ≤ 57 := by
    intro b hb
    obtain ⟨d, hd, rfl⟩ := List.mem_map.mp hb
    rw [toNat_digit (hds d hd)]
    exact isDigit_bounds (hds d hd)
  have hspace : ∀ b ∈ ds.map (fun d => d.toNat.toUInt8), isSpace b = false := by
    intro b hb
    by_contra hs
    obtain ⟨h₄₈, h₅₇⟩ := hbyte b hb
    simp only [isSpace, Bool.or_eq_true, Bool.and_eq_true, decide_eq_true_eq, Bool.not_eq_false,
      UInt8.le_iff_toNat_le] at hs
    rcases hs with rfl | ⟨-, hs⟩
    · exact absurd h₄₈ (by decide)
    · have : (13 : UInt8).toNat = 13 := rfl
      omega
  obtain ⟨behind, hd, hb⟩ := h.dropWhile (by simpa using hne) hspace rest
  have hscan : scanDigits 10 none ((ds.map fun d => d.toNat.toUInt8) ++ behind) =
      scanDigits 10 none (ds.map fun d => d.toNat.toUInt8) :=
    scanDigits_append fun b hh => digitValue_of_isSpace (hb b hh)
  rw [scanDigits_toDigits hne hds] at hscan
  obtain ⟨b, bs, hcons⟩ := List.exists_cons_of_ne_nil (show ds.map (fun d => d.toNat.toUInt8) ≠ [] by
    simpa using hne)
  have hlow := (hbyte b (hcons ▸ List.mem_cons_self)).1
  rw [GreenBag.scanLong, hd]
  rw [hcons, List.cons_append] at hscan ⊢
  split
  · rename_i heq
    obtain ⟨rfl, -⟩ := List.cons.inj heq
    exact absurd hlow (by decide)
  · rename_i heq
    obtain ⟨rfl, -⟩ := List.cons.inj heq
    exact absurd hlow (by decide)
  · rw [hscan, Option.map_some]

end

end GreenBag
