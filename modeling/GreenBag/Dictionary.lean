import GreenBag.Urls

/-! `get_bitrate`: the bitrate the dictionary gives for a URL. -/

namespace GreenBag

/-- `fgets` with a buffer of `size` bytes: the line, and what is left of the file. -/
def fgets (size : ℕ) (file : List UInt8) : List UInt8 × List UInt8 :=
  match Cuts.first 10 (file.take (size - 1)) with
  | none => (file.take (size - 1), file.drop (size - 1))
  | some (line, _) => (line ++ [10], file.drop (line.length + 1))

/-- The lines that `fgets` returns, so many at most. -/
def fgetsAll (size : ℕ) : ℕ → List UInt8 → List (List UInt8)
  | 0, _ => []
  | n + 1, file => if file = [] then [] else (fgets size file).1 :: fgetsAll size n (fgets size file).2

def lineSize : ℕ := 2048

def urlSize : ℕ := 512

/-- The conversion `%d`. -/
def scanDecimal (s : List UInt8) : Option ℤ :=
  match s.dropWhile isSpace with
  | 45 :: ds => (scanDigits 10 none ds).map fun n : ℕ => -(n : ℤ)
  | 43 :: ds => (scanDigits 10 none ds).map Nat.cast
  | ds => (scanDigits 10 none ds).map Nat.cast

/-- The number behind the first word. -/
def lineBitrate (s : List UInt8) : Option ℤ :=
  scanDecimal ((s.dropWhile isSpace).dropWhile fun b => !isSpace b)

/-- The word fits in `f_url` and the number in an `int`. -/
def EntryFits (s : List UInt8) : Prop :=
  (firstWord s).length < urlSize ∧ ∀ n ∈ lineBitrate s, FitsInt n

instance (s : List UInt8) : Decidable (EntryFits s) := inferInstanceAs (Decidable (_ ∧ _))

/-- `sscanf` with `%s\t%d`: what it leaves in `f_url` and `bitrate`. The string in `f_url` is nothing
where the array holds no terminator. The result is nothing where the word is too long or the number is
no `int`. -/
def scanEntry (s : List UInt8) (fUrl : Option (List UInt8)) (bitrate : ℤ) :
    Option (Option (List UInt8) × ℤ) :=
  let word := firstWord s
  if word = [] then some (fUrl, bitrate)
  else if word.length ≥ urlSize then none
  else
    match lineBitrate s with
    | none => some (some word, bitrate)
    | some n => if FitsInt n then some (some word, n) else none

/-- The loop over the lines. Nothing where a string without a terminator is read. -/
def searchLines (url : List UInt8) (fUrl : Option (List UInt8)) (bitrate : ℤ) :
    List (List UInt8) → Option ℤ
  | [] => some (-1)
  | line :: rest =>
    let s := line.takeWhile (· ≠ 0)
    if s.head? = some 35 then searchLines url fUrl bitrate rest
    else do
      let (fUrl, bitrate) ← scanEntry s fUrl bitrate
      let word ← fUrl
      if word = url then some bitrate else searchLines url fUrl bitrate rest

/-- The dictionary may be missing; `fUrl` and `bitrate` are what the variables hold at first. -/
def getBitrate (dict : Option (List UInt8)) (fUrl : Option (List UInt8)) (bitrate : ℤ)
    (url : List UInt8) : Option ℤ :=
  match dict with
  | none => some (-1)
  | some file => searchLines url fUrl bitrate (fgetsAll lineSize file.length file)

/-- The bitrate on the first line that is no comment and has the URL and a bitrate; what stands behind
the bitrate does not matter. -/
def lookup (url : List UInt8) (lines : List (List UInt8)) : Option ℤ :=
  lines.findSome? fun line =>
    if line.head? ≠ some 35 ∧ firstWord line ≠ [] ∧ firstWord line = url then lineBitrate line else none

/-- What the function should return. -/
def wantedBitrate (url file : List UInt8) : ℤ := (lookup url (file.splitOn 10)).getD (-1)

/-- The answer is right, whatever the variables hold at first. -/
def BitrateRight (url file : List UInt8) : Prop :=
  ∀ fUrl bitrate, getBitrate (some file) fUrl bitrate url = some (wantedBitrate url file)

/-- The lines read that are no comments, up to their terminators. -/
def entryLines (lines : List (List UInt8)) : List (List UInt8) :=
  (lines.map (List.takeWhile (· ≠ 0))).filter (·.head? ≠ some 35)

def Names (url s : List UInt8) : Prop := firstWord s ≠ [] ∧ firstWord s = url

instance (url s : List UInt8) : Decidable (Names url s) := inferInstanceAs (Decidable (_ ∧ _))

/-- The lines before the first one with the URL. -/
def linesBefore (url : List UInt8) (lines : List (List UInt8)) : List (List UInt8) :=
  lines.takeWhile fun s => ¬ Names url s

def lineOf (url : List UInt8) (lines : List (List UInt8)) : Option (List UInt8) :=
  lines.find? fun s => Names url s

/-- The last bitrate on the lines. -/
def lastBitrate (lines : List (List UInt8)) : Option ℤ :=
  (lines.filterMap lineBitrate).getLast?

/-- The first line with the URL, if there is one, gives the wanted bitrate, or gives none and the last
bitrate before it is the wanted one. -/
def Answers (wanted : ℤ) (before : List (List UInt8)) : Option (List UInt8) → Prop
  | none => wanted = -1
  | some s => lineBitrate s = some wanted ∨ lineBitrate s = none ∧ lastBitrate before = some wanted

/-- The first line read has a word, all up to the one with the URL fit, and that one answers. -/
structure Answerable (url file : List UInt8) (lines : List (List UInt8)) : Prop where
  first : ∀ s, lines.head? = some s → firstWord s ≠ []
  fits : ∀ s ∈ linesBefore url lines ++ (lineOf url lines).toList, EntryFits s
  answers : Answers (wantedBitrate url file) (linesBefore url lines) (lineOf url lines)

section

variable {url file s : List UInt8} {lines : List (List UInt8)} {fUrl : Option (List UInt8)}
  {bitrate wanted : ℤ}

lemma lineBitrate_blank (h : firstWord s = []) : lineBitrate s = none := by
  have hnil : s.dropWhile isSpace = [] := by
    cases hs : s.dropWhile isSpace with
    | nil => rfl
    | cons b bs =>
      have hb := List.head?_dropWhile_not isSpace s
      rw [hs] at hb
      rw [firstWord, hs, List.takeWhile_cons_of_pos (by simpa using hb)] at h
      cases h
  rw [lineBitrate, hnil]
  rfl

lemma scanEntry_blank (h : firstWord s = []) : scanEntry s fUrl bitrate = some (fUrl, bitrate) := by
  rw [scanEntry, if_pos h]

lemma scanEntry_fits (h : firstWord s ≠ []) (hf : EntryFits s) :
    scanEntry s fUrl bitrate = some (some (firstWord s), (lineBitrate s).getD bitrate) := by
  rw [scanEntry, if_neg h, if_neg (by simpa using hf.1)]
  cases hn : lineBitrate s with
  | none => rfl
  | some n => simp [hf.2 n hn]

lemma scanEntry_none (h : firstWord s ≠ []) (hf : ¬ EntryFits s) : scanEntry s fUrl bitrate = none := by
  rw [scanEntry, if_neg h]
  split_ifs with hl
  · rfl
  · cases hn : lineBitrate s with
    | none => exact absurd ⟨by simpa using hl, by simp [hn]⟩ hf
    | some n =>
      have hfit : ¬ FitsInt n := fun hfit => hf ⟨by simpa using hl, by simpa [hn] using hfit⟩
      simp [hfit]

lemma entryLines_comment {line : List UInt8} (h : (line.takeWhile (· ≠ 0)).head? = some 35) :
    entryLines (line :: lines) = entryLines lines := by
  rw [entryLines, List.map_cons, List.filter_cons_of_neg (by simpa using h)]
  rfl

lemma entryLines_entry {line : List UInt8} (h : (line.takeWhile (· ≠ 0)).head? ≠ some 35) :
    entryLines (line :: lines) = line.takeWhile (· ≠ 0) :: entryLines lines := by
  rw [entryLines, List.map_cons, List.filter_cons_of_pos (by simpa using h)]
  rfl

lemma searchLines_comment {line : List UInt8} (h : (line.takeWhile (· ≠ 0)).head? = some 35) :
    searchLines url fUrl bitrate (line :: lines) = searchLines url fUrl bitrate lines := by
  rw [searchLines, if_pos h]

lemma searchLines_entry {line word : List UInt8} {n : ℤ} (ht : line.takeWhile (· ≠ 0) = s)
    (h : s.head? ≠ some 35) (hs : scanEntry s fUrl bitrate = some (some word, n)) :
    searchLines url fUrl bitrate (line :: lines) =
      if word = url then some n else searchLines url (some word) n lines := by
  rw [searchLines, ht, if_neg h, hs]
  rfl

lemma searchLines_fault {line : List UInt8} (ht : line.takeWhile (· ≠ 0) = s) (h : s.head? ≠ some 35)
    (hs : (scanEntry s fUrl bitrate).bind Prod.fst = none) :
    searchLines url fUrl bitrate (line :: lines) = none := by
  rw [searchLines, ht, if_neg h]
  cases hp : scanEntry s fUrl bitrate with
  | none => rfl
  | some p =>
    obtain ⟨f, n⟩ := p
    rw [hp] at hs
    obtain rfl : f = none := hs
    rfl

/-- What the search returns once another word is in `f_url`. -/
def searchResult (url : List UInt8) (bitrate : ℤ) (lines : List (List UInt8)) : ℤ :=
  match lineOf url lines with
  | none => -1
  | some s => ((lineBitrate s).or (lastBitrate (linesBefore url lines))).getD bitrate

lemma lastBitrate_cons (s : List UInt8) (lines : List (List UInt8)) (bitrate : ℤ) :
    (lastBitrate (s :: lines)).getD bitrate = (lastBitrate lines).getD ((lineBitrate s).getD bitrate) := by
  rw [lastBitrate, lastBitrate]
  cases hn : lineBitrate s with
  | none => rw [List.filterMap_cons_none hn, Option.getD_none]
  | some n =>
    rw [List.filterMap_cons_some hn, List.getLast?_cons, Option.getD_some, Option.getD_some]

lemma linesBefore_names (h : Names url s) : linesBefore url (s :: lines) = [] ∧
    lineOf url (s :: lines) = some s := by
  simp [linesBefore, lineOf, h]

lemma linesBefore_other (h : ¬ Names url s) : linesBefore url (s :: lines) = s :: linesBefore url lines ∧
    lineOf url (s :: lines) = lineOf url lines := by
  simp [linesBefore, lineOf, h]

lemma searchResult_other (h : ¬ Names url s) :
    searchResult url bitrate (s :: lines) = searchResult url ((lineBitrate s).getD bitrate) lines := by
  rw [searchResult, searchResult, (linesBefore_other h).1, (linesBefore_other h).2]
  cases lineOf url lines with
  | none => rfl
  | some s' =>
    cases hn : lineBitrate s' with
    | none => simpa [hn] using lastBitrate_cons s _ bitrate
    | some n => simp [hn]

lemma searchLines_eq_some {word : List UInt8} (hw : word ≠ url) (lines : List (List UInt8)) (bitrate n : ℤ) :
    searchLines url (some word) bitrate lines = some n ↔
      (∀ s ∈ linesBefore url (entryLines lines) ++ (lineOf url (entryLines lines)).toList, EntryFits s) ∧
        n = searchResult url bitrate (entryLines lines) := by
  induction lines generalizing word bitrate with
  | nil => simp [searchLines, searchResult, entryLines, linesBefore, lineOf, eq_comm]
  | cons line lines ih =>
    by_cases hc : (line.takeWhile (· ≠ 0)).head? = some 35
    · rw [searchLines_comment hc, entryLines_comment hc, ih hw]
    rw [entryLines_entry hc]
    generalize ht : line.takeWhile (· ≠ 0) = s at hc
    by_cases hn : Names url s
    · rw [searchResult, (linesBefore_names hn).1, (linesBefore_names hn).2]
      by_cases hf : EntryFits s
      · rw [searchLines_entry ht hc (scanEntry_fits hn.1 hf), if_pos hn.2]
        simp [hf, lastBitrate, eq_comm]
      · rw [searchLines_fault ht hc (by rw [scanEntry_none hn.1 hf]; rfl)]
        simp [hf]
    · rw [searchResult_other hn, (linesBefore_other hn).1, (linesBefore_other hn).2, List.cons_append,
        List.forall_mem_cons]
      by_cases hblank : firstWord s = []
      · have hf : EntryFits s := ⟨by simp [hblank, urlSize], by simp [lineBitrate_blank hblank]⟩
        rw [searchLines_entry ht hc (scanEntry_blank hblank), if_neg hw, ih hw, lineBitrate_blank hblank]
        simp [hf]
      · have hother : firstWord s ≠ url := fun he => hn ⟨hblank, he⟩
        by_cases hf : EntryFits s
        · rw [searchLines_entry ht hc (scanEntry_fits hblank hf), if_neg hother, ih hother]
          simp [hf]
        · rw [searchLines_fault ht hc (by rw [scanEntry_none hblank hf]; rfl)]
          simp [hf]

/-- The first line with a word puts it in `f_url`. -/
lemma searchLines_first (hfirst : ∀ s, (entryLines lines).head? = some s → firstWord s ≠ [])
    (fUrl : Option (List UInt8)) (bitrate n : ℤ) :
    searchLines url fUrl bitrate lines = some n ↔
      (∀ s ∈ linesBefore url (entryLines lines) ++ (lineOf url (entryLines lines)).toList, EntryFits s) ∧
        n = searchResult url bitrate (entryLines lines) := by
  have hword : ∃ word : List UInt8, word ≠ url := ⟨0 :: url, by simp⟩
  obtain ⟨word, hw⟩ := hword
  have hsame : searchLines url fUrl bitrate lines = searchLines url (some word) bitrate lines := by
    induction lines with
    | nil => rfl
    | cons line lines ih =>
      by_cases hc : (line.takeWhile (· ≠ 0)).head? = some 35
      · rw [entryLines_comment hc] at hfirst
        rw [searchLines_comment hc, searchLines_comment hc, ih hfirst]
      rw [entryLines_entry hc] at hfirst
      generalize ht : line.takeWhile (· ≠ 0) = s at hc hfirst
      have hne := hfirst s rfl
      by_cases hf : EntryFits s
      · rw [searchLines_entry ht hc (scanEntry_fits hne hf), searchLines_entry ht hc (scanEntry_fits hne hf)]
      · rw [searchLines_fault ht hc (by rw [scanEntry_none hne hf]; rfl),
          searchLines_fault ht hc (by rw [scanEntry_none hne hf]; rfl)]
  rw [hsame, searchLines_eq_some hw]

/-- Where the first line read is blank, the string in `f_url` is compared before there is one. -/
lemma searchLines_blank (h : (entryLines lines).head? = some s) (hs : firstWord s = []) :
    searchLines url none bitrate lines = none := by
  induction lines with
  | nil => cases h
  | cons line lines ih =>
    by_cases hc : (line.takeWhile (· ≠ 0)).head? = some 35
    · rw [entryLines_comment hc] at h
      rw [searchLines_comment hc, ih h]
    · rw [entryLines_entry hc] at h
      obtain rfl := Option.some.inj h
      rw [searchLines_fault rfl hc (by rw [scanEntry_blank hs]; rfl)]

/-- The answer does not depend on what is in `bitrate` at first. -/
lemma searchResult_eq_iff : (∀ bitrate, wanted = searchResult url bitrate lines) ↔
    Answers wanted (linesBefore url lines) (lineOf url lines) := by
  unfold searchResult
  cases lineOf url lines with
  | none => simp [Answers]
  | some s =>
    cases hn : lineBitrate s with
    | some n => simp [Answers, hn, eq_comm]
    | none =>
      cases hl : lastBitrate (linesBefore url lines) with
      | some n => simp [Answers, hn, hl, eq_comm]
      | none =>
        simp only [Answers, hn, hl, Option.or_none, Option.getD_none, reduceCtorEq, and_false, or_self, iff_false]
        exact fun h => by
          have h₀ := h (wanted + 1)
          omega

/-- The function is right exactly on the dictionaries whose first line with the URL answers. -/
theorem bitrateRight_iff (url file : List UInt8) :
    BitrateRight url file ↔ Answerable url file (entryLines (fgetsAll lineSize file.length file)) := by
  rw [BitrateRight]
  simp only [getBitrate]
  generalize fgetsAll lineSize file.length file = lines
  by_cases hfirst : ∀ s, (entryLines lines).head? = some s → firstWord s ≠ []
  · simp only [searchLines_first hfirst]
    constructor
    · intro h
      exact ⟨hfirst, (h none 0).1, searchResult_eq_iff.mp fun bitrate => (h none bitrate).2⟩
    · rintro ⟨-, hfits, hanswers⟩ fUrl bitrate
      exact ⟨hfits, searchResult_eq_iff.mpr hanswers bitrate⟩
  · refine iff_of_false (fun h => ?_) fun h => hfirst h.first
    obtain ⟨s, hs, hblank⟩ : ∃ s, (entryLines lines).head? = some s ∧ firstWord s = [] := by
      simpa using hfirst
    have hnone := h none 0
    rw [searchLines_blank hs hblank] at hnone
    cases hnone

end

/-- The URL on a line without a bitrate gets that of the line before. -/
theorem bitrate_of_other_line : ¬ BitrateRight (text "http://b/v") (text "http://a/v 500\nhttp://b/v\n") := by
  intro h
  have hother : getBitrate (some (text "http://a/v 500\nhttp://b/v\n")) none 0 (text "http://b/v") =
      some 500 := by decide
  have hnone : wantedBitrate (text "http://b/v") (text "http://a/v 500\nhttp://b/v\n") = -1 := by decide
  have hright := h none 0
  rw [hother, hnone] at hright
  cases hright

end GreenBag
