import GreenBag.Fields
import GreenBag.Urls

/-! `accept_request`: the first line of a request to the proxy, and the file that is served for it. -/

namespace GreenBag

/-- A fault is an access outside of a buffer or of what was received, or through a null pointer. -/
inductive RequestFault
  | died
  | assertion
  | outOfBounds
  deriving DecidableEq, Repr

def httpLineSize : ℕ := 2048

def methodSize : ℕ := 16

def requestUrlSize : ℕ := 2023

def httpVersionSize : ℕ := 9

def localPathSize : ℕ := 512

def inBounds (size i : ℕ) : Except RequestFault Unit := if i < size then .ok () else .error .outOfBounds

/-- The rounds of `get_line`; the bytes that have arrived are as many as the count. -/
def getLineFrom (size : ℕ) (readCr : Bool) (count : ℕ) : List UInt8 → Except RequestFault (List UInt8)
  | [] => do
    inBounds size count
    return [0]
  | c :: cs => do
    inBounds size count
    if size ≤ count + 1 then throw .assertion
    if (readCr && c = 10) || 1000 ≤ count then do
      inBounds size (count + 1)
      return [c, 0]
    else do
      let buf ← getLineFrom size (c = 13) (count + 1) cs
      return c :: buf

/-- What `get_line` writes to its buffer, from all that the client sends. -/
def getLine (size : ℕ) (incoming : List UInt8) : Except RequestFault (List UInt8) :=
  getLineFrom size false 0 incoming

/-- The loop over a word, from `http_line[j]` on: a character is stored before the bounds are tested. The
word, and the rest of the line from the new `j` on. -/
def copyWord (size i j : ℕ) : List UInt8 → Except RequestFault (List UInt8 × ℕ × List UInt8)
  | [] => throw .outOfBounds
  | c :: rest => do
    if isSpace c then do
      inBounds size i
      return ([], j, c :: rest)
    else do
      inBounds size i
      if size ≤ i ∨ httpLineSize ≤ j then throw .died
      let (word, k, behind) ← copyWord size (i + 1) (j + 1) rest
      return (c :: word, k, behind)

def skipBlanks (j : ℕ) : List UInt8 → Except RequestFault (ℕ × List UInt8)
  | [] => throw .outOfBounds
  | c :: rest =>
    if isSpace c then
      if httpLineSize ≤ j + 1 then throw .died else skipBlanks (j + 1) rest
    else return (j, c :: rest)

/-- The loop over the version, with the rounds to come, and the terminator behind it. -/
def copyVersion (i j : ℕ) : ℕ → List UInt8 → Except RequestFault (List UInt8)
  | 0, _ => do
    inBounds httpVersionSize i
    return []
  | _ + 1, [] => throw .outOfBounds
  | n + 1, c :: rest => do
    inBounds httpVersionSize i
    if httpLineSize ≤ j then throw .died
    let version ← copyVersion (i + 1) (j + 1) n rest
    return c :: version

/-- What stands in the three buffers in front of the NUL that ends each of them. -/
structure Request where
  method : List UInt8
  url : List UInt8
  httpVersion : List UInt8
  deriving DecidableEq, Repr

def parseRequest (line : List UInt8) : Except RequestFault Request := do
  let (method, j, rest) ← copyWord methodSize 0 0 line
  let (j, rest) ← skipBlanks j rest
  let (url, j, rest) ← copyWord requestUrlSize 0 j rest
  let (j, rest) ← skipBlanks j rest
  let httpVersion ← copyVersion 0 j 8 rest
  return ⟨method, url, httpVersion⟩

/-- The string in a buffer from an index on. -/
def stringAt (buf : List UInt8) (i : ℕ) : Except RequestFault (List UInt8) :=
  match Cuts.first 0 (buf.drop i) with
  | some (s, _) => return s
  | none => throw .outOfBounds

def poke (buf : List UInt8) (i : ℕ) (b : UInt8) : Except RequestFault (List UInt8) := do
  inBounds buf.length i
  return buf.set i b

structure UrlParts where
  protocol : List UInt8
  host : List UInt8
  port : List UInt8
  absPath : List UInt8
  deriving DecidableEq, Repr

/-- The host and the port in front of a NUL. The colon between them is cut out and put back. -/
def takeHost (buf : List UInt8) (start : ℕ) :
    Except RequestFault (List UInt8 × List UInt8 × List UInt8) := do
  let s ← stringAt buf start
  match Cuts.first 58 s with
  | some (before, _) => do
    let colon := start + before.length
    let buf ← poke buf colon 0
    let host ← stringAt buf start
    let buf ← poke buf colon 58
    let port ← stringAt buf (colon + 1)
    return (buf, host, port)
  | none => return (buf, s, text "80")

/-- `decompose_url` on the string that starts at an index of a buffer: the buffer behind it, and the
parts. The slash behind the host is cut out and put back, and where there is none a null pointer is
written through. -/
def decomposeUrl (buf : List UInt8) (url : ℕ) : Except RequestFault (List UInt8 × UrlParts) := do
  let s ← stringAt buf url
  let blanks := (s.takeWhile isSpace).length
  if ¬ text "http://" <+: s.drop blanks then throw .died
  let protocol := (s.drop blanks).take 4
  let start := url + blanks + 7
  let s ← stringAt buf start
  match Cuts.first 47 s with
  | none => throw .outOfBounds
  | some (authority, _) => do
    let marker := start + authority.length
    let buf ← poke buf marker 0
    let (buf, host, port) ← takeHost buf start
    let buf ← poke buf marker 47
    let absPath ← stringAt buf marker
    return (buf, ⟨protocol, host, port, absPath⟩)

/-- `strcat` to a path in a buffer of its size. -/
def appendPath (path s : List UInt8) : Except RequestFault (List UInt8) := do
  inBounds localPathSize (path.length + s.length)
  return path ++ s

/-- The path that `accept_request` tests. -/
def testedPath (absPath : List UInt8) : Except RequestFault (List UInt8) := do
  let path ← appendPath [] (text ".")
  match Cuts.last 47 absPath with
  | none => throw .outOfBounds
  | some (_, name) => appendPath path (47 :: name)

/-- The path that `send_local_file` opens. It tests a `file_status` that nothing was written to: the
boolean is whether that says directory. -/
def sendLocalFile (directory : Bool) (url : List UInt8) : Except RequestFault (List UInt8) := do
  let path ← appendPath [] (text ".")
  let path ← appendPath path url
  let path ← if path.getLast? = some 47 then appendPath path (text "index.html") else pure path
  if directory then do
    let path ← appendPath path (text "/")
    appendPath path (text "index.html")
  else return path

inductive ProxyReply
  | unimplemented
  | localCopy (tested opened : List UInt8)
  | remoteFile (parts : UrlParts)
  | localFile (opened : List UInt8)
  deriving DecidableEq, Repr

def remoteMark : List UInt8 := text "/?http://"

/-- A character array as a string. -/
def asString (chars : List UInt8) : List UInt8 := chars.takeWhile (· ≠ 0)

def checkUrlRemote (url : List UInt8) : Bool := remoteMark.isPrefixOf url

/-- Where the remote URL starts: behind the first `?`. -/
def extractRemoteUrl (url : List UInt8) : ℕ := (url.takeWhile (· ≠ 63)).length + 1

/-- What follows once the line is parsed. -/
def serve (directory : Bool) (fileExists : List UInt8 → Bool) (r : Request) : Except RequestFault ProxyReply := do
  if ¬ sameLetters (asString r.method) (text "GET") then return .unimplemented
  if checkUrlRemote (asString r.url) then do
    let (_, parts) ← decomposeUrl (r.url ++ [0]) (extractRemoteUrl (asString r.url))
    let tested ← testedPath parts.absPath
    if fileExists tested then do
      let opened ← sendLocalFile directory parts.absPath
      return .localCopy tested opened
    else return .remoteFile parts
  else do
    let opened ← sendLocalFile directory (asString r.url)
    return .localFile opened

def acceptRequest (directory : Bool) (fileExists : List UInt8 → Bool) (incoming : List UInt8) :
    Except RequestFault (Request × ProxyReply) := do
  let line ← getLine httpLineSize incoming
  let r ← parseRequest line
  let reply ← serve directory fileExists r
  return (r, reply)

/-- The line up to its CRLF. -/
def upToCrLf (incoming : List UInt8) : List UInt8 :=
  match Cuts.pattern [13, 10] incoming with
  | none => incoming
  | some (line, _) => line ++ [13, 10]

/-- The bytes that are read for the first line. -/
def received (incoming : List UInt8) : List UInt8 := (upToCrLf incoming).take 1001

def afterWord (s : List UInt8) : List UInt8 := (s.dropWhile isSpace).dropWhile fun b => !isSpace b

/-- What stands behind the first two words and the blanks behind them. -/
def behindUrl (line : List UInt8) : List UInt8 := (afterWord (afterWord line)).dropWhile isSpace

/-- The first two words of a line and the 8 characters behind them, all of them received. -/
structure Request.Of (r : Request) (line : List UInt8) : Prop where
  method : r.method = firstWord line
  url : r.url = firstWord (afterWord line)
  enough : 8 ≤ (behindUrl line).length
  httpVersion : r.httpVersion = (behindUrl line).take 8

/-- The function dies in order, or it takes the request from the line without a fault. -/
def RequestRight (directory : Bool) (fileExists : List UInt8 → Bool) (incoming : List UInt8) : Prop :=
  acceptRequest directory fileExists incoming = .error .died ∨
    ∃ r reply, acceptRequest directory fileExists incoming = .ok (r, reply) ∧ r.Of (received incoming)

/-- The last component of a path, whose leading slash is not given. -/
def lastName (path : List UInt8) : List UInt8 := (Cuts.last 47 (47 :: path)).elim [] Prod.snd

/-- How long the path is that is opened. -/
def pathLength (directory : Bool) (url : List UInt8) : ℕ :=
  1 + url.length + (if url.getLast? = some 47 then 10 else 0) + if directory then 11 else 0

/-- The paths for a URL fit into their buffers. -/
def PathsFit (directory : Bool) (fileExists : List UInt8 → Bool) (url : List UInt8) : Prop :=
  if checkUrlRemote url then
    ∃ authority path, Cuts.first 47 (url.drop 9) = some (authority, path) ∧ (lastName path).length + 2 < 512 ∧
      (fileExists (46 :: 47 :: lastName path) → pathLength directory (47 :: path) < 512)
  else pathLength directory url < 512

/-- A line that starts with a method of fewer than 16 characters and has a URL and 8 characters more. -/
structure RequestFits (directory : Bool) (fileExists : List UInt8 → Bool) (line : List UInt8) : Prop where
  start : ∃ b, line.head? = some b ∧ isSpace b = false
  method : (firstWord line).length < 16
  enough : 8 ≤ (behindUrl line).length
  paths : sameLetters (asString (firstWord line)) (text "GET") →
    PathsFit directory fileExists (asString (firstWord (afterWord line)))

/-- What a client asks for behind `/?http://`. -/
structure RemoteUrl where
  behind : List UInt8
  plain : 0 ∉ behind

def RemoteUrl.url (u : RemoteUrl) : List UInt8 := remoteMark ++ u.behind

/-- The URL is taken apart and left as it was, and a local copy is opened under the path it was found. -/
structure RemoteRight (directory : Bool) (fileExists : List UInt8 → Bool) (u : RemoteUrl) : Prop where
  decomposed : ∃ parts, decomposeUrl (u.url ++ [0]) (extractRemoteUrl u.url) = .ok (u.url ++ [0], parts) ∧
    (u.behind = parts.host ++ 58 :: (parts.port ++ parts.absPath) ∨
      u.behind = parts.host ++ parts.absPath ∧ parts.port = text "80")
  agreed : ∀ parts tested, decomposeUrl (u.url ++ [0]) (extractRemoteUrl u.url) = .ok (u.url ++ [0], parts) →
    testedPath parts.absPath = .ok tested → fileExists tested → ∀ httpVersion,
      serve directory fileExists ⟨text "GET", u.url, httpVersion⟩ = .ok (.localCopy tested tested)

/-- A path stands behind the host, and where there is a file for its last component, that is all of it. -/
def RemoteFits (directory : Bool) (fileExists : List UInt8 → Bool) (u : RemoteUrl) : Prop :=
  ∃ authority path, Cuts.first 47 u.behind = some (authority, path) ∧
    ((lastName path).length + 2 < 512 → fileExists (46 :: 47 :: lastName path) →
      47 ∉ path ∧ path ≠ [] ∧ directory = false)

section Except

variable {α β : Type} {e : RequestFault} {a : α} {b : β} {x : Except RequestFault α} {f : α → Except RequestFault β}
  {size i : ℕ}

@[simp] lemma ok_bind : ((Except.ok a : Except RequestFault α) >>= f) = f a := rfl

@[simp] lemma error_bind : ((Except.error e : Except RequestFault α) >>= f) = .error e := rfl

lemma bind_eq_ok : x >>= f = .ok b ↔ ∃ a, x = .ok a ∧ f a = .ok b := by
  cases x <;> simp

lemma inBounds_of_lt (h : i < size) : inBounds size i = .ok () := if_pos h

lemma inBounds_of_le (h : size ≤ i) : inBounds size i = .error .outOfBounds := if_neg (by omega)

end Except

section Line

variable {c : UInt8} {cs l : List UInt8} {size count i j n : ℕ} {readCr : Bool}

lemma upToCrLf_cons : upToCrLf (c :: cs) = if c = 13 ∧ cs.head? = some 10 then [13, 10] else c :: upToCrLf cs := by
  have hstarts : [13, 10] <+: c :: cs ↔ c = 13 ∧ cs.head? = some 10 := by
    cases cs <;> simp [List.cons_prefix_cons, eq_comm]
  rw [upToCrLf, upToCrLf, Cuts.pattern]
  simp only [hstarts]
  split_ifs with h
  · rfl
  · cases Cuts.pattern [13, 10] cs <;> rfl

/-- The bytes up to the end of the line go to the buffer, and a NUL behind them. -/
lemma getLineFrom_eq (hc : count ≤ 1000) : getLineFrom httpLineSize readCr count cs =
    .ok ((if readCr = true ∧ cs.head? = some 10 then [10] else (upToCrLf cs).take (1001 - count)) ++ [0]) := by
  induction cs generalizing readCr count with
  | nil =>
    rw [getLineFrom, inBounds_of_lt (by rw [httpLineSize]; omega)]
    simp [upToCrLf, Cuts.pattern]
  | cons c cs ih =>
    have hsize : httpLineSize = 2048 := rfl
    rw [getLineFrom, inBounds_of_lt (by omega), ok_bind, if_neg (by omega), inBounds_of_lt (by omega)]
    by_cases hend : readCr = true ∧ c = 10
    · obtain ⟨rfl, rfl⟩ := hend
      simp
    have hnot : ¬ (readCr = true ∧ (c :: cs).head? = some 10) := by simpa using hend
    have hstep : ((readCr && decide (c = 10)) || decide (1000 ≤ count)) = decide (1000 ≤ count) := by
      cases readCr <;> simp_all
    rw [if_neg hnot, hstep]
    by_cases hlimit : 1000 ≤ count
    · obtain rfl : count = 1000 := by omega
      rw [if_pos (by simp), upToCrLf_cons]
      split_ifs with h
      · simp [h.1]
      · simp
    · have htake : 1001 - count = (1000 - count) + 1 := by omega
      rw [if_neg (by simpa using hlimit), ih (by omega), upToCrLf_cons, htake]
      by_cases hcr : c = 13
      · by_cases hlf : cs.head? = some 10
        · have htwo : 1000 - count = (999 - count) + 1 := by omega
          simp [hcr, hlf, htwo]
        · simp [hcr, hlf]
      · simp [hcr]

lemma length_received (incoming : List UInt8) : (received incoming).length ≤ 1001 := by
  rw [received, List.length_take]
  omega

lemma getLine_eq (incoming : List UInt8) : getLine httpLineSize incoming = .ok (received incoming ++ [0]) := by
  rw [getLine, getLineFrom_eq (by omega)]
  simp [received]

/-- The loop over a word takes it where there is room for it and more behind it. -/
lemma copyWord_eq (hj : j + l.length < httpLineSize) : copyWord size i j l =
    if (l.dropWhile fun b => !isSpace b) ≠ [] ∧ i + (l.takeWhile fun b => !isSpace b).length < size then
      .ok (l.takeWhile fun b => !isSpace b, j + (l.takeWhile fun b => !isSpace b).length,
        l.dropWhile fun b => !isSpace b)
    else .error .outOfBounds := by
  induction l generalizing i j with
  | nil => rfl
  | cons c cs ih =>
    rw [List.length_cons] at hj
    rw [copyWord]
    by_cases hc : isSpace c
    · by_cases hi : i < size
      · simp [hc, hi, inBounds_of_lt]
      · simp [hc, hi, inBounds_of_le (not_lt.mp hi)]
    · by_cases hi : i < size
      · have hdied : ¬ (size ≤ i ∨ httpLineSize ≤ j) := by omega
        have hc' : (!isSpace c) = true := by simpa using hc
        have hlen : ∀ k, k + ((cs.takeWhile fun b => !isSpace b).length + 1) =
          k + 1 + (cs.takeWhile fun b => !isSpace b).length := fun k => by omega
        have htake : (c :: cs).takeWhile (fun b => !isSpace b) = c :: cs.takeWhile fun b => !isSpace b :=
          List.takeWhile_cons_of_pos hc'
        have hdrop : (c :: cs).dropWhile (fun b => !isSpace b) = cs.dropWhile fun b => !isSpace b :=
          List.dropWhile_cons_of_pos hc'
        rw [if_neg hc, inBounds_of_lt hi, ok_bind, if_neg hdied, ih (by omega), htake, hdrop, List.length_cons,
          hlen, hlen]
        split_ifs <;> rfl
      · rw [if_neg hc, inBounds_of_le (not_lt.mp hi), error_bind, if_neg]
        omega

lemma skipBlanks_eq (hj : j + l.length < httpLineSize) : skipBlanks j l =
    if l.dropWhile isSpace ≠ [] then .ok (j + (l.takeWhile isSpace).length, l.dropWhile isSpace)
    else .error .outOfBounds := by
  induction l generalizing j with
  | nil => rfl
  | cons c cs ih =>
    rw [List.length_cons] at hj
    rw [skipBlanks]
    by_cases hc : isSpace c
    · have hlen : j + ((cs.takeWhile isSpace).length + 1) = j + 1 + (cs.takeWhile isSpace).length := by omega
      rw [if_pos hc, if_neg (by omega), ih (by omega), List.dropWhile_cons_of_pos hc,
        List.takeWhile_cons_of_pos hc, List.length_cons, hlen]
    · rw [if_neg hc, List.dropWhile_cons_of_neg hc, List.takeWhile_cons_of_neg hc]
      simp
      rfl

lemma copyVersion_eq (hi : i + n < httpVersionSize) (hj : j + l.length < httpLineSize) :
    copyVersion i j n l = if n ≤ l.length then .ok (l.take n) else .error .outOfBounds := by
  induction n generalizing i j l with
  | zero =>
    rw [copyVersion, inBounds_of_lt (by omega)]
    simp
  | succ n ih =>
    cases l with
    | nil => rfl
    | cons c cs =>
      rw [List.length_cons] at hj
      rw [copyVersion, inBounds_of_lt (by omega), ok_bind, if_neg (by omega), ih (by omega) (by omega)]
      by_cases hn : n ≤ cs.length <;> simp [hn]

lemma dropWhile_snoc {p : UInt8 → Bool} (h : l.dropWhile p ≠ []) (b : UInt8) :
    (l ++ [b]).dropWhile p = l.dropWhile p ++ [b] := by
  rw [List.dropWhile_append, if_neg (by simpa using h)]

lemma dropWhile_snoc_nil {p : UInt8 → Bool} (h : l.dropWhile p = []) (b : UInt8) :
    (l ++ [b]).dropWhile p = [b].dropWhile p := by
  rw [List.dropWhile_append, if_pos (by simpa using h)]

lemma takeWhile_snoc {p : UInt8 → Bool} (h : l.dropWhile p ≠ []) (b : UInt8) :
    (l ++ [b]).takeWhile p = l.takeWhile p := by
  rw [List.takeWhile_append, if_neg]
  intro hlen
  have hsum := congrArg List.length (List.takeWhile_append_dropWhile (p := p) (l := l))
  rw [List.length_append, hlen] at hsum
  exact h (List.length_eq_zero_iff.mp (by omega))

lemma length_span (p : UInt8 → Bool) (l : List UInt8) :
    (l.takeWhile p).length + (l.dropWhile p).length = l.length := by
  rw [← List.length_append, List.takeWhile_append_dropWhile]

/-- The version is taken from what stands behind the URL and its blanks, with the NUL behind it. -/
lemma parseVersion_eq {α : Type} (f : List UInt8 → Except RequestFault α) (hj : j + l.length < 2000) : (do
      let (j, rest) ← skipBlanks j (l ++ [0])
      let version ← copyVersion 0 j 8 rest
      f version) =
    if 7 ≤ (l.dropWhile isSpace).length then f ((l.dropWhile isSpace ++ [0]).take 8)
    else .error .outOfBounds := by
  have hsize : httpLineSize = 2048 := rfl
  have hspan := length_span isSpace (l ++ [0])
  rw [List.length_append, List.length_singleton] at hspan
  rw [skipBlanks_eq (by rw [List.length_append, List.length_singleton]; omega)]
  by_cases hd : l.dropWhile isSpace = []
  · rw [dropWhile_snoc_nil hd] at hspan ⊢
    rw [hd, if_pos (by decide), ok_bind]
    dsimp only
    rw [copyVersion_eq (by decide) (by omega)]
    simp [List.dropWhile, isSpace]
  · rw [dropWhile_snoc hd] at hspan ⊢
    rw [if_pos (by simp), ok_bind]
    dsimp only
    rw [copyVersion_eq (by decide) (by omega), List.length_append, List.length_singleton]
    by_cases hn : 7 ≤ (l.dropWhile isSpace).length
    · rw [if_pos hn, if_pos (by omega), ok_bind]
    · rw [if_neg hn, if_neg (by omega), error_bind]

/-- The request is taken from the line and the NUL behind it, with a method from where the line starts. -/
lemma parseRequest_eq (hl : l.length ≤ 1001) : parseRequest (l ++ [0]) =
    if (l.takeWhile fun b => !isSpace b).length < methodSize ∧
        7 ≤ ((afterWord (l.dropWhile fun b => !isSpace b)).dropWhile isSpace).length then
      .ok ⟨l.takeWhile fun b => !isSpace b, firstWord (l.dropWhile fun b => !isSpace b),
        ((afterWord (l.dropWhile fun b => !isSpace b)).dropWhile isSpace ++ [0]).take 8⟩
    else .error .outOfBounds := by
  have hsize : httpLineSize = 2048 := rfl
  have hspan := length_span (fun b => !isSpace b) l
  rw [parseRequest, copyWord_eq (by rw [List.length_append, List.length_singleton]; omega)]
  by_cases hd : (l.dropWhile fun b => !isSpace b) = []
  · rw [dropWhile_snoc_nil hd, hd]
    simp [afterWord, List.dropWhile, isSpace]
  rw [dropWhile_snoc hd, takeWhile_snoc hd]
  generalize (l.takeWhile fun b => !isSpace b) = method at *
  generalize (l.dropWhile fun b => !isSpace b) = d at *
  by_cases hm : method.length < methodSize
  swap
  · simp [hm]
  rw [if_pos ⟨by simp, by omega⟩, ok_bind]
  dsimp only
  have hspan' := length_span isSpace (d ++ [0])
  rw [List.length_append, List.length_singleton] at hspan'
  rw [skipBlanks_eq (by rw [List.length_append, List.length_singleton]; omega), firstWord, afterWord]
  by_cases hd' : d.dropWhile isSpace = []
  · rw [dropWhile_snoc_nil hd'] at hspan' ⊢
    rw [hd', if_pos (by decide), ok_bind]
    dsimp only
    rw [copyWord_eq (by omega), if_neg (by simp [List.dropWhile, isSpace])]
    simp
  rw [dropWhile_snoc hd'] at hspan' ⊢
  rw [if_pos (by simp), ok_bind]
  dsimp only
  rw [List.length_append, List.length_singleton] at hspan'
  have hspan'' := length_span (fun b => !isSpace b) (d.dropWhile isSpace)
  rw [copyWord_eq (by rw [List.length_append, List.length_singleton]; omega)]
  by_cases he : ((d.dropWhile isSpace).dropWhile fun b => !isSpace b) = []
  · rw [dropWhile_snoc_nil he, he, if_neg (by simp [List.dropWhile, isSpace])]
    simp
  have hroom : requestUrlSize = 2023 := rfl
  rw [dropWhile_snoc he, takeWhile_snoc he, if_pos ⟨by simp, by omega⟩, ok_bind]
  dsimp only
  rw [parseVersion_eq _ (by omega)]
  simp only [hm, true_and]
  rfl

end Line

section Url

variable {pre s xs ys more authority path url behind : List UInt8} {b c : UInt8} {start : ℕ} {directory : Bool}
  {fileExists : List UInt8 → Bool}

lemma stringAt_append (hs : 0 ∉ s) (hi : start = pre.length) :
    stringAt (pre ++ (s ++ 0 :: more)) start = .ok s := by
  rw [stringAt, hi, List.drop_left, Cuts.first_append hs]
  rfl

lemma poke_append (hi : start = pre.length) : poke (pre ++ b :: more) start c = .ok (pre ++ c :: more) := by
  rw [poke, inBounds_of_lt (by simp [hi]), ok_bind, hi, List.set_append_right _ _ le_rfl, Nat.sub_self,
    List.set_cons_zero]
  rfl

/-- The host and the port of an authority. -/
def hostPort (authority : List UInt8) : List UInt8 × List UInt8 :=
  (Cuts.first 58 authority).elim (authority, text "80") id

lemma takeHost_append (h0 : 0 ∉ authority) (hi : start = pre.length) :
    takeHost (pre ++ (authority ++ 0 :: more)) start =
      .ok (pre ++ (authority ++ 0 :: more), (hostPort authority).1, (hostPort authority).2) := by
  rw [takeHost, stringAt_append h0 hi, ok_bind, hostPort]
  cases hf : Cuts.first 58 authority with
  | none => rfl
  | some cut =>
    obtain ⟨host, port⟩ := cut
    obtain ⟨rfl, -⟩ := Cuts.of_first hf
    simp only [List.mem_append, List.mem_cons, not_or] at h0
    have hbuf : ∀ c : UInt8, pre ++ (host ++ c :: port ++ 0 :: more) = pre ++ host ++ c :: (port ++ 0 :: more) :=
      fun c => by simp
    have hhost : ∀ l, pre ++ host ++ l = pre ++ (host ++ l) := fun l => List.append_assoc _ _ _
    have hport : pre ++ host ++ 58 :: (port ++ 0 :: more) = pre ++ host ++ [58] ++ (port ++ 0 :: more) := by simp
    dsimp only
    rw [hbuf, poke_append (by simp [hi]), ok_bind, hhost, stringAt_append h0.1 hi, ok_bind, ← hhost,
      poke_append (by simp [hi]), ok_bind, hport,
      stringAt_append h0.2.2 (by simp [hi, Nat.add_assoc])]
    rfl

/-- The function looks for the slash behind `http://`. -/
lemma decomposeUrl_start (h0 : 0 ∉ behind) (hi : start = pre.length) :
    decomposeUrl (pre ++ (text "http://" ++ behind ++ 0 :: more)) start =
      match Cuts.first 47 behind with
      | none => throw .outOfBounds
      | some (authority, _) => do
        let buf ← poke (pre ++ text "http://" ++ (behind ++ 0 :: more))
          ((pre ++ text "http://").length + authority.length) 0
        let (buf, host, port) ← takeHost buf (pre ++ text "http://").length
        let buf ← poke buf ((pre ++ text "http://").length + authority.length) 47
        let absPath ← stringAt buf ((pre ++ text "http://").length + authority.length)
        return (buf, ⟨text "http", host, port, absPath⟩) := by
  have hhttp : text "http://" = [104, 116, 116, 112, 58, 47, 47] := by decide
  have hnul : 0 ∉ text "http://" ++ behind := by
    rw [hhttp]
    simpa using h0
  have hblanks : ((text "http://" ++ behind).takeWhile isSpace) = [] := by
    rw [hhttp]
    rfl
  have hprotocol : (text "http://" ++ behind).take 4 = text "http" := by
    rw [hhttp]
    rfl
  have hbuf : pre ++ (text "http://" ++ behind ++ 0 :: more) = pre ++ text "http://" ++ (behind ++ 0 :: more) := by
    simp
  have hstart : start + 0 + 7 = (pre ++ text "http://").length := by simp [hi, hhttp]
  rw [decomposeUrl, stringAt_append hnul hi, ok_bind]
  dsimp only
  rw [hblanks, List.length_nil, List.drop_zero, if_neg (by simp), hbuf, hstart, stringAt_append h0 rfl,
    ok_bind, hprotocol]

lemma decomposeUrl_append (h0 : 0 ∉ authority ++ 47 :: path) (h47 : 47 ∉ authority) (hi : start = pre.length) :
    decomposeUrl (pre ++ (text "http://" ++ (authority ++ 47 :: path) ++ 0 :: more)) start =
      .ok (pre ++ (text "http://" ++ (authority ++ 47 :: path) ++ 0 :: more),
        ⟨text "http", (hostPort authority).1, (hostPort authority).2, 47 :: path⟩) := by
  have hparts := h0
  simp only [List.mem_append, List.mem_cons, not_or] at hparts
  have hslash : ∀ c : UInt8, pre ++ text "http://" ++ (authority ++ c :: path ++ 0 :: more) =
      pre ++ text "http://" ++ authority ++ c :: (path ++ 0 :: more) := fun c => by simp
  have hcut : ∀ l, pre ++ text "http://" ++ authority ++ l = pre ++ text "http://" ++ (authority ++ l) :=
    fun l => List.append_assoc _ _ _
  have hmarker : (pre ++ text "http://").length + authority.length =
      (pre ++ text "http://" ++ authority).length := List.length_append.symm
  have hpath : pre ++ text "http://" ++ authority ++ 47 :: (path ++ 0 :: more) =
      pre ++ text "http://" ++ authority ++ (47 :: path ++ 0 :: more) := by simp
  have hnot : 0 ∉ 47 :: path := by simpa using hparts.2.2
  rw [decomposeUrl_start h0 hi, Cuts.first_append h47]
  dsimp only
  rw [hslash, hmarker, poke_append rfl, ok_bind, hcut, takeHost_append hparts.1 rfl, ok_bind]
  dsimp only
  rw [← hcut, poke_append rfl, ok_bind, hpath, stringAt_append hnot rfl, ok_bind]
  simp only [List.append_assoc, List.cons_append]
  rfl

lemma decomposeUrl_null (h0 : 0 ∉ behind) (h47 : 47 ∉ behind) (hi : start = pre.length) :
    decomposeUrl (pre ++ (text "http://" ++ behind ++ 0 :: more)) start = .error .outOfBounds := by
  rw [decomposeUrl_start h0 hi, Cuts.first_eq_none_iff.mpr h47]
  rfl

lemma exists_lastName (path : List UInt8) : ∃ dir, Cuts.last 47 (47 :: path) = some (dir, lastName path) := by
  cases hl : Cuts.last 47 (47 :: path) with
  | none => exact absurd List.mem_cons_self (Cuts.last_eq_none_iff.mp hl)
  | some cut => exact ⟨cut.1, by rw [lastName, hl]; rfl⟩

lemma appendPath_of_lt (h : xs.length + ys.length < localPathSize) : appendPath xs ys = .ok (xs ++ ys) := by
  rw [appendPath, inBounds_of_lt h]
  rfl

lemma appendPath_of_le (h : localPathSize ≤ xs.length + ys.length) :
    appendPath xs ys = .error .outOfBounds := by
  rw [appendPath, inBounds_of_le h]
  rfl

lemma testedPath_eq (path : List UInt8) : testedPath (47 :: path) =
    if (lastName path).length + 2 < 512 then .ok (46 :: 47 :: lastName path) else .error .outOfBounds := by
  obtain ⟨dir, hl⟩ := exists_lastName path
  have hdot : text "." = [46] := by decide
  have hsize : localPathSize = 512 := rfl
  have hlen : ([46] : List UInt8).length + (47 :: lastName path).length = (lastName path).length + 2 := by
    simp only [List.length_cons, List.length_nil]
    omega
  rw [testedPath, hdot, appendPath_of_lt (by simp [hsize]), ok_bind, hl]
  dsimp only
  split_ifs with h
  · rw [List.nil_append, appendPath_of_lt (by omega)]
    rfl
  · rw [List.nil_append, appendPath_of_le (by omega)]

/-- The path that is opened, where it fits. -/
def openedPath (directory : Bool) (url : List UInt8) : List UInt8 :=
  46 :: url ++ (if url.getLast? = some 47 then text "index.html" else []) ++
    if directory then text "/index.html" else []

lemma length_openedPath : (openedPath directory url).length = pathLength directory url := by
  have hindex : (text "index.html").length = 10 := by decide
  have hindex' : (text "/index.html").length = 11 := by decide
  rw [openedPath, pathLength]
  split_ifs <;> simp [hindex, hindex'] <;> omega

/-- The end of `send_local_file`, with the path so far. -/
lemma appendIndex_eq (directory : Bool) (path : List UInt8) (hp : path.length < 512) :
    (if directory then do
        let path ← appendPath path (text "/")
        appendPath path (text "index.html")
      else return path) =
    if path.length + (if directory then 11 else 0) < 512 then
      .ok (path ++ if directory then text "/index.html" else [])
    else .error .outOfBounds := by
  have hindex : (text "index.html").length = 10 := by decide
  have hslash : (text "/").length = 1 := by decide
  have hboth : text "/" ++ text "index.html" = text "/index.html" := by decide
  have hsize : localPathSize = 512 := rfl
  cases directory with
  | false =>
    simp only [Bool.false_eq_true, if_false, Nat.add_zero, List.append_nil, if_pos hp]
    rfl
  | true =>
    rw [if_pos rfl, if_pos rfl]
    by_cases hone : path.length + 1 < 512
    · rw [appendPath_of_lt (by omega), ok_bind]
      by_cases hall : path.length + 11 < 512
      · rw [appendPath_of_lt (by rw [List.length_append]; omega), if_pos hall, List.append_assoc, hboth]
        rfl
      · rw [appendPath_of_le (by rw [List.length_append]; omega), if_neg hall]
    · rw [appendPath_of_le (by omega), error_bind, if_neg (by omega)]

lemma sendLocalFile_eq (directory : Bool) (url : List UInt8) : sendLocalFile directory url =
    if pathLength directory url < 512 then .ok (openedPath directory url) else .error .outOfBounds := by
  have hdot : text "." = [46] := by decide
  have hindex : (text "index.html").length = 10 := by decide
  have hsize : localPathSize = 512 := rfl
  have hlast : ([46] ++ url).getLast? = some 47 ↔ url.getLast? = some 47 := by
    cases url with
    | nil => decide
    | cons b url => rw [List.getLast?_append_of_ne_nil _ (by simp)]
  have hlen : ([46] ++ url).length = 1 + url.length := by
    rw [List.length_append, List.length_singleton]
  rw [sendLocalFile, hdot, appendPath_of_lt (by simp [hsize]), ok_bind, List.nil_append, openedPath, pathLength]
  by_cases hfit : 1 + url.length < 512
  · rw [appendPath_of_lt (by simpa [hsize] using hfit), ok_bind]
    simp only [hlast]
    by_cases hl : url.getLast? = some 47
    · simp only [hl, if_true]
      by_cases hten : 1 + url.length + 10 < 512
      · rw [appendPath_of_lt (by omega), ok_bind, appendIndex_eq directory _ (by rw [List.length_append]; omega),
          List.length_append, hlen, hindex]
        rfl
      · rw [appendPath_of_le (by omega), error_bind, if_neg (by omega)]
    · simp only [hl, if_false]
      have hend := appendIndex_eq directory ([46] ++ url) (by omega)
      rw [hlen] at hend
      rw [List.append_nil, Nat.add_zero]
      exact hend
  · rw [appendPath_of_le (by simpa [hsize] using hfit), error_bind, if_neg (by omega)]

lemma asString_eq (s : List UInt8) : ∃ more, s ++ [0] = asString s ++ 0 :: more ∧ 0 ∉ asString s := by
  rw [asString, Cuts.takeWhile_eq]
  cases hf : Cuts.first 0 s with
  | none => exact ⟨[], rfl, Cuts.first_eq_none_iff.mp hf⟩
  | some cut =>
    obtain ⟨xs, ys⟩ := cut
    obtain ⟨rfl, h0⟩ := Cuts.of_first hf
    exact ⟨ys ++ [0], by simp, h0⟩

lemma checkUrlRemote_iff : checkUrlRemote url = true ↔ ∃ behind, url = 47 :: 63 :: (text "http://" ++ behind) := by
  have hmark : remoteMark = 47 :: 63 :: text "http://" := by decide
  rw [checkUrlRemote, List.isPrefixOf_iff_prefix, hmark]
  constructor
  · rintro ⟨behind, rfl⟩
    exact ⟨behind, rfl⟩
  · rintro ⟨behind, rfl⟩
    exact ⟨behind, rfl⟩

lemma extractRemoteUrl_eq : extractRemoteUrl (47 :: 63 :: behind) = 2 := by
  rw [extractRemoteUrl, List.takeWhile_cons_of_pos (by decide), List.takeWhile_cons_of_neg (by decide)]
  rfl

section Serve

variable {r : Request}

lemma serve_other (hm : sameLetters (asString r.method) (text "GET") = false) :
    serve directory fileExists r = .ok .unimplemented := by
  rw [serve, if_pos (by simpa using hm)]
  rfl

lemma serve_local (hm : sameLetters (asString r.method) (text "GET"))
    (hu : checkUrlRemote (asString r.url) = false) : serve directory fileExists r =
      if pathLength directory (asString r.url) < 512 then .ok (.localFile (openedPath directory (asString r.url)))
      else .error .outOfBounds := by
  rw [serve, if_neg (by simpa using hm), if_neg (by simpa using hu), sendLocalFile_eq]
  split_ifs <;> rfl

lemma serve_remote (hm : sameLetters (asString r.method) (text "GET"))
    (hu : asString r.url = 47 :: 63 :: (text "http://" ++ behind)) : serve directory fileExists r =
      match Cuts.first 47 behind with
      | none => .error .outOfBounds
      | some (authority, path) =>
        if (lastName path).length + 2 < 512 then
          if fileExists (46 :: 47 :: lastName path) then
            if pathLength directory (47 :: path) < 512 then
              .ok (.localCopy (46 :: 47 :: lastName path) (openedPath directory (47 :: path)))
            else .error .outOfBounds
          else .ok (.remoteFile ⟨text "http", (hostPort authority).1, (hostPort authority).2, 47 :: path⟩)
        else .error .outOfBounds := by
  obtain ⟨more, hmore, h0⟩ := asString_eq r.url
  have hbuf : r.url ++ [0] = [47, 63] ++ (text "http://" ++ behind ++ 0 :: more) := by
    rw [hmore, hu]
    simp
  have hbehind : 0 ∉ behind := fun hn => h0 (by simp [hu, hn])
  have hstart : 2 = ([47, 63] : List UInt8).length := rfl
  rw [serve, if_neg (by simpa using hm), if_pos (checkUrlRemote_iff.mpr ⟨behind, hu⟩), hu, extractRemoteUrl_eq, hbuf]
  cases hf : Cuts.first 47 behind with
  | none => rw [decomposeUrl_null hbehind (Cuts.first_eq_none_iff.mp hf) hstart, error_bind]
  | some cut =>
    obtain ⟨authority, path⟩ := cut
    obtain ⟨rfl, h47⟩ := Cuts.of_first hf
    rw [decomposeUrl_append hbehind h47 hstart, ok_bind]
    dsimp only
    rw [testedPath_eq]
    by_cases htested : (lastName path).length + 2 < 512
    · rw [if_pos htested, if_pos htested, ok_bind]
      by_cases hexists : fileExists (46 :: 47 :: lastName path)
      · rw [if_pos hexists, if_pos hexists, sendLocalFile_eq]
        split_ifs <;> rfl
      · rw [if_neg hexists, if_neg hexists]
        rfl
    · rw [if_neg htested, if_neg htested, error_bind]

lemma serve_ok_iff (directory : Bool) (fileExists : List UInt8 → Bool) (r : Request) :
    (∃ reply, serve directory fileExists r = .ok reply) ↔
      (sameLetters (asString r.method) (text "GET") → PathsFit directory fileExists (asString r.url)) := by
  by_cases hm : sameLetters (asString r.method) (text "GET")
  swap
  · exact iff_of_true ⟨_, serve_other (by simpa using hm)⟩ fun h => absurd h hm
  simp only [hm, forall_const, PathsFit]
  by_cases hu : checkUrlRemote (asString r.url)
  · obtain ⟨behind, hurl⟩ := checkUrlRemote_iff.mp hu
    have hdrop : (asString r.url).drop 9 = behind := by
      have hmark : (47 :: 63 :: text "http://" : List UInt8).length = 9 := by decide
      rw [hurl, ← List.cons_append, ← List.cons_append, ← hmark, List.drop_left]
    rw [if_pos hu, hdrop, serve_remote hm hurl]
    cases Cuts.first 47 behind with
    | none => simp
    | some cut =>
      obtain ⟨authority, path⟩ := cut
      dsimp only
      split_ifs <;> simp_all
  · rw [if_neg hu, serve_local hm (by simpa using hu)]
    split_ifs <;> simp_all

lemma serve_ne_died (directory : Bool) (fileExists : List UInt8 → Bool) (r : Request) :
    serve directory fileExists r ≠ .error .died := by
  by_cases hm : sameLetters (asString r.method) (text "GET")
  swap
  · simp [serve_other (by simpa using hm)]
  by_cases hu : checkUrlRemote (asString r.url)
  · obtain ⟨behind, hurl⟩ := checkUrlRemote_iff.mp hu
    rw [serve_remote hm hurl]
    cases Cuts.first 47 behind with
    | none => simp
    | some cut =>
      dsimp only
      split_ifs <;> simp
  · rw [serve_local hm (by simpa using hu)]
    split_ifs <;> simp

end Serve

end Url

/-- Where a line does not start with a blank, its first word is where it starts. -/
lemma firstWord_start {line : List UInt8} {b : UInt8} (h : line.head? = some b) (hb : isSpace b = false) :
    firstWord line = (line.takeWhile fun b => !isSpace b) ∧ afterWord line = line.dropWhile fun b => !isSpace b := by
  cases line with
  | nil => cases h
  | cons c cs =>
    cases h
    rw [firstWord, afterWord, List.dropWhile_cons_of_neg (by simp [hb])]
    exact ⟨rfl, rfl⟩

/-- The parser takes the request of a line just where the line is complete. -/
lemma exists_parse_iff (line : List UInt8) (hl : line.length ≤ 1001) :
    (∃ r, parseRequest (line ++ [0]) = .ok r ∧ r.Of line) ↔
      (∃ b, line.head? = some b ∧ isSpace b = false) ∧ (firstWord line).length < 16 ∧
        8 ≤ (behindUrl line).length := by
  have hsize : methodSize = 16 := rfl
  rw [parseRequest_eq hl]
  constructor
  · rintro ⟨r, hr, hof⟩
    split_ifs at hr with hfit
    cases hr
    obtain ⟨hmethod, hurl, henough, hversion⟩ := hof
    refine ⟨?_, by rw [← hmethod]; exact hfit.1, henough⟩
    cases hline : line with
    | nil => simp [hline, behindUrl, afterWord] at henough
    | cons b bs =>
      refine ⟨b, rfl, ?_⟩
      by_contra hb
      -- With a blank in front, the word that is taken is empty, and so is the line.
      have hb' : isSpace b = true := by simpa using hb
      have hnil : firstWord line = [] := by
        rw [← hmethod, hline]
        simp [hb']
      have hdrop : line.dropWhile isSpace = [] := by
        cases hd : line.dropWhile isSpace with
        | nil => rfl
        | cons c cs =>
          have hc := List.head?_dropWhile_not isSpace line
          rw [hd] at hc
          rw [firstWord, hd, List.takeWhile_cons_of_pos (by simpa using hc)] at hnil
          cases hnil
      simp [behindUrl, afterWord, hdrop] at henough
  · rintro ⟨⟨b, hb, hspace⟩, hmethod, henough⟩
    obtain ⟨hword, hafter⟩ := firstWord_start hb hspace
    rw [← hword, ← hafter, ← behindUrl, if_pos ⟨by omega, by omega⟩]
    refine ⟨_, rfl, rfl, rfl, henough, ?_⟩
    rw [List.take_append_of_le_length henough]

/-- The request is taken in bounds just where the line is complete and its paths fit. -/
theorem requestRight_iff (directory : Bool) (fileExists : List UInt8 → Bool) (incoming : List UInt8) :
    RequestRight directory fileExists incoming ↔
      RequestFits directory fileExists (received incoming) := by
  have hlen := length_received incoming
  rw [RequestRight, acceptRequest, getLine_eq, ok_bind]
  have hparse := exists_parse_iff (received incoming) hlen
  constructor
  · rintro (hdied | ⟨r, reply, hr, hof⟩)
    · cases hr : parseRequest (received incoming ++ [0]) with
      | error e =>
        rw [parseRequest_eq hlen] at hr
        split_ifs at hr
        cases hr
        rw [parseRequest_eq hlen, if_neg (by assumption), error_bind] at hdied
        cases hdied
      | ok r =>
        rw [hr, ok_bind] at hdied
        cases hserve : serve directory fileExists r with
        | error e =>
          rw [hserve, error_bind] at hdied
          cases hdied
          exact absurd hserve (serve_ne_died directory fileExists r)
        | ok reply =>
          rw [hserve, ok_bind] at hdied
          cases hdied
    · rw [bind_eq_ok] at hr
      obtain ⟨r', hr', hr⟩ := hr
      rw [bind_eq_ok] at hr
      obtain ⟨reply', hserve, hr⟩ := hr
      cases hr
      obtain ⟨hstart, hmethod, henough⟩ := hparse.mp ⟨r, hr', hof⟩
      refine ⟨hstart, hmethod, henough, ?_⟩
      rw [← hof.method, ← hof.url]
      exact (serve_ok_iff directory fileExists r).mp ⟨reply, hserve⟩
  · rintro ⟨hstart, hmethod, henough, hpaths⟩
    obtain ⟨r, hr, hof⟩ := hparse.mpr ⟨hstart, hmethod, henough⟩
    rw [← hof.method, ← hof.url] at hpaths
    obtain ⟨reply, hreply⟩ := (serve_ok_iff directory fileExists r).mpr hpaths
    exact .inr ⟨r, reply, by rw [hr, ok_bind, hreply]; rfl, hof⟩

section Remote

variable {authority path : List UInt8} {directory : Bool} {fileExists : List UInt8 → Bool}

lemma hostPort_eq (authority : List UInt8) :
    authority = (hostPort authority).1 ++ 58 :: (hostPort authority).2 ∨
      authority = (hostPort authority).1 ∧ (hostPort authority).2 = text "80" := by
  rw [hostPort]
  cases hf : Cuts.first 58 authority with
  | none => exact .inr ⟨rfl, rfl⟩
  | some cut => exact .inl (Cuts.of_first hf).1

lemma lastName_suffix (path : List UInt8) : lastName path <:+ path ∧ 47 ∉ lastName path := by
  obtain ⟨dir, hl⟩ := exists_lastName path
  obtain ⟨hpath, hnot⟩ := Cuts.of_last hl
  refine ⟨?_, hnot⟩
  cases dir with
  | nil =>
    rw [List.nil_append] at hpath
    exact (List.cons.inj hpath).2 ▸ List.suffix_rfl
  | cons b dir =>
    obtain ⟨-, htail⟩ := List.cons.inj hpath
    exact ⟨dir ++ [47], by rw [List.append_assoc, List.singleton_append]; exact htail.symm⟩

/-- The path that is opened is the one that is tested only where nothing is added to the one and nothing
left out of the other. -/
lemma openedPath_eq_iff : openedPath directory (47 :: path) = 46 :: 47 :: lastName path ↔
    47 ∉ path ∧ path ≠ [] ∧ directory = false := by
  obtain ⟨hsuffix, hnot⟩ := lastName_suffix path
  constructor
  · intro he
    have hlen := congrArg List.length he
    rw [length_openedPath, pathLength] at hlen
    simp only [List.length_cons] at hlen
    have hle := hsuffix.length_le
    have hlast : (47 :: path).getLast? ≠ some 47 := fun hl => by
      rw [if_pos hl] at hlen
      omega
    have hname : lastName path = path := hsuffix.eq_of_length (by omega)
    refine ⟨hname ▸ hnot, ?_, ?_⟩
    · rintro rfl
      exact hlast rfl
    · cases directory with
      | false => rfl
      | true =>
        rw [if_pos rfl] at hlen
        omega
  · rintro ⟨h47, hne, rfl⟩
    have hname : lastName path = path := by
      obtain ⟨dir, hl⟩ := exists_lastName path
      have hcut : Cuts.last 47 ([] ++ 47 :: path) = some ([], path) := Cuts.last_append h47
      exact (Prod.mk.inj (Option.some.inj (hl.symm.trans hcut))).2
    have hlast : (47 :: path).getLast? ≠ some 47 := fun hl => by
      obtain ⟨b, bs, rfl⟩ := List.exists_cons_of_ne_nil hne
      rw [List.getLast?_cons_cons] at hl
      exact h47 (List.mem_of_getLast? hl)
    rw [openedPath, if_neg hlast, if_neg (by decide), hname]
    simp

/-- The URL is taken apart and the local copy agrees just where the URL has a path of one component. -/
theorem remoteRight_iff (directory : Bool) (fileExists : List UInt8 → Bool) (u : RemoteUrl) :
    RemoteRight directory fileExists u ↔ RemoteFits directory fileExists u := by
  have hmark : remoteMark = 47 :: 63 :: text "http://" := by decide
  have hurl : u.url = 47 :: 63 :: (text "http://" ++ u.behind) := by
    rw [RemoteUrl.url, hmark]
    rfl
  have hbuf : u.url ++ [0] = [47, 63] ++ (text "http://" ++ u.behind ++ 0 :: []) := by
    rw [hurl]
    simp
  have hstart : extractRemoteUrl u.url = ([47, 63] : List UInt8).length := by
    rw [hurl, extractRemoteUrl_eq]
    rfl
  have hzero : 0 ∉ u.url := fun hm => u.plain (by
    have hhttp : 0 ∉ (47 :: 63 :: text "http://" : List UInt8) := by decide
    rw [hurl, ← List.cons_append, ← List.cons_append, List.mem_append] at hm
    exact hm.resolve_left hhttp)
  have hstring : asString u.url = u.url := by
    rw [asString, List.takeWhile_eq_self_iff]
    exact fun b hb => decide_eq_true (ne_of_mem_of_not_mem hb hzero)
  have hget : sameLetters (asString (text "GET")) (text "GET") := by decide
  have hserve : ∀ httpVersion, serve directory fileExists ⟨text "GET", u.url, httpVersion⟩ = _ :=
    fun httpVersion => @serve_remote u.behind directory fileExists ⟨text "GET", u.url, httpVersion⟩ hget
      (hstring.trans hurl)
  rw [RemoteFits]
  cases hf : Cuts.first 47 u.behind with
  | none =>
    refine iff_of_false (fun h => ?_) (by simp)
    obtain ⟨parts, hparts, -⟩ := h.decomposed
    rw [hstart, hbuf, decomposeUrl_null u.plain (Cuts.first_eq_none_iff.mp hf) rfl] at hparts
    cases hparts
  | some cut =>
    obtain ⟨authority, path⟩ := cut
    obtain ⟨hbehind, h47⟩ := Cuts.of_first hf
    have hplain : 0 ∉ authority ++ 47 :: path := hbehind ▸ u.plain
    have hparts : decomposeUrl (u.url ++ [0]) (extractRemoteUrl u.url) = .ok (u.url ++ [0],
        ⟨text "http", (hostPort authority).1, (hostPort authority).2, 47 :: path⟩) := by
      rw [hbuf, hstart, hbehind]
      exact decomposeUrl_append hplain h47 rfl
    simp only [hf] at hserve
    constructor
    · rintro ⟨-, hagreed⟩
      refine ⟨authority, path, rfl, fun hfit hexists => ?_⟩
      have htested := testedPath_eq path
      rw [if_pos hfit] at htested
      have hcopy := hagreed _ _ hparts htested hexists []
      rw [hserve, if_pos hfit, if_pos hexists] at hcopy
      split_ifs at hcopy
      exact openedPath_eq_iff.mp (ProxyReply.localCopy.inj (Except.ok.inj hcopy)).2
    · rintro ⟨_, _, hcut, hagree⟩
      cases hcut
      refine ⟨⟨_, hparts, ?_⟩, fun parts tested hp htested hexists httpVersion => ?_⟩
      · dsimp only
        rcases hostPort_eq authority with hhost | ⟨hhost, hport⟩
        · refine .inl (hbehind.trans ?_)
          nth_rewrite 1 [hhost]
          simp
        · exact .inr ⟨hbehind.trans (by rw [← hhost]), hport⟩
      · rw [hparts] at hp
        cases hp
        have hfit : (lastName path).length + 2 < 512 := by
          by_contra hn
          rw [testedPath_eq, if_neg hn] at htested
          cases htested
        rw [testedPath_eq, if_pos hfit] at htested
        cases htested
        have hopened := openedPath_eq_iff.mpr (hagree hfit hexists)
        have hlength : pathLength directory (47 :: path) < 512 := by
          rw [← length_openedPath, hopened]
          exact hfit
        rw [hserve, if_pos hfit, if_pos hexists, if_pos hlength, hopened]

end Remote

/-- Nothing stands behind the method, and the URL is read from behind what was received. -/
theorem request_without_url : ¬ RequestRight false (fun _ => false) (text "GET") := by
  rintro (h | ⟨r, reply, h, -⟩)
  · revert h
    decide +kernel
  · have hrun : acceptRequest false (fun _ => false) (text "GET") = .error .outOfBounds := by decide +kernel
    rw [hrun] at h
    cases h

/-- The file in the current directory is found, and one in a directory is opened. -/
def deepUrl : RemoteUrl where
  behind := text "a/b/c"
  plain := by decide

theorem other_copy_opened : ¬ RemoteRight false (fun _ => true) deepUrl := by
  intro h
  obtain ⟨parts, hparts, -⟩ := h.decomposed
  have hpath : parts.absPath = text "/b/c" := by
    have hrun : decomposeUrl (deepUrl.url ++ [0]) (extractRemoteUrl deepUrl.url) =
        .ok (deepUrl.url ++ [0], ⟨text "http", text "a", text "80", text "/b/c"⟩) := by decide +kernel
    rw [hrun] at hparts
    cases hparts
    rfl
  have htested : testedPath parts.absPath = .ok (text "./c") := by
    rw [hpath]
    decide +kernel
  have hcopy := h.agreed parts (text "./c") hparts htested rfl []
  revert hcopy
  decide +kernel

end GreenBag
