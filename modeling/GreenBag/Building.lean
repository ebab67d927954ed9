import GreenBag.Headers
import GreenBag.Urls

/-! The text of a request, which `conn_setup` with `http_exec` and `gb_get_request` both put together
line by line. -/

namespace GreenBag

/-- What an open connection keeps of its requests. -/
structure HttpConn where
  host : List UInt8
  auth : List UInt8
  request : List UInt8
  firstbyte : ℤ
  lastbyte : ℤ

/-- What the configuration says about requests. -/
structure RequestConf where
  userAgent : List UInt8
  addHeader : List (List UInt8)

def crlf : List UInt8 := [13, 10]

/-- A line goes through a buffer of its own, and what is left of the request takes what fits. -/
def appendLine (request line : List UInt8) : List UInt8 :=
  request ++ (line.take (maxString - 4) ++ crlf).take (maxQuery - request.length - 1)

def HttpConn.httpAddheader (http : HttpConn) (line : List UInt8) : HttpConn :=
  { http with request := appendLine http.request line }

def rangeLine (firstbyte lastbyte : ℤ) : List UInt8 :=
  (rangeHeader firstbyte lastbyte).map fun c => c.toNat.toUInt8

def HttpConn.httpGet (http : HttpConn) (lurl : List UInt8) : HttpConn :=
  let http := { http with request := [] }
  let http := http.httpAddheader (text "GET " ++ lurl ++ text " HTTP/1.1")
  let http := http.httpAddheader (text "Host: " ++ http.host)
  let http := if http.auth = [] then http
    else http.httpAddheader (text "Authorization: Basic " ++ http.auth)
  http.httpAddheader (rangeLine http.firstbyte http.lastbyte)

/-- What `http_exec` adds before it sends the request. -/
def HttpConn.httpExec (http : HttpConn) : HttpConn :=
  let http := http.httpAddheader (text "Connection: keep-alive")
  http.httpAddheader []

def Target.connSetup (c : Target) (conf : RequestConf) (currentbyte lastbyte : ℤ)
    (http : HttpConn) : HttpConn :=
  let s := snprintf (c.dir ++ c.file)
  let http := { http with firstbyte := currentbyte, lastbyte := lastbyte }
  let http := http.httpGet s
  let http := http.httpAddheader (text "User-Agent: " ++ conf.userAgent)
  conf.addHeader.foldl HttpConn.httpAddheader http

def Target.gbGetRequest (c : Target) (conf : RequestConf) (firstByte lastByte : ℤ)
    (http : HttpConn) : HttpConn :=
  let http := { http with request := [] }
  let s := snprintf (c.dir ++ c.file)
  let http := { http with firstbyte := firstByte, lastbyte := lastByte }
  let http := http.httpGet s
  let http := http.httpAddheader (text "User-Agent: " ++ conf.userAgent)
  let http := conf.addHeader.foldl HttpConn.httpAddheader http
  let http := http.httpAddheader (text "Connection: keep-alive")
  http.httpAddheader []

/-- The lines of a request for a path. -/
def requestLines (path host auth : List UInt8) (conf : RequestConf) (firstbyte lastbyte : ℤ) :
    List (List UInt8) :=
  [text "GET " ++ path ++ text " HTTP/1.1", text "Host: " ++ host] ++
    (if auth = [] then [] else [text "Authorization: Basic " ++ auth]) ++
    [rangeLine firstbyte lastbyte, text "User-Agent: " ++ conf.userAgent] ++ conf.addHeader ++
    [text "Connection: keep-alive", []]

/-- Each line in full, with its end. -/
def lineText (lines : List (List UInt8)) : List UInt8 := lines.flatMap (· ++ crlf)

section

variable {c : Target} {conf : RequestConf} {a b : ℤ} {http : HttpConn} {line request : List UInt8}
  {lines : List (List UInt8)}

lemma length_appendLine (line : List UInt8) (h : request.length < maxQuery) :
    (appendLine request line).length =
      min (request.length + (min line.length (maxString - 4) + 2)) (maxQuery - 1) := by
  simp only [appendLine, crlf, List.length_append, List.length_take, List.length_cons,
    List.length_nil]
  omega

lemma length_foldl_appendLine (lines : List (List UInt8)) (h : request.length < maxQuery) :
    (lines.foldl appendLine request).length < maxQuery ∧
      (lines.foldl appendLine request).length ≤ request.length + (lineText lines).length := by
  induction lines generalizing request with
  | nil => exact ⟨h, Nat.le_add_right _ _⟩
  | cons line lines ih =>
    have hline := length_appendLine line h
    have hq : maxQuery = 2048 := rfl
    obtain ⟨hlt, hle⟩ := @ih (appendLine request line) (by omega)
    rw [List.foldl_cons]
    refine ⟨hlt, hle.trans ?_⟩
    simp only [lineText, List.flatMap_cons, List.length_append, crlf, List.length_cons,
      List.length_nil] at *
    omega

lemma foldl_appendLine_eq (hl : ∀ line ∈ lines, line.length ≤ maxString - 4)
    (h : (request ++ lineText lines).length < maxQuery) :
    lines.foldl appendLine request = request ++ lineText lines := by
  induction lines generalizing request with
  | nil => simp [lineText]
  | cons line lines ih =>
    have hhead := hl line List.mem_cons_self
    have hsplit : request ++ lineText (line :: lines) =
        (request ++ (line ++ crlf)) ++ lineText lines := by simp [lineText]
    rw [hsplit] at h ⊢
    have hline : appendLine request line = request ++ (line ++ crlf) := by
      rw [appendLine, List.take_of_length_le hhead, List.take_of_length_le]
      simp only [List.length_append] at h ⊢
      omega
    rw [List.foldl_cons, hline]
    exact ih (fun l hm => hl l (List.mem_cons_of_mem _ hm)) h

lemma fits_of_foldl_appendLine (h : request.length < maxQuery)
    (hle : request.length + (lineText lines).length ≤ (lines.foldl appendLine request).length) :
    ∀ line ∈ lines, line.length ≤ maxString - 4 := by
  induction lines generalizing request with
  | nil => simp
  | cons line lines ih =>
    have hline := length_appendLine line h
    have hq : maxQuery = 2048 := rfl
    have hrest := length_foldl_appendLine lines
      (show (appendLine request line).length < maxQuery by omega)
    have htext : (lineText (line :: lines)).length = line.length + 2 + (lineText lines).length := by
      rw [lineText, List.flatMap_cons, List.length_append, List.length_append]
      rfl
    rw [List.foldl_cons] at hle
    refine List.forall_mem_cons.mpr ⟨by omega, @ih (appendLine request line) ?_ ?_⟩
    · omega
    · omega

lemma request_foldl_addheader (lines : List (List UInt8)) (http : HttpConn) :
    lines.foldl HttpConn.httpAddheader http =
      { http with request := lines.foldl appendLine http.request } := by
  induction lines generalizing http with
  | nil => rfl
  | cons line lines ih => rw [List.foldl_cons, ih, List.foldl_cons, HttpConn.httpAddheader]

/-- `gb_get_request` adds the lines one by one. -/
lemma request_gbGetRequest : (c.gbGetRequest conf a b http).request =
    (requestLines (snprintf (c.dir ++ c.file)) http.host http.auth conf a b).foldl appendLine [] := by
  by_cases hauth : http.auth = [] <;>
    simp only [requestLines, List.foldl_append, Target.gbGetRequest, request_foldl_addheader,
      HttpConn.httpGet, HttpConn.httpAddheader, List.foldl_cons, List.foldl_nil, hauth, if_true,
      if_false]

lemma get_mem_requestLines (path host auth : List UInt8) :
    text "GET " ++ path ++ text " HTTP/1.1" ∈ requestLines path host auth conf a b := by
  simp [requestLines]

lemma length_requestLines_le {path path' : List UInt8} (host auth : List UInt8)
    (h : path'.length ≤ path.length) :
    (lineText (requestLines path' host auth conf a b)).length ≤
      (lineText (requestLines path host auth conf a b)).length := by
  simp only [lineText, requestLines, List.flatMap_append, List.flatMap_cons, List.length_append]
  omega

/-- The two builders agree, and they write a whole request exactly if no line of it is longer than
1020 characters and all of it fits the buffer. -/
theorem request_complete_iff :
    ((c.gbGetRequest conf a b http).request = (c.connSetup conf a b http).httpExec.request ∧
      (c.gbGetRequest conf a b http).request =
        lineText (requestLines (c.dir ++ c.file) http.host http.auth conf a b) ∧
      (c.gbGetRequest conf a b http).request.length < maxQuery) ↔
    (∀ line ∈ requestLines (c.dir ++ c.file) http.host http.auth conf a b,
      line.length ≤ maxString - 4) ∧
    (lineText (requestLines (c.dir ++ c.file) http.host http.auth conf a b)).length < maxQuery := by
  have hnil : ([] : List UInt8).length < maxQuery := by decide
  constructor
  · rintro ⟨-, hwhole, hlen⟩
    refine ⟨?_, hwhole ▸ hlen⟩
    rw [request_gbGetRequest] at hwhole
    have hcut : (snprintf (c.dir ++ c.file)).length ≤ (c.dir ++ c.file).length := by
      rw [snprintf, List.length_take]
      exact min_le_right _ _
    have hfits := fits_of_foldl_appendLine hnil (by
      rw [hwhole, List.length_nil, zero_add]
      exact length_requestLines_le http.host http.auth hcut)
    -- a path that was cut would make a line that was cut, too
    have hpath : snprintf (c.dir ++ c.file) = c.dir ++ c.file := by
      have hget := hfits _ (get_mem_requestLines _ _ _)
      simp only [snprintf, List.length_append, List.length_take, maxString] at hget
      refine List.take_of_length_le ?_
      rw [List.length_append, maxString]
      omega
    rwa [hpath] at hfits
  · rintro ⟨hfits, hlen⟩
    have hpath : snprintf (c.dir ++ c.file) = c.dir ++ c.file := by
      have hget := hfits _ (get_mem_requestLines _ _ _)
      simp only [List.length_append, maxString] at hget
      refine List.take_of_length_le ?_
      rw [List.length_append, maxString]
      omega
    have hwhole : (c.gbGetRequest conf a b http).request =
        lineText (requestLines (c.dir ++ c.file) http.host http.auth conf a b) := by
      rw [request_gbGetRequest, hpath, foldl_appendLine_eq hfits hlen, List.nil_append]
    exact ⟨rfl, hwhole, hwhole ▸ hlen⟩

end

/-- Where the name of a file is long, its request lacks the version. -/
theorem version_cut : ∃ url c conf http, connSet emptyTarget url = some (true, c) ∧
    (connUrl c).isSome ∧ (c.gbGetRequest conf 1 2 http).request ≠
      lineText (requestLines (c.dir ++ c.file) http.host http.auth conf 1 2) := by
  refine ⟨text "http://h/" ++ List.replicate 1010 97,
    ⟨text "h", 80, text "/", List.replicate 1010 97, [], []⟩, ⟨text "gb", []⟩,
    ⟨text "h", [], [], 0, 0⟩, ?_⟩
  decide +kernel

end GreenBag
