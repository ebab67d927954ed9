import GreenBag.Probing
import GreenBag.Serving
import GreenBag.Streaming

/-! The replies of the proxy to a request, and what `conn_info` makes of them at the other end. -/

namespace GreenBag

def fileExts : List (List UInt8) := [text "html", text "mp4", text "flv", text "ico"]

def mimeTypes : List (List UInt8) :=
  [text "text/html", text "video/mp4", text "video/x-flv", text "image/x-icon"]

/-- The size of each buffer that a reply is put together in. -/
def responseSize : ℕ := 1024

def contentType (filename : List UInt8) : List UInt8 :=
  match Cuts.last 46 filename with
  | none => mimeTypes.getD 0 []
  | some (_, fileExt) =>
    if fileExts.idxOf fileExt < fileExts.length then mimeTypes.getD (fileExts.idxOf fileExt) []
    else mimeTypes.getD 0 []

/-- The version is always the default one. -/
def sendFileHeaders (filename : List UInt8) (contentLength : ℤ) : List UInt8 :=
  text "HTTP/1.0 200 OK\r\nServer: ahttpd/0.1.0\r\n" ++
    text "Accept-Ranges: none\r\nConnection: close\r\nContent-Type: " ++ contentType filename ++ text "\r\n" ++
    (if contentLength > 0 then text "Content-Length: " ++ digits contentLength ++ text "\r\n" else []) ++
    text "\r\n"

def unimplemented (httpVersion : List UInt8) : List UInt8 :=
  httpVersion ++ text " 501 Method Not Implemented\r\n" ++
    text "Server: ahttpd/0.1.0\r\nContent-Type: text/html\r\n\r\n" ++
    text "<HTML><HEAD><TITLE>Method Not Implemented\r\n</TITLE></HEAD>\r\n" ++
    text "<BODY>HTTP request method not supported.<br>\r\n" ++
    text "Currently only support GET method\r\n</BODY></HTML>\r\n"

def notFound (httpVersion : List UInt8) : List UInt8 :=
  httpVersion ++ text " 404 NOT FOUND\r\n" ++
    text "Server: ahttpd/0.1.0\r\nContent-Type: text/html\r\n\r\n" ++
    text "<HTML><TITLE>Not Found</TITLE>\r\n" ++
    text "<BODY>The server cannot find the requested file</BODY></HTML>\r\n"

/-- `SEND_LOCAL_FILE_BUF_SIZE`. -/
def sendLocalFileBufSize : ℕ := 512

/-- What `send_file_content` has sent behind as many rounds as there are results. The end of the file is
noticed in the first round that cannot fill the buffer. -/
def sendFileContent : List SendResult → List UInt8 → List UInt8
  | [], _ => []
  | .gone :: _, _ => []
  | .accepted n :: sends, file =>
    (file.take sendLocalFileBufSize).take n ++
      if file.length < sendLocalFileBufSize then []
      else sendFileContent sends (file.drop sendLocalFileBufSize)

/-- `send_file`, with what the path opens. -/
def sendFile (files : List UInt8 → Option (List UInt8)) (sends : List SendResult)
    (filepath httpVersion : List UInt8) : List UInt8 :=
  match files filepath with
  | none => notFound httpVersion
  | some file =>
    let filename := (Cuts.last 47 filepath).elim filepath fun cut => 47 :: cut.2
    sendFileHeaders filename 0 ++ sendFileContent sends file

/-- What is known of a remote file once there is some data, and the bytes that are relayed. -/
structure Remote where
  filename : List UInt8
  size : ℤ
  relayed : List UInt8

/-- All that the client is sent. There is no remote file where the wait for data times out. -/
def answer (files : List UInt8 → Option (List UInt8)) (sends : List SendResult) (remote : Option Remote)
    (httpVersion : List UInt8) : ProxyReply → List UInt8
  | .unimplemented => unimplemented httpVersion
  | .localCopy _ opened => sendFile files sends opened httpVersion
  | .localFile opened => sendFile files sends opened httpVersion
  | .remoteFile _ =>
    match remote with
    | none => notFound httpVersion
    | some q => sendFileHeaders q.filename q.size ++ q.relayed

/-- The size that goes with the file that is delivered, if one is. -/
def delivered (files : List UInt8 → Option (List UInt8)) (remote : Option Remote) : ProxyReply → Option ℤ
  | .unimplemented => none
  | .localCopy _ opened => (files opened).map fun _ => 0
  | .localFile opened => (files opened).map fun _ => 0
  | .remoteFile _ => remote.map Remote.size

/-- The status line without its version where nothing is delivered. -/
def refusal : ProxyReply → List UInt8
  | .unimplemented => text " 501 Method Not Implemented"
  | _ => text " 404 NOT FOUND"

/-- A version that can be told from the status behind it. -/
structure Readable (httpVersion : List UInt8) : Prop where
  ne : httpVersion ≠ []
  word : ∀ b ∈ httpVersion, isSpace b = false ∧ b ≠ 0

section

variable {filename httpVersion rest headers : List UInt8} {n : ℤ} {k : Block} {c : InfoConn}
  {lines : List (List UInt8)}

lemma contentType_mem (filename : List UInt8) : contentType filename ∈ mimeTypes := by
  unfold contentType
  split
  · exact List.mem_cons_self
  · rename_i fileExt _
    split_ifs with h
    · have hi : fileExts.idxOf fileExt < mimeTypes.length := h
      rw [List.getD_eq_getElem?_getD, List.getElem?_eq_getElem hi]
      exact List.getElem_mem _
    · exact List.mem_cons_self

lemma blankBody_clean {body : List UInt8} (h : ∀ b ∈ body, b ≠ 10 ∧ b ≠ 13 ∧ b ≠ 0) :
    ∀ b ∈ 32 :: body, b ≠ 10 ∧ b ≠ 13 ∧ b ≠ 0 :=
  List.forall_mem_cons.mpr ⟨by decide, h⟩

lemma contentType_clean (filename : List UInt8) : ∀ b ∈ contentType filename, b ≠ 10 ∧ b ≠ 13 ∧ b ≠ 0 := by
  have hall : mimeTypes.all fun t => t.all fun b => b ≠ 10 ∧ b ≠ 13 ∧ b ≠ 0 := by decide
  exact clean_of_all (List.all_eq_true.mp hall _ (contentType_mem filename))

lemma digits_clean (n : ℤ) : ∀ b ∈ digits n, b ≠ 10 ∧ b ≠ 13 ∧ b ≠ 0 := by
  intro b hb
  refine ⟨?_, ?_, ?_⟩
  all_goals
    rintro rfl
    exact not_mem_digits (.inl (by decide)) (by decide) n hb

/-- What stands in the header in front of the length of the file. -/
def fixedFields (filename : List UInt8) : List Field :=
  [⟨text "Server", text " ahttpd/0.1.0", by decide, List.all_iff_forall_prop.mp (by decide),
      clean_of_all (by decide)⟩,
    ⟨text "Accept-Ranges", text " none", by decide, List.all_iff_forall_prop.mp (by decide),
      clean_of_all (by decide)⟩,
    ⟨text "Connection", text " close", by decide, List.all_iff_forall_prop.mp (by decide),
      clean_of_all (by decide)⟩,
    ⟨text "Content-Type", 32 :: contentType filename, by decide, List.all_iff_forall_prop.mp (by decide),
      blankBody_clean (contentType_clean filename)⟩]

def lengthField (n : ℤ) : Field :=
  ⟨text "Content-Length", 32 :: digits n, by decide, List.all_iff_forall_prop.mp (by decide),
    blankBody_clean (digits_clean n)⟩

def fileBlock (filename : List UInt8) (n : ℤ) : Block where
  version := text "HTTP/1.0"
  code := 200
  phrase := text " OK"
  fields := fixedFields filename ++ if n > 0 then [lengthField n] else []
  version_ne := by decide
  version_word := List.all_iff_forall_prop.mp (by decide)
  code_pos := by decide
  code_three := by decide
  phrase_text := clean_of_all (by decide)

def errorFields : List Field :=
  [⟨text "Server", text " ahttpd/0.1.0", by decide, List.all_iff_forall_prop.mp (by decide),
      clean_of_all (by decide)⟩,
    ⟨text "Content-Type", text " text/html", by decide, List.all_iff_forall_prop.mp (by decide),
      clean_of_all (by decide)⟩]

def errorBlock (h : Readable httpVersion) (code : ℤ) (phrase : List UInt8)
    (hc : 0 < code ∧ (digits code).length = 3) (hp : ∀ b ∈ phrase, b ≠ 10 ∧ b ≠ 13 ∧ b ≠ 0) : Block where
  version := httpVersion
  code := code
  phrase := phrase
  fields := errorFields
  version_ne := h.ne
  version_word := h.word
  code_pos := hc.1
  code_three := hc.2
  phrase_text := hp

def notFoundBlock (h : Readable httpVersion) : Block :=
  errorBlock h 404 (text " NOT FOUND") (by decide) (clean_of_all (by decide))

def unimplementedBlock (h : Readable httpVersion) : Block :=
  errorBlock h 501 (text " Method Not Implemented") (by decide) (clean_of_all (by decide))

lemma sendFileHeaders_eq (filename : List UInt8) (n : ℤ) :
    sendFileHeaders filename n = (fileBlock filename n).sent := by
  have hfirst : text "HTTP/1.0 200 OK\r\nServer: ahttpd/0.1.0\r\n" =
      (text "HTTP/1.0" ++ 32 :: (digits 200 ++ text " OK")) ++ crlf ++
        (text "Server" ++ 58 :: text " ahttpd/0.1.0") ++ crlf := by
    decide +kernel
  have hnext : text "Accept-Ranges: none\r\nConnection: close\r\nContent-Type: " =
      (text "Accept-Ranges" ++ 58 :: text " none") ++ crlf ++
        (text "Connection" ++ 58 :: text " close") ++ crlf ++ text "Content-Type" ++ [58, 32] := by
    decide +kernel
  have hlength : text "Content-Length: " = text "Content-Length" ++ [58, 32] := by decide
  have hend : text "\r\n" = crlf := by decide
  rw [sendFileHeaders, hfirst, hnext, hlength, hend]
  by_cases hn : n > 0
  · simp [Block.sent, Block.lines, Block.statusLine, lineText, fileBlock, fixedFields, lengthField,
      Field.line, hn]
  · simp [Block.sent, Block.lines, Block.statusLine, lineText, fileBlock, fixedFields, Field.line, hn]

lemma errorFields_text : text "Server: ahttpd/0.1.0\r\nContent-Type: text/html\r\n\r\n" =
    lineText (errorFields.map Field.line) ++ crlf := by
  decide +kernel

lemma notFound_eq (h : Readable httpVersion) :
    ∃ page, notFound httpVersion = (notFoundBlock h).sent ++ page := by
  have hfirst : text " 404 NOT FOUND\r\n" = 32 :: (digits 404 ++ text " NOT FOUND") ++ crlf := by decide
  refine ⟨text "<HTML><TITLE>Not Found</TITLE>\r\n" ++
    text "<BODY>The server cannot find the requested file</BODY></HTML>\r\n", ?_⟩
  rw [notFound, errorFields_text, hfirst]
  simp only [Block.sent, Block.lines, Block.statusLine, lineText, notFoundBlock, errorBlock,
    List.flatMap_cons, List.append_assoc, List.cons_append]

lemma unimplemented_eq (h : Readable httpVersion) :
    ∃ page, unimplemented httpVersion = (unimplementedBlock h).sent ++ page := by
  have hfirst : text " 501 Method Not Implemented\r\n" =
      32 :: (digits 501 ++ text " Method Not Implemented") ++ crlf := by
    decide
  refine ⟨text "<HTML><HEAD><TITLE>Method Not Implemented\r\n</TITLE></HEAD>\r\n" ++
    (text "<BODY>HTTP request method not supported.<br>\r\n" ++
      text "Currently only support GET method\r\n</BODY></HTML>\r\n"), ?_⟩
  rw [unimplemented, errorFields_text, hfirst]
  simp only [Block.sent, Block.lines, Block.statusLine, lineText, unimplementedBlock, errorBlock,
    List.flatMap_cons, List.append_assoc, List.cons_append]

lemma length_storedText_le (lines : List (List UInt8)) : (storedText lines).length ≤ (lineText lines).length := by
  induction lines with
  | nil => exact le_rfl
  | cons line lines ih =>
    simp only [storedText, lineText, crlf, List.flatMap_cons, List.length_append, List.length_cons,
      List.length_nil] at ih ⊢
    omega

lemma Block.fits_of_sent (h : k.sent.length < responseSize) : k.Fits := by
  have hstored := length_storedText_le k.lines
  rw [Block.sent, List.length_append] at h
  exact lt_of_le_of_lt (hstored.trans (Nat.le_of_add_right_le h.le)) (by decide)

lemma length_contentType (filename : List UInt8) : (contentType filename).length ≤ 12 := by
  have hall : mimeTypes.all fun t => t.length ≤ 12 := by decide
  exact of_decide_eq_true (List.all_eq_true.mp hall _ (contentType_mem filename))

lemma length_digits (h₀ : 0 ≤ n) (hn : n < 2 ^ 63) : (digits n).length ≤ 19 := by
  rw [digits_of_nonneg h₀, List.length_map, Nat.length_toDigits_le_iff (by decide) (by decide)]
  omega

lemma length_sendFileHeaders (filename : List UInt8) (hn : n < 2 ^ 63) :
    (sendFileHeaders filename n).length < responseSize := by
  have htype := length_contentType filename
  have hlen : (if n > 0 then text "Content-Length: " ++ digits n ++ text "\r\n" else []).length ≤ 37 := by
    split_ifs with hp
    · have hd := length_digits hp.le hn
      have hname : (text "Content-Length: ").length = 16 := by decide
      have hend : (text "\r\n").length = 2 := by decide
      rw [List.length_append, List.length_append]
      omega
    · exact Nat.zero_le _
  have hfirst : (text "HTTP/1.0 200 OK\r\nServer: ahttpd/0.1.0\r\n").length ≤ 50 := by decide +kernel
  have hnext : (text "Accept-Ranges: none\r\nConnection: close\r\nContent-Type: ").length ≤ 60 := by
    decide +kernel
  have hend : (text "\r\n").length = 2 := by decide
  have hsize : responseSize = 1024 := rfl
  simp only [sendFileHeaders, List.length_append]
  omega

lemma length_notFound (hv : httpVersion.length ≤ 8) : (notFound httpVersion).length < responseSize := by
  have hpage : (notFound []).length ≤ 500 := by decide +kernel
  have hlen : (notFound httpVersion).length = httpVersion.length + (notFound []).length := by
    simp only [notFound, List.length_append, List.length_nil]
    omega
  have hsize : responseSize = 1024 := rfl
  omega

lemma length_unimplemented (hv : httpVersion.length ≤ 8) : (unimplemented httpVersion).length < responseSize := by
  have hpage : (unimplemented []).length ≤ 500 := by decide +kernel
  have hlen : (unimplemented httpVersion).length = httpVersion.length + (unimplemented []).length := by
    simp only [unimplemented, List.length_append, List.length_nil]
    omega
  have hsize : responseSize = 1024 := rfl
  omega

lemma not_carries_of_names {fields : List Field} {f : Field} {names : List (List UInt8)} {name : List UInt8}
    (h : fields.map Field.name = names) (hall : names.all fun x => x.map toLower ≠ name.map toLower)
    (hf : f ∈ fields) : ¬ f.Carries name :=
  of_decide_eq_true (List.all_eq_true.mp hall _ (h ▸ List.mem_map_of_mem hf))

lemma fixedFields_other {f : Field} (hf : f ∈ fixedFields filename) : ¬ f.Carries (text "Content-Length") := by
  have hnames : (fixedFields filename).map Field.name =
    [text "Server", text "Accept-Ranges", text "Connection", text "Content-Type"] := rfl
  exact not_carries_of_names hnames (by decide) hf

lemma errorFields_other {f : Field} (hf : f ∈ errorFields) : ¬ f.Carries (text "Content-Length") := by
  have hnames : errorFields.map Field.name = [text "Server", text "Content-Type"] := rfl
  exact not_carries_of_names hnames (by decide) hf

lemma httpSize_fileBlock (filename : List UInt8) (hn : n < 2 ^ 63) :
    httpSize (storedText (fileBlock filename n).lines) = some (if n > 0 then n else -2) := by
  have hvalue : ∀ f ∈ (fileBlock filename n).fields, f.Carries (text "Content-Length") →
      f.Value ((Nat.toDigits 10 n.toNat).map fun d => d.toNat.toUInt8) := by
    intro f hf hc
    rcases List.mem_append.mp hf with hf | hf
    · exact absurd hc (fixedFields_other hf)
    · split_ifs at hf with hp
      · obtain rfl := List.mem_singleton.mp hf
        refine ⟨[32], [], ?_, by simp⟩
        rw [← digits_of_nonneg hp.le]
        simp [lengthField]
      · cases hf
  obtain ⟨hfound, hmissing⟩ := Block.httpSize_eq hvalue Nat.toDigits_ne_nil (isDigit_toDigits _)
  by_cases hp : n > 0
  · rw [hfound, if_pos hp, Nat.ofDigitChars_ten_toDigits]
    · congr 1
      omega
    · have hname : (lengthField n).name = text "Content-Length" := rfl
      refine ⟨lengthField n, ?_, rfl, .inl ⟨?_, ?_⟩⟩
      · simp [fileBlock, hp]
      · rw [hname]
        decide
      · intro b hb
        obtain rfl := Option.some.inj hb
        rfl
  · rw [hmissing, if_neg hp]
    rintro ⟨f, hf, hc, -⟩
    simp only [fileBlock, if_neg hp, List.append_nil] at hf
    exact fixedFields_other hf hc

/-- A block that delivers nothing leaves its status line as the message. -/
lemma finish_errorBlock (h : Readable httpVersion) {code : ℤ} {phrase : List UInt8}
    (hc : 0 < code ∧ (digits code).length = 3) (hp : ∀ b ∈ phrase, b ≠ 10 ∧ b ≠ 13 ∧ b ≠ 0)
    (h₂₀₀ : code ≠ 200) (h₂₀₆ : code ≠ 206) (c : InfoConn) :
    { c with headers := storedText (errorBlock h code phrase hc hp).lines, status := code : InfoConn }.finish =
      .ok (false, { c with
        headers := httpVersion ++ 32 :: (digits code ++ phrase)
        status := code
        size := -2 }) := by
  have hnone : ∀ f ∈ (errorBlock h code phrase hc hp).fields, f.Carries (text "Content-Length") →
      f.Value ((Nat.toDigits 10 0).map fun d => d.toNat.toUInt8) :=
    fun f hf hcar => absurd hcar (errorFields_other hf)
  obtain ⟨-, hmissing⟩ := Block.httpSize_eq hnone Nat.toDigits_ne_nil (isDigit_toDigits _)
  have hsize := hmissing fun hex => by
    obtain ⟨f, hf, hcar, -⟩ := hex
    exact errorFields_other hf hcar
  have hline : 10 ∉ httpVersion ++ 32 :: (digits code ++ phrase) := fun hm =>
    (((errorBlock h code phrase hc hp).lines_clean _ List.mem_cons_self).2 10 hm).1 rfl
  have hsplit : storedText (errorBlock h code phrase hc hp).lines =
      httpVersion ++ 32 :: (digits code ++ phrase) ++ 10 :: storedText (errorFields.map Field.line) := by
    simp [storedText, Block.lines, Block.statusLine, errorBlock]
  have hmem : 10 ∈ storedText (errorBlock h code phrase hc hp).lines := by
    rw [hsplit]
    simp
  have htake : (storedText (errorBlock h code phrase hc hp).lines).takeWhile (· ≠ 10) =
      httpVersion ++ 32 :: (digits code ++ phrase) := by
    rw [hsplit, List.takeWhile_append_of_pos, List.takeWhile_cons_of_neg (by decide), List.append_nil]
    intro b hb
    exact decide_eq_true fun he => hline (he ▸ hb)
  simp only [InfoConn.finish, hsize, h₂₀₀, h₂₀₆, false_and, or_self, if_false, if_pos hmem, htake]

lemma connInfo_of_block (hk : k.code.tdiv 100 ≠ 3) (hfit : k.Fits) (rest : List UInt8) (c : InfoConn) :
    connInfo (fun _ => ⟨true, k.sent ++ rest⟩) c =
      { c with headers := storedText k.lines, status := k.code : InfoConn }.finish :=
  (infoLoop_of_block hk rfl).1 hfit

lemma connInfo_sendFileHeaders (filename : List UInt8) (hn : n < 2 ^ 63) (rest : List UInt8) (c : InfoConn) :
    ∃ c', connInfo (fun _ => ⟨true, sendFileHeaders filename n ++ rest⟩) c = .ok (true, c') ∧
      c'.target = c.target ∧ c'.status = 200 ∧ c'.supported = false ∧ c'.size = intMax ∧
        httpSize c'.headers = some (if n > 0 then n else -2) := by
  have hsize := httpSize_fileBlock filename hn
  have hfit : (fileBlock filename n).Fits := by
    apply Block.fits_of_sent
    rw [← sendFileHeaders_eq]
    exact length_sendFileHeaders filename hn
  have hcode : (fileBlock filename n).code = 200 := rfl
  refine ⟨{ c with
    headers := storedText (fileBlock filename n).lines
    status := 200
    supported := false
    size := intMax }, ?_, rfl, rfl, rfl, rfl, hsize⟩
  rw [sendFileHeaders_eq, connInfo_of_block (by rw [hcode]; decide) hfit, InfoConn.finish]
  simp only [hsize, hcode]
  rw [if_neg fun h => absurd h.1 (by decide), if_pos (.inl trivial)]

lemma connInfo_notFound (h : Readable httpVersion) (hv : httpVersion.length ≤ 8) (c : InfoConn) :
    connInfo (fun _ => ⟨true, notFound httpVersion⟩) c = .ok (false, { c with
      headers := httpVersion ++ text " 404 NOT FOUND"
      status := 404
      size := -2 }) := by
  obtain ⟨page, hpage⟩ := notFound_eq h
  have hlen := length_notFound hv
  rw [hpage, List.length_append] at hlen
  rw [hpage, connInfo_of_block (show (404 : ℤ).tdiv 100 ≠ 3 by decide) (Block.fits_of_sent (by omega))]
  exact finish_errorBlock h _ _ (show (404 : ℤ) ≠ 200 by decide) (show (404 : ℤ) ≠ 206 by decide) c

lemma connInfo_unimplemented (h : Readable httpVersion) (hv : httpVersion.length ≤ 8) (c : InfoConn) :
    connInfo (fun _ => ⟨true, unimplemented httpVersion⟩) c = .ok (false, { c with
      headers := httpVersion ++ text " 501 Method Not Implemented"
      status := 501
      size := -2 }) := by
  obtain ⟨page, hpage⟩ := unimplemented_eq h
  have hlen := length_unimplemented hv
  rw [hpage, List.length_append] at hlen
  rw [hpage, connInfo_of_block (show (501 : ℤ).tdiv 100 ≠ 3 by decide) (Block.fits_of_sent (by omega))]
  exact finish_errorBlock h _ _ (show (501 : ℤ) ≠ 200 by decide) (show (501 : ℤ) ≠ 206 by decide) c

lemma length_httpVersion {directory : Bool} {fileExists : List UInt8 → Bool} {incoming : List UInt8} {r : Request}
    {reply : ProxyReply} (h : acceptRequest directory fileExists incoming = .ok (r, reply)) :
    (asString r.httpVersion).length ≤ 8 := by
  rw [acceptRequest, getLine_eq, ok_bind, bind_eq_ok] at h
  obtain ⟨r', hr, h⟩ := h
  rw [bind_eq_ok] at h
  obtain ⟨reply', -, h⟩ := h
  cases h
  rw [parseRequest_eq (length_received incoming)] at hr
  split_ifs at hr
  cases hr
  exact (List.takeWhile_prefix _).length_le.trans (List.length_take_le _ _)

end

/-- A `conn_info` that asks the proxy succeeds exactly where a file is delivered. It finds the size that was
announced, and all the same takes the server for one without ranges and the size for unknown. Otherwise its
message is the status line that was sent. -/
theorem conn_info_of_proxy {directory : Bool} {fileExists : List UInt8 → Bool} {incoming : List UInt8}
    {r : Request} {reply : ProxyReply} {remote : Option Remote}
    (h : acceptRequest directory fileExists incoming = .ok (r, reply)) (hv : Readable (asString r.httpVersion))
    (hremote : ∀ q, remote = some q → q.size < 2 ^ 63) (files : List UInt8 → Option (List UInt8))
    (sends : List SendResult) (c : InfoConn) :
    ∃ c', connInfo (fun _ => ⟨true, answer files sends remote (asString r.httpVersion) reply⟩) c =
        .ok ((delivered files remote reply).isSome, c') ∧ c'.target = c.target ∧
      match delivered files remote reply with
      | some size => c'.status = 200 ∧ c'.supported = false ∧ c'.size = intMax ∧
          httpSize c'.headers = some (if size > 0 then size else -2)
      | none => c'.headers = asString r.httpVersion ++ refusal reply ∧ c'.supported = c.supported := by
  have hlen := length_httpVersion h
  have hfile : ∀ opened, ∃ c',
      connInfo (fun _ => ⟨true, sendFile files sends opened (asString r.httpVersion)⟩) c =
        .ok (((files opened).map fun _ => (0 : ℤ)).isSome, c') ∧ c'.target = c.target ∧
      match (files opened).map fun _ => (0 : ℤ) with
      | some size => c'.status = 200 ∧ c'.supported = false ∧ c'.size = intMax ∧
          httpSize c'.headers = some (if size > 0 then size else -2)
      | none => c'.headers = asString r.httpVersion ++ text " 404 NOT FOUND" ∧ c'.supported = c.supported := by
    intro opened
    unfold sendFile
    cases files opened with
    | none => exact ⟨_, connInfo_notFound hv hlen c, rfl, rfl, rfl⟩
    | some file => exact connInfo_sendFileHeaders _ (by decide) _ c
  cases reply with
  | unimplemented => exact ⟨_, connInfo_unimplemented hv hlen c, rfl, rfl, rfl⟩
  | localCopy tested opened => exact hfile opened
  | localFile opened => exact hfile opened
  | remoteFile parts =>
    cases remote with
    | none => exact ⟨_, connInfo_notFound hv hlen c, rfl, rfl, rfl⟩
    | some q => exact connInfo_sendFileHeaders q.filename (hremote q rfl) q.relayed c

/-- A movie of 64 bytes that is relayed. -/
theorem conn_info_of_proxy_of_movie : ∃ r reply c',
    acceptRequest false (fun _ => false) (text "GET /?http://h/a.mp4 HTTP/1.1\r\n") = .ok (r, reply) ∧
    connInfo (fun _ => ⟨true, answer (fun _ => none) [] (some ⟨text "./a.mp4", 64, text "moov"⟩)
      (asString r.httpVersion) reply⟩) (fileConn (text "a.mp4")) = .ok (true, c') ∧
    c'.supported = false ∧ c'.size = intMax ∧ httpSize c'.headers = some 64 := by
  have hr : acceptRequest false (fun _ => false) (text "GET /?http://h/a.mp4 HTTP/1.1\r\n") =
      .ok (⟨text "GET", text "/?http://h/a.mp4", text "HTTP/1.1"⟩,
        .remoteFile ⟨text "http", text "h", text "80", text "/a.mp4"⟩) := by
    decide +kernel
  have hv : Readable (asString (text "HTTP/1.1")) := ⟨by decide, List.all_iff_forall_prop.mp (by decide)⟩
  have hremote : ∀ q, some (⟨text "./a.mp4", 64, text "moov"⟩ : Remote) = some q → q.size < 2 ^ 63 := by
    intro q hq
    cases hq
    decide
  obtain ⟨c', hc, -, -, hs, hsize, hfound⟩ :=
    conn_info_of_proxy hr hv hremote (fun _ => none) [] (fileConn (text "a.mp4"))
  exact ⟨_, _, c', hr, hc, hs, hsize, hfound⟩

/-! ### The content of a local file -/

section

variable {sends : List SendResult} {file xs ys : List UInt8} {n : ℕ}

lemma sendFileContent_sublist (sends : List SendResult) (file : List UInt8) :
    (sendFileContent sends file).Sublist file := by
  induction sends generalizing file with
  | nil => exact List.nil_sublist file
  | cons result sends ih =>
    cases result with
    | gone => exact List.nil_sublist file
    | accepted n =>
      rw [sendFileContent]
      split_ifs with hlast
      · rw [List.append_nil]
        exact (List.take_sublist _ _).trans (List.take_sublist _ _)
      · have happend := (List.take_sublist n (file.take sendLocalFileBufSize)).append
          (ih (file.drop sendLocalFileBufSize))
        rwa [List.take_append_drop] at happend

lemma append_eq_iff_of_sublist {xs' ys' : List UInt8} (hx : xs.Sublist xs') (hy : ys.Sublist ys') :
    xs ++ ys = xs' ++ ys' ↔ xs = xs' ∧ ys = ys' := by
  constructor
  · intro h
    have hlen := congrArg List.length h
    rw [List.length_append, List.length_append] at hlen
    have hxl := hx.length_le
    have hyl := hy.length_le
    exact ⟨hx.eq_of_length (by omega), hy.eq_of_length (by omega)⟩
  · rintro ⟨rfl, rfl⟩
    rfl

/-- Each `send` takes the whole block that it is called with. -/
def TakesAll (sends : List SendResult) (file : List UInt8) : Prop :=
  ∀ i, sendLocalFileBufSize * i < file.length → ∃ n, sends[i]? = some (.accepted n) ∧
    min sendLocalFileBufSize (file.length - sendLocalFileBufSize * i) ≤ n

lemma takesAll_nil (sends : List SendResult) : TakesAll sends [] :=
  fun _ hi => absurd hi (Nat.not_lt_zero _)

lemma takesAll_iff_of_none (h : ∀ n, sends[0]? ≠ some (.accepted n)) : TakesAll sends file ↔ [] = file := by
  constructor
  · intro ht
    cases file with
    | nil => rfl
    | cons b bs =>
      obtain ⟨n, hn, -⟩ := ht 0 (by simp)
      exact absurd hn (h n)
  · rintro rfl
    exact takesAll_nil sends

lemma takesAll_cons : TakesAll (.accepted n :: sends) file ↔
    min sendLocalFileBufSize file.length ≤ n ∧ TakesAll sends (file.drop sendLocalFileBufSize) := by
  constructor
  · intro h
    constructor
    · cases file with
      | nil => simp
      | cons b bs =>
        obtain ⟨m, hm, hle⟩ := h 0 (by simp)
        cases hm
        simpa using hle
    · intro i hi
      rw [List.length_drop] at hi ⊢
      obtain ⟨m, hm, hle⟩ := h (i + 1) (by rw [Nat.mul_succ]; omega)
      rw [Nat.mul_succ] at hle
      exact ⟨m, hm, by omega⟩
  · rintro ⟨hfirst, hrest⟩ i hi
    cases i with
    | zero => exact ⟨n, rfl, by simpa using hfirst⟩
    | succ i =>
      rw [Nat.mul_succ] at hi ⊢
      obtain ⟨m, hm, hle⟩ := hrest i (by rw [List.length_drop]; omega)
      rw [List.length_drop] at hle
      exact ⟨m, hm, by omega⟩

/-- What the client of `send_file_content` gets is made of the bytes of the file in their order, and it is
the file exactly if each `send` takes its whole block: what is left of one is not sent again. -/
theorem send_file_content_whole_iff (sends : List SendResult) (file : List UInt8) :
    (sendFileContent sends file).Sublist file ∧ (sendFileContent sends file = file ↔ TakesAll sends file) := by
  refine ⟨sendFileContent_sublist sends file, ?_⟩
  induction sends generalizing file with
  | nil => exact (takesAll_iff_of_none fun n hn => by cases hn).symm
  | cons result sends ih =>
    cases result with
    | gone => exact (takesAll_iff_of_none fun n hn => by cases hn).symm
    | accepted n =>
      have hfirst : (file.take sendLocalFileBufSize).take n = file.take sendLocalFileBufSize ↔
          min sendLocalFileBufSize file.length ≤ n := by
        rw [List.take_eq_self_iff, List.length_take]
      rw [takesAll_cons, ← hfirst, sendFileContent]
      split_ifs with hlast
      · have hdrop : file.drop sendLocalFileBufSize = [] := List.drop_eq_nil_of_le hlast.le
        have htake : file.take sendLocalFileBufSize = file := List.take_of_length_le hlast.le
        rw [hdrop, htake, List.append_nil]
        exact (and_iff_left (takesAll_nil sends)).symm
      · have hsplit := append_eq_iff_of_sublist (List.take_sublist n (file.take sendLocalFileBufSize))
          (sendFileContent_sublist sends (file.drop sendLocalFileBufSize))
        rw [List.take_append_drop] at hsplit
        exact hsplit.trans (and_congr_right' (ih _))

end

end GreenBag
