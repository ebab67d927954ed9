import GreenBag.Serving

/-! The way of a URL through the proxy: `rewrite_url_gproxy`, the request of a client, and what
`accept_request` makes of it. -/

namespace GreenBag

def gproxyAddr : List UInt8 := text "127.0.0.1"

def gproxyPort : ℤ := 8188

def rewriteUrlGproxy (fileUrl : List UInt8) : List UInt8 :=
  text "http://" ++ gproxyAddr ++ 58 :: digits gproxyPort ++ text "/?" ++ fileUrl

/-- The first line of a request. -/
def requestLine (absPath : List UInt8) : List UInt8 := text "GET " ++ absPath ++ text " HTTP/1.1\r\n"

def unblank (b : UInt8) : Bool := b ≠ 0 && !isSpace b

lemma unblank_of_all {s : List UInt8} (h : s.all unblank = true) : ∀ b ∈ s, b ≠ 0 ∧ isSpace b = false := by
  intro b hb
  simpa [unblank] using List.all_eq_true.mp h b hb

/-- A URL with a path behind its host, and without blanks. -/
structure FileUrl where
  authority : List UInt8
  path : List UInt8
  host : 47 ∉ authority
  plain : ∀ b ∈ authority ++ 47 :: path, b ≠ 0 ∧ isSpace b = false

namespace FileUrl

variable (u : FileUrl)

def url : List UInt8 := text "http://" ++ (u.authority ++ 47 :: u.path)

def absPath : List UInt8 := 47 :: 63 :: u.url

variable {u}

lemma url_plain : ∀ b ∈ u.url, b ≠ 0 ∧ isSpace b = false := by
  have hscheme := unblank_of_all (show (text "http://").all unblank = true by decide)
  intro b hb
  exact (List.mem_append.mp hb).elim (hscheme b) (u.plain b)

lemma absPath_plain : ∀ b ∈ u.absPath, b ≠ 0 ∧ isSpace b = false := by
  intro b hb
  rcases List.mem_cons.mp hb with rfl | hb
  · decide
  · rcases List.mem_cons.mp hb with rfl | hb
    · decide
    · exact url_plain b hb

lemma decompose_whole {authority path : List UInt8} (h0 : 0 ∉ authority ++ 47 :: path) (h47 : 47 ∉ authority) :
    decomposeUrl (text "http://" ++ (authority ++ 47 :: path) ++ [0]) 0 =
      .ok (text "http://" ++ (authority ++ 47 :: path) ++ [0],
        ⟨text "http", (hostPort authority).1, (hostPort authority).2, 47 :: path⟩) := by
  have hcut : decomposeUrl ([] ++ (text "http://" ++ (authority ++ 47 :: path) ++ 0 :: [])) 0 =
      .ok ([] ++ (text "http://" ++ (authority ++ 47 :: path) ++ 0 :: []),
        ⟨text "http", (hostPort authority).1, (hostPort authority).2, 47 :: path⟩) :=
    decomposeUrl_append h0 h47 rfl
  exact hcut

lemma decompose_url : decomposeUrl (u.url ++ [0]) 0 = .ok (u.url ++ [0],
    ⟨text "http", (hostPort u.authority).1, (hostPort u.authority).2, 47 :: u.path⟩) := by
  have h0 : 0 ∉ u.authority ++ 47 :: u.path := fun hm => (u.plain 0 hm).1 rfl
  exact decompose_whole h0 u.host

lemma decompose_rewritten : decomposeUrl (rewriteUrlGproxy u.url ++ [0]) 0 = .ok (rewriteUrlGproxy u.url ++ [0],
    ⟨text "http", gproxyAddr, digits gproxyPort, u.absPath⟩) := by
  have hurl : rewriteUrlGproxy u.url = text "http://" ++ ((gproxyAddr ++ 58 :: digits gproxyPort) ++ u.absPath) := by
    simp only [rewriteUrlGproxy, List.append_assoc, List.cons_append, absPath]
    rfl
  have hhost : hostPort (gproxyAddr ++ 58 :: digits gproxyPort) = (gproxyAddr, digits gproxyPort) := by decide
  have h0 : 0 ∉ (gproxyAddr ++ 58 :: digits gproxyPort) ++ u.absPath := by
    rw [List.mem_append, not_or]
    exact ⟨by decide, fun hm => (absPath_plain 0 hm).1 rfl⟩
  have h47 : 47 ∉ gproxyAddr ++ 58 :: digits gproxyPort := by decide
  have hcut := decompose_whole h0 h47
  rw [hhost] at hcut
  rw [hurl]
  exact hcut

lemma length_absPath : u.absPath.length = (u.authority ++ 47 :: u.path).length + 9 := by
  have hscheme : (text "http://").length = 7 := by decide
  simp only [absPath, url, List.length_cons, List.length_append, hscheme]
  omega

lemma received_requestLine (hlen : (u.authority ++ 47 :: u.path).length ≤ 977) (more : List UInt8) :
    received (requestLine u.absPath ++ more) = requestLine u.absPath := by
  have hcr : (13 : UInt8) ∉ text "GET " ++ u.absPath ++ text " HTTP/1.1" := by
    simp only [List.mem_append, not_or]
    exact ⟨⟨by decide, fun hm => absurd (absPath_plain 13 hm).2 (by decide)⟩, by decide⟩
  have hline : requestLine u.absPath = text "GET " ++ u.absPath ++ text " HTTP/1.1" ++ [13, 10] := by
    simp only [requestLine, List.append_assoc]
    rfl
  have hcut : Cuts.pattern [13, 10] (requestLine u.absPath ++ more) =
      some (text "GET " ++ u.absPath ++ text " HTTP/1.1", more) := by
    rw [hline, List.append_assoc]
    exact Cuts.pattern_append hcr
  have hget : (text "GET ").length = 4 := by decide
  have hversion : (text " HTTP/1.1").length = 9 := by decide
  rw [received, upToCrLf, hcut, hline]
  apply List.take_of_length_le
  simp only [List.length_append, length_absPath, hget, hversion, List.length_cons, List.length_nil] at hlen ⊢
  omega

lemma parse_requestLine (hlen : (u.authority ++ 47 :: u.path).length ≤ 977) :
    parseRequest (requestLine u.absPath ++ [0]) = .ok ⟨text "GET", u.absPath, text "HTTP/1.1"⟩ := by
  have hget : text "GET " = text "GET" ++ [32] := by decide
  have hversion : text " HTTP/1.1\r\n" = 32 :: text "HTTP/1.1\r\n" := by decide
  have hline : requestLine u.absPath = text "GET" ++ 32 :: (u.absPath ++ 32 :: text "HTTP/1.1\r\n") := by
    simp only [requestLine, hget, hversion, List.append_assoc, List.cons_append, List.nil_append]
  have hword : ∀ b ∈ u.absPath, (!isSpace b) = true := fun b hb => by rw [(absPath_plain b hb).2]; rfl
  have hmethod : ∀ b ∈ text "GET", (!isSpace b) = true := List.all_eq_true.mp (by decide)
  have hblank : ∀ (xs : List UInt8) c, (32 :: xs).head? = some c → (!isSpace c) = false := by
    intro xs c hc
    cases hc
    rfl
  have htake := Cuts.takeWhile_span hmethod (hblank (u.absPath ++ 32 :: text "HTTP/1.1\r\n"))
  have hdrop := Cuts.dropWhile_span hmethod (hblank (u.absPath ++ 32 :: text "HTTP/1.1\r\n"))
  have hurl := Cuts.takeWhile_span hword (hblank (text "HTTP/1.1\r\n"))
  have hbehind := Cuts.dropWhile_span hword (hblank (text "HTTP/1.1\r\n"))
  have hskip : (32 :: (u.absPath ++ 32 :: text "HTTP/1.1\r\n")).dropWhile isSpace =
      u.absPath ++ 32 :: text "HTTP/1.1\r\n" := by
    rw [List.dropWhile_cons_of_pos (by decide)]
    exact List.dropWhile_cons_of_neg (by decide)
  have hrest : (32 :: text "HTTP/1.1\r\n").dropWhile isSpace = text "HTTP/1.1\r\n" := by decide
  have hgetlen : (text "GET").length = 3 := by decide
  have htext : (text "HTTP/1.1\r\n").length = 10 := by decide
  have hle : (requestLine u.absPath).length ≤ 1001 := by
    rw [hline]
    simp only [List.length_append, List.length_cons, length_absPath, hgetlen, htext] at hlen ⊢
    omega
  rw [parseRequest_eq hle, hline, htake, hdrop]
  simp only [firstWord, afterWord, hskip, hurl, hbehind, hrest]
  rw [if_pos (by decide)]
  rfl

end FileUrl

/-- A URL that was rewritten for the proxy leads to the proxy, and the client's request for the path behind
the rewritten one is taken for the URL itself, with the host and path that `decompose_url` finds in it. -/
theorem proxy_round_trip (u : FileUrl) (hlen : (u.authority ++ 47 :: u.path).length ≤ 977)
    (hname : (lastName u.path).length + 2 < 512) :
    ∃ parts served, decomposeUrl (rewriteUrlGproxy u.url ++ [0]) 0 = .ok (rewriteUrlGproxy u.url ++ [0], parts) ∧
      (parts.host, parts.port) = (gproxyAddr, digits gproxyPort) ∧
      decomposeUrl (u.url ++ [0]) 0 = .ok (u.url ++ [0], served) ∧
      ∀ directory fileExists more, fileExists (46 :: 47 :: lastName u.path) = false →
        ∃ r, acceptRequest directory fileExists (requestLine parts.absPath ++ more) = .ok (r, .remoteFile served) ∧
          r.url.drop (extractRemoteUrl r.url) = u.url := by
  refine ⟨_, _, FileUrl.decompose_rewritten, rfl, FileUrl.decompose_url, fun directory fileExists more hno => ?_⟩
  refine ⟨⟨text "GET", u.absPath, text "HTTP/1.1"⟩, ?_, ?_⟩
  · have hstring : asString u.absPath = u.absPath := by
      rw [asString, List.takeWhile_eq_self_iff]
      exact fun b hb => decide_eq_true (FileUrl.absPath_plain b hb).1
    have hmethod : sameLetters (asString (text "GET")) (text "GET") := by decide
    have hserve : serve directory fileExists ⟨text "GET", u.absPath, text "HTTP/1.1"⟩ = _ :=
      serve_remote hmethod hstring
    rw [Cuts.first_append u.host] at hserve
    simp only at hserve
    rw [if_pos hname, if_neg (by rw [hno]; exact Bool.false_ne_true)] at hserve
    rw [acceptRequest, getLine_eq, ok_bind, FileUrl.received_requestLine hlen, FileUrl.parse_requestLine hlen,
      ok_bind, hserve]
    rfl
  · show u.absPath.drop (extractRemoteUrl u.absPath) = u.url
    rw [FileUrl.absPath, extractRemoteUrl_eq]
    rfl

def movieUrl : FileUrl where
  authority := text "cps:81"
  path := text "v/a.mp4"
  host := by decide
  plain := unblank_of_all (by decide)

theorem proxy_round_trip_of_movie : ∃ parts served,
    decomposeUrl (rewriteUrlGproxy movieUrl.url ++ [0]) 0 = .ok (rewriteUrlGproxy movieUrl.url ++ [0], parts) ∧
      (parts.host, parts.port) = (gproxyAddr, digits gproxyPort) ∧
      decomposeUrl (movieUrl.url ++ [0]) 0 = .ok (movieUrl.url ++ [0], served) ∧
      ∀ directory fileExists more, fileExists (46 :: 47 :: lastName movieUrl.path) = false →
        ∃ r, acceptRequest directory fileExists (requestLine parts.absPath ++ more) = .ok (r, .remoteFile served) ∧
          r.url.drop (extractRemoteUrl r.url) = movieUrl.url :=
  proxy_round_trip movieUrl (by decide) (by decide)

end GreenBag
