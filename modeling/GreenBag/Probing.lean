import GreenBag.Fields

/-! `conn_info`: asking a server about a file, following its redirects. -/

namespace GreenBag

def maxRedir : ℕ := 5

def intMax : ℤ := 2 ^ 31 - 1

/-- The part of a `conn_t` that `conn_info` works on. -/
structure InfoConn where
  target : Target
  status : ℤ
  headers : List UInt8
  supported : Bool
  size : ℤ
  deriving DecidableEq, Repr

/-- What a round meets: whether `conn_setup` succeeds, and what the server sends. -/
structure Answer where
  connects : Bool
  stream : List UInt8

inductive InfoFault
  | reply (fault : HeaderFault)
  | uninitialized
  | string
  | overflow
  deriving DecidableEq, Repr

/-- How a round ends; `s` is what is left in the buffer for the location. -/
inductive InfoRound
  | failed (c : InfoConn)
  | last (c : InfoConn)
  | redirected (c : InfoConn) (s : List UInt8)
  deriving DecidableEq, Repr

/-- `conn_exec`, whose result `conn_info` does not look at. -/
def InfoConn.connExec (c : InfoConn) (stream : List UInt8) : Except InfoFault InfoConn :=
  match httpExecReply c.status stream with
  | .error fault => .error (.reply fault)
  | .ok none => .ok { c with headers := text "Connection gone.\n" }
  | .ok (some r) => .ok { c with headers := r.headers, status := r.status }

/-- The new contents of `headers` and of `s` for a location. -/
def InfoConn.resolve (c : InfoConn) (s : List UInt8) : Option (List UInt8 × List UInt8) :=
  if Cuts.pattern [58, 47, 47] s = none then do
    let url ← connUrl c.target
    let s ← strncpy (url ++ s)
    return (s, s)
  else if s.head? = some 47 then do
    let s ← strncpy (text "http://" ++ c.target.host ++ 58 :: digits c.target.port ++ s)
    return (s, s)
  else some (c.headers, s)

/-- What is made of a location. -/
def InfoConn.redirect (c : InfoConn) (s : List UInt8) : Except InfoFault InfoRound :=
  match c.resolve s with
  | none => .error .string
  | some (headers, s) =>
    match connSet c.target s with
    | none => .error .string
    | some (_, target) => .ok (.redirected { c with target := target, headers := headers } s)

/-- The loop body of `conn_info`. -/
def infoRound (answer : Answer) (s : Option (List UInt8)) (c : InfoConn) : Except InfoFault InfoRound :=
  if !answer.connects then .ok (.failed c)
  else
    match c.connExec answer.stream with
    | .error fault => .error fault
    | .ok c =>
      if c.status.tdiv 100 ≠ 3 then .ok (.last c)
      else
        match httpHeader c.headers (text "location:") with
        | .uninitialized => .error .uninitialized
        | .missing => .ok (.failed c)
        | .found t =>
          match (scanWord 255 t).or s with
          | none => .error .uninitialized
          | some s => c.redirect s

/-- What `conn_info` makes of the last answer. -/
def InfoConn.finish (c : InfoConn) : Except InfoFault (Bool × InfoConn) :=
  match httpSize c.headers with
  | none => .error .uninitialized
  | some size =>
    if c.status = 206 ∧ size ≥ 0 then
      if size + 1 < 2 ^ 63 then .ok (true, { c with supported := true, size := size + 1 })
      else .error .overflow
    else if c.status = 200 ∨ c.status = 206 then
      .ok (true, { c with supported := false, size := intMax })
    else
      let message := if 10 ∈ c.headers then c.headers.takeWhile (· ≠ 10)
        else text "Unknown HTTP error.\n"
      .ok (false, { c with headers := message, size := size })

/-- The loop of `conn_info`, with the number of rounds that are left. -/
def infoLoop (answers : ℕ → Answer) (s : Option (List UInt8)) (c : InfoConn) :
    ℕ → Except InfoFault (Bool × InfoConn)
  | 0 => .ok (false, { c with headers := text "Too many redirects.\n" })
  | left + 1 =>
    match infoRound (answers (maxRedir - (left + 1))) s c with
    | .error fault => .error fault
    | .ok (.failed c) => .ok (false, c)
    | .ok (.last c) => c.finish
    | .ok (.redirected c s) => infoLoop answers (some s) c left

def connInfo (answers : ℕ → Answer) (c : InfoConn) : Except InfoFault (Bool × InfoConn) :=
  infoLoop answers none c maxRedir

/-- An absolute URL with the scheme of HTTP in any letter case. -/
def IsHttpUrl (v : List UInt8) : Prop :=
  ∃ scheme rest, v = scheme ++ ([58, 47, 47] ++ rest) ∧ scheme.map toLower = text "http"

def IsAbsolutePath (v : List UInt8) : Prop :=
  v.head? = some 47 ∧ Cuts.pattern [58, 47, 47] v = none

/-- Neither a path from the root nor behind a scheme. -/
def IsRelative (v : List UInt8) : Prop :=
  v.head? ≠ some 47 ∧
    ∀ scheme rest, Cuts.pattern [58, 47, 47] v = some (scheme, rest) → ¬ scheme.all isSchemeChar

/-- The target that a location stands for. -/
def Resolved (c : Target) (v : List UInt8) (t : Target) : Prop :=
  (IsHttpUrl v → ∃ accepted, connSet c (text "http" ++ v.drop 4) = some (accepted, t)) ∧
  (IsAbsolutePath v → t.host = c.host ∧ t.port = c.port ∧ t.dir ++ t.file = v) ∧
  (IsRelative v → t.host = c.host ∧ t.port = c.port ∧ t.dir ++ t.file = c.dir ++ v)

/-- The locations that are resolved right. -/
def Resolves (c : Target) (v : List UInt8) : Prop :=
  (IsHttpUrl v → v.head? = some 104 ∨
    ∃ accepted, connSet c (text "http" ++ v.drop 4) = some (accepted, c)) ∧
  ¬ IsAbsolutePath v ∧
  (IsRelative v →
    if Cuts.pattern [58, 47, 47] v = none then
      c.file = [] ∧ ∃ url, connUrl c = some url ∧ (url ++ v).length < maxString
    else v.head? ≠ some 104 ∧ c.file = v)

section

variable {c : InfoConn} {v host rest scheme : List UInt8} {port : ℤ} {t : Target} {b : UInt8}

lemma isSchemeChar_of_toLower (h : isSchemeChar (toLower b)) : isSchemeChar b := by
  rw [toLower] at h
  split_ifs at h with hb
  · rw [isSchemeChar, show (decide (65 ≤ b) && decide (b ≤ 90)) = true by simpa using hb]
    simp
  · exact h

lemma IsHttpUrl.pattern (h : IsHttpUrl v) : ∃ scheme rest, v = scheme ++ ([58, 47, 47] ++ rest) ∧
    scheme.length = 4 ∧ scheme.all isSchemeChar ∧
    Cuts.pattern [58, 47, 47] v = some (scheme, rest) := by
  obtain ⟨scheme, rest, rfl, hs⟩ := h
  have hmap : ∀ b ∈ scheme, toLower b ∈ text "http" := fun b hb => hs ▸ List.mem_map_of_mem hb
  have hlen : scheme.length = (text "http").length := by
    rw [← hs, List.length_map]
  refine ⟨scheme, rest, rfl, hlen, ?_, Cuts.pattern_append ?_⟩
  · refine List.all_eq_true.mpr fun b hb => isSchemeChar_of_toLower ?_
    exact List.all_eq_true.mp (by decide : (text "http").all isSchemeChar) _ (hmap b hb)
  · exact fun hm => absurd (hmap 58 hm) (by decide)

lemma connSet_congr {c : Target} {url url' : List UInt8} (h : withoutScheme url = withoutScheme url') :
    connSet c url = connSet c url' := by
  rw [connSet, connSet, h]

lemma exists_connSet {c : Target} {url : List UInt8} (hw : withoutScheme url = some rest)
    (hlen : rest.length < maxString) : ∃ t, connSet c url = some (decide (t.port > 0), t) ∧
      ∃ host, Parsed c.port rest host t := by
  obtain ⟨⟨p, hp⟩, -⟩ := splitHost_slash rest
  obtain ⟨dir, file, hs⟩ := splitPath_isSome (splitHost rest).2 (by rw [hp]; rfl)
  have hparsed : Parsed c.port rest (splitUser (splitHost rest).1).2.2
      ⟨(splitPort c.port (splitUser (splitHost rest).1).2.2).1,
        (splitPort c.port (splitUser (splitHost rest).1).2.2).2, dir, file,
        (splitUser (splitHost rest).1).1, (splitUser (splitHost rest).1).2.1⟩ :=
    ⟨hlen, hs, rfl, rfl⟩
  exact ⟨_, hparsed.connSet hw, _, hparsed⟩

/-- The path of a target that was taken apart starts and ends with a slash, and has no space. -/
lemma Parsed.path_slash (h : Parsed port rest host t) :
    (∃ p, t.dir ++ t.file = 47 :: p) ∧ 32 ∉ t.dir ++ t.file ∧ t.dir ≠ [] := by
  obtain ⟨hp, hlast, -⟩ := splitPath_append h.path
  obtain ⟨hslash, h₃₂⟩ := splitHost_slash rest
  rw [hp]
  exact ⟨hslash, h₃₂, fun hn => by simp [hn] at hlast⟩

lemma redirect_of_resolve {headers s : List UInt8} {accepted : Bool}
    (hr : c.resolve v = some (headers, s)) (hs : connSet c.target s = some (accepted, t)) :
    c.redirect v = .ok (.redirected { c with target := t, headers := headers } s) := by
  rw [InfoConn.redirect, hr]
  simp only [hs]

/-- A location without `://` is put behind the whole URL of the target. -/
lemma redirect_of_none (hp : Parsed port rest host c.target) (hv : 32 ∉ v)
    (hn : Cuts.pattern [58, 47, 47] v = none) :
    (∃ url, connUrl c.target = some url ∧ (url ++ v).length < maxString ∧
      ∃ c' s', c.redirect v = .ok (.redirected c' s') ∧ c'.target.host = c.target.host ∧
        c'.target.port = c.target.port ∧
        c'.target.dir ++ c'.target.file = c.target.dir ++ c.target.file ++ v) ∨
    (¬ ∃ url, connUrl c.target = some url ∧ (url ++ v).length < maxString) ∧
      c.redirect v = .error .string := by
  by_cases hfits : ∃ url, connUrl c.target = some url ∧ (url ++ v).length < maxString
  · obtain ⟨url, hu, hlen⟩ := hfits
    refine .inl ⟨url, hu, hlen, ?_⟩
    obtain ⟨⟨p, hslash⟩, h₃₂, -⟩ := hp.path_slash
    have hurl := hu
    rw [connUrl_eq, strncpy] at hurl
    split_ifs at hurl
    have hwhole : url ++ v =
        text "http" ++ ([58, 47, 47] ++ (c.target.authority ++ 47 :: (p ++ v))) := by
      rw [← Option.some.inj hurl, hslash]
      simp
    have hlen' : (c.target.authority ++ 47 :: (p ++ v)).length < maxString := by
      have := congrArg List.length hwhole
      simp only [List.length_append] at this hlen ⊢
      omega
    obtain ⟨dir, file, hs⟩ := splitPath_isSome (47 :: (p ++ v)) rfl
    have hspace : 32 ∉ 47 :: (p ++ v) := by
      rw [← List.cons_append, ← hslash, List.mem_append]
      exact not_or.mpr ⟨h₃₂, hv⟩
    have hset := hp.connSet_authority hs hspace hlen' c.target
    have hresolve : c.resolve v = some (url ++ v, url ++ v) := by
      simp only [InfoConn.resolve, hn, if_true, hu, strncpy, if_pos hlen, Option.bind_eq_bind,
        Option.bind_some]
      rfl
    rw [← hwhole] at hset
    refine ⟨_, _, redirect_of_resolve hresolve hset, rfl, rfl, ?_⟩
    rw [(splitPath_append hs).1, hslash, List.cons_append]
  · refine .inr ⟨hfits, ?_⟩
    have hresolve : c.resolve v = none := by
      simp only [InfoConn.resolve, hn, if_true]
      cases hu : connUrl c.target with
      | none => rfl
      | some url =>
        have hlen : ¬ (url ++ v).length < maxString := fun hlt => hfits ⟨url, hu, hlt⟩
        simp only [strncpy, if_neg hlen, Option.bind_eq_bind, Option.bind_some, Option.bind_none]
    rw [InfoConn.redirect, hresolve]

/-- A location that is resolved is resolved right exactly in the cases of `Resolves`. -/
lemma redirect_iff (hp : Parsed port rest host c.target)
    (hkind : IsHttpUrl v ∨ IsAbsolutePath v ∨ IsRelative v) (hv : 32 ∉ v) (hlen : v.length < maxString) :
    (∃ c' s', c.redirect v = .ok (.redirected c' s') ∧ Resolved c.target v c'.target) ↔
      Resolves c.target v := by
  cases hn : Cuts.pattern [58, 47, 47] v with
  | none =>
    have hurl : ¬ IsHttpUrl v := fun h => by
      obtain ⟨scheme, rest', -, -, -, hpat⟩ := h.pattern
      rw [hn] at hpat
      cases hpat
    have hdir := hp.path_slash.2.2
    simp only [Resolved, Resolves, hurl, false_implies, true_and, hn, if_true]
    rcases redirect_of_none hp hv hn with ⟨url, hu, hfit, c', s', hc, hhost, hport, hpath⟩ | ⟨hno, he⟩
    · have hlhs : (∃ c'' s'', c.redirect v = .ok (.redirected c'' s'') ∧
          (IsAbsolutePath v → c''.target.host = c.target.host ∧ c''.target.port = c.target.port ∧
            c''.target.dir ++ c''.target.file = v) ∧
          (IsRelative v → c''.target.host = c.target.host ∧ c''.target.port = c.target.port ∧
            c''.target.dir ++ c''.target.file = c.target.dir ++ v)) ↔
          (IsAbsolutePath v → c.target.dir ++ c.target.file ++ v = v) ∧
          (IsRelative v → c.target.dir ++ c.target.file ++ v = c.target.dir ++ v) := by
        rw [hc, ← hpath]
        constructor
        · rintro ⟨c'', s'', heq, habs, hrel⟩
          obtain ⟨rfl, -⟩ := InfoRound.redirected.inj (Except.ok.inj heq)
          exact ⟨fun h => (habs h).2.2, fun h => (hrel h).2.2⟩
        · rintro ⟨habs, hrel⟩
          exact ⟨c', s', rfl, fun h => ⟨hhost, hport, habs h⟩, fun h => ⟨hhost, hport, hrel h⟩⟩
      rw [hlhs]
      refine and_congr ?_ ?_
      · refine ⟨fun h ha => ?_, fun h ha => absurd ha h⟩
        have hlength := congrArg List.length (h ha)
        simp only [List.length_append] at hlength
        exact hdir (List.length_eq_zero_iff.mp (by omega))
      · refine imp_congr_right fun _ => ?_
        have hfile : c.target.dir ++ c.target.file ++ v = c.target.dir ++ v ↔ c.target.file = [] := by
          simp
        rw [hfile]
        exact ⟨fun h => ⟨h, url, hu, hfit⟩, fun h => h.1⟩
    · rw [he]
      refine iff_of_false (by simp) ?_
      rintro ⟨habs, hrel⟩
      rcases hkind with h | h | h
      · exact hurl h
      · exact habs h
      · exact hno (hrel h).2
  | some cut =>
    obtain ⟨scheme, rest'⟩ := cut
    have habs : ¬ IsAbsolutePath v := fun h => by
      rw [h.2] at hn
      cases hn
    have hsplit := Cuts.of_pattern hn
    have hlen' : scheme.length + 3 + rest'.length = v.length := by
      rw [hsplit]
      simp only [List.length_append, List.length_cons, List.length_nil]
      omega
    have hhttp : IsHttpUrl v → v.head? ≠ some 47 ∧
        withoutScheme (text "http" ++ v.drop 4) = some rest' := by
      intro h
      obtain ⟨scheme₀, rest₀, hv₀, hl₀, hall, hpat⟩ := h.pattern
      rw [hn] at hpat
      cases hpat
      refine ⟨fun h₄₇ => ?_, ?_⟩
      · obtain ⟨b, bs, rfl⟩ := List.exists_cons_of_length_eq_add_one hl₀
        rw [hv₀] at h₄₇
        obtain rfl := Option.some.inj h₄₇
        simp [isSchemeChar] at hall
      · have hdrop : v.drop 4 = [58, 47, 47] ++ rest' := by rw [hv₀, ← hl₀, List.drop_left]
        rw [hdrop, withoutScheme, Cuts.pattern_append (by decide)]
        exact if_pos rfl
    have hhead : v.head? ≠ some 47 := by
      rcases hkind with h | h | h
      · exact (hhttp h).1
      · exact absurd h habs
      · exact h.1
    have hresolve : c.resolve v = some (c.headers, v) := by
      simp only [InfoConn.resolve, hn, reduceCtorEq, if_false, if_neg hhead]
    simp only [Resolved, Resolves, habs, false_implies, true_and, hn, reduceCtorEq, if_false,
      not_false_eq_true]
    by_cases hh : v.head? = some 104
    · have hw : withoutScheme v = some rest' := by
        rw [withoutScheme, hn]
        exact if_pos hh
      obtain ⟨t, hset, host', hparsed⟩ := exists_connSet (c := c.target) hw (by omega)
      have hpath : (t.dir ++ t.file).length < v.length := by
        obtain ⟨zs, hz⟩ := Cuts.behind_suffix 47 rest'
        have hspace : 32 ∉ pathBehind rest' := by
          refine List.mem_cons.not.mpr (not_or.mpr ⟨by decide, fun hm => hv ?_⟩)
          rw [hsplit]
          exact List.mem_append_right _ (List.mem_append_right _ (hz ▸ List.mem_append_right zs hm))
        have hle : (pathBehind rest').length ≤ rest'.length + 1 := by
          have := congrArg List.length hz
          rw [List.length_append] at this
          rw [pathBehind, List.length_cons]
          omega
        rw [(splitPath_append hparsed.path).1, splitHost_path hparsed.length,
          httpEncode_of_not_mem hspace (by omega)]
        omega
      rw [redirect_of_resolve hresolve hset]
      constructor
      · rintro ⟨c', s', heq, -, hrel⟩
        obtain ⟨rfl, -⟩ := InfoRound.redirected.inj (Except.ok.inj heq)
        refine ⟨fun _ => .inl hh, fun h => ?_⟩
        have hlength := congrArg List.length (hrel h).2.2
        simp only [List.length_append] at hlength hpath
        omega
      · rintro ⟨-, hrel⟩
        refine ⟨_, _, rfl, fun h => ⟨decide (t.port > 0), ?_⟩, fun h => absurd hh (hrel h).1⟩
        rw [connSet_congr ((hhttp h).2.trans hw.symm)]
        exact hset
    · have hw : withoutScheme v = none := by
        rw [withoutScheme, hn]
        exact if_neg hh
      have hset : connSet c.target v = some (false, c.target) := by
        rw [connSet, hw]
      rw [redirect_of_resolve hresolve hset]
      constructor
      · rintro ⟨c', s', heq, hurl, hrel⟩
        obtain ⟨rfl, -⟩ := InfoRound.redirected.inj (Except.ok.inj heq)
        exact ⟨fun h => .inr (hurl h), fun h => ⟨hh, by simpa using (hrel h).2.2⟩⟩
      · rintro ⟨hurl, hrel⟩
        exact ⟨_, _, rfl, fun h => (hurl h).resolve_left hh, fun h => ⟨rfl, rfl, by
          rw [(hrel h).2]⟩⟩

/-- What a round makes of a block that sends it elsewhere: the location is found where the block fits
and a blank follows the colon. -/
lemma infoRound_eq {k : Block} {s : Option (List UInt8)} (rest : List UInt8) (hk : k.code.tdiv 100 = 3)
    (hloc : ∀ f ∈ k.fields, f.Carries (text "location") → f.Value v) (hne : v ≠ [])
    (hv : ∀ b ∈ v, isSpace b = false) (hlen : v.length ≤ 255) :
    (k.Fits ∧ (∃ f ∈ k.fields, f.Carries (text "location") ∧ f.Plain) →
      infoRound ⟨true, k.sent ++ rest⟩ s c =
        { c with headers := storedText k.lines, status := k.code : InfoConn }.redirect v) ∧
    (¬ (k.Fits ∧ ∃ f ∈ k.fields, f.Carries (text "location") ∧ f.Plain) →
      ∀ c' s', infoRound ⟨true, k.sent ++ rest⟩ s c ≠ .ok (.redirected c' s')) := by
  have hname : text "location:" = text "location" ++ [58] := rfl
  have hcolon : 58 ∉ text "location" := by decide
  by_cases hfit : k.Fits
  · obtain ⟨first, hreply⟩ := k.httpExecReply_of_fits hfit c.status rest
    have hexec : c.connExec (k.sent ++ rest) =
        .ok { c with headers := storedText k.lines, status := k.code } := by
      simp only [InfoConn.connExec, hreply]
    by_cases hex : ∃ f ∈ k.fields, f.Carries (text "location") ∧ f.Plain
    · refine ⟨fun _ => ?_, fun hn => absurd ⟨hfit, hex⟩ hn⟩
      obtain ⟨pre, f, post, hfields, hf, hpre⟩ := exists_first hex
      have hfound := Block.httpHeader_found hcolon hfields hpre hf.1 hf.2
      have hscan := (hloc f (hfields ▸ by simp) hf.1).scanWord hne hv hlen
        (storedText (post.map Field.line))
      simp only [infoRound, Bool.not_true, Bool.false_eq_true, if_false, hexec, hk, ne_eq,
        not_true_eq_false, hname, hfound, hscan, Option.some_or]
    · refine ⟨fun h => absurd h.2 hex, fun _ c' s' h => ?_⟩
      have hmissing := Block.httpHeader_missing (k := k) hcolon (by simpa using hex)
      simp only [infoRound, Bool.not_true, Bool.false_eq_true, if_false, hexec, hk, ne_eq,
        not_true_eq_false, hname, hmissing] at h
      cases h
  · refine ⟨fun h => absurd h.1 hfit, fun _ c' s' h => ?_⟩
    have hreply := k.httpExecReply_of_not_fits hfit c.status rest
    simp only [infoRound, Bool.not_true, Bool.false_eq_true, if_false, InfoConn.connExec, hreply] at h
    cases h

lemma plain_iff_blank {f : Field} {name : List UInt8} (hf : f.Carries name) (hn : name.length < 30) :
    f.Plain ↔ f.Blank := by
  have hlen : f.name.length = name.length := by
    rw [← List.length_map toLower, hf, List.length_map]
  rw [Field.Plain, hlen, or_iff_left hn.ne, and_iff_right hn]

lemma exists_plain_iff_blank {k : Block} {name : List UInt8} (hn : name.length < 30) :
    (∃ f ∈ k.fields, f.Carries name ∧ f.Plain) ↔ ∃ f ∈ k.fields, f.Carries name ∧ f.Blank :=
  exists_congr fun _ => and_congr_right fun _ => and_congr_right fun hf => plain_iff_blank hf hn

/-- A redirect of a server is resolved right exactly if its block fits, a blank follows the colon, and
the location is an HTTP URL with a small h, or relative to a directory and not too long. -/
theorem redirect_resolved_iff {c₀ : Target} {url rest₀ : List UInt8} {accepted : Bool} {k : Block}
    {s : Option (List UInt8)} (hc : connSet c₀ url = some (accepted, c.target))
    (hw : withoutScheme url = some rest₀) (hk : k.code.tdiv 100 = 3)
    (hloc : ∀ f ∈ k.fields, f.Carries (text "location") → f.Value v) (hne : v ≠ [])
    (hv : ∀ b ∈ v, isSpace b = false) (hlen : v.length ≤ 255)
    (hkind : IsHttpUrl v ∨ IsAbsolutePath v ∨ IsRelative v) :
    (∃ c' s', infoRound ⟨true, k.sent ++ rest⟩ s c = .ok (.redirected c' s') ∧
        Resolved c.target v c'.target) ↔
      k.Fits ∧ (∃ f ∈ k.fields, f.Carries (text "location") ∧ f.Blank) ∧ Resolves c.target v := by
  obtain ⟨-, host, hp⟩ := of_connSet hc hw
  obtain ⟨hfound, hlost⟩ := infoRound_eq (c := c) (s := s) rest hk hloc hne hv hlen
  have h₃₂ : 32 ∉ v := fun hm => absurd (hv 32 hm) (by decide)
  rw [← exists_plain_iff_blank (by decide), ← and_assoc]
  by_cases hfits : k.Fits ∧ ∃ f ∈ k.fields, f.Carries (text "location") ∧ f.Plain
  · rw [hfound hfits, and_iff_right hfits]
    exact redirect_iff (c := { c with headers := storedText k.lines, status := k.code }) hp hkind h₃₂
      (hlen.trans_lt (by decide))
  · refine iff_of_false ?_ fun h => hfits h.1
    rintro ⟨c', s', hr, -⟩
    exact hlost hfits c' s' hr

/-- What `http_size` finds in a block. -/
lemma Block.httpSize_eq {k : Block} {ds : List Char}
    (hall : ∀ f ∈ k.fields, f.Carries (text "Content-Length") →
      f.Value (ds.map fun d => d.toNat.toUInt8))
    (hne : ds ≠ []) (hds : ∀ d ∈ ds, d.isDigit) :
    ((∃ f ∈ k.fields, f.Carries (text "Content-Length") ∧ f.Plain) →
      httpSize (storedText k.lines) = some (min (Nat.ofDigitChars 10 ds 0 : ℤ) (2 ^ 63 - 1))) ∧
    ((¬ ∃ f ∈ k.fields, f.Carries (text "Content-Length") ∧ f.Plain) →
      httpSize (storedText k.lines) = some (-2)) := by
  have hname : text "Content-Length:" = text "Content-Length" ++ [58] := rfl
  have hcolon : 58 ∉ text "Content-Length" := by decide
  constructor
  · intro hex
    obtain ⟨pre, f, post, hfields, hf, hpre⟩ := exists_first hex
    have hfound := Block.httpHeader_found hcolon hfields hpre hf.1 hf.2
    have hvalue := hall f (hfields ▸ by simp) hf.1
    simp only [httpSize, hname, hfound, hvalue.scanLong hne hds]
  · intro hno
    have hmissing := Block.httpHeader_missing (k := k) hcolon (by simpa using hno)
    simp only [httpSize, hname, hmissing]

lemma infoLoop_of_block {k : Block} {answers : ℕ → Answer} {s : Option (List UInt8)} {left : ℕ}
    (hk : k.code.tdiv 100 ≠ 3) (ha : answers (maxRedir - (left + 1)) = ⟨true, k.sent ++ rest⟩) :
    (k.Fits → infoLoop answers s c (left + 1) =
      { c with headers := storedText k.lines, status := k.code : InfoConn }.finish) ∧
    (¬ k.Fits → infoLoop answers s c (left + 1) = .error (.reply .overflow)) := by
  constructor
  · intro hfit
    obtain ⟨first, hreply⟩ := k.httpExecReply_of_fits hfit c.status rest
    simp only [infoLoop, ha, infoRound, InfoConn.connExec, hreply, Bool.not_true, Bool.false_eq_true,
      if_false, hk, ne_eq, not_false_eq_true, if_true]
  · intro hfit
    have hreply := k.httpExecReply_of_not_fits hfit c.status rest
    simp only [infoLoop, ha, infoRound, InfoConn.connExec, hreply, Bool.not_true, Bool.false_eq_true,
      if_false]

/-- The size is found exactly if the block fits, a blank follows the colon, and the size can be
represented; and a name is found exactly if some line with it is plain. -/
theorem size_detected_iff {k : Block} {ds : List Char} {size : ℕ} (hk : k.code = 206)
    (hall : ∀ f ∈ k.fields, f.Carries (text "Content-Length") →
      f.Value (ds.map fun d => d.toNat.toUInt8))
    (hne : ds ≠ []) (hds : ∀ d ∈ ds, d.isDigit) (hsize : size = Nat.ofDigitChars 10 ds 0 + 1) :
    (∀ answers s c left rest, answers (maxRedir - (left + 1)) = ⟨true, k.sent ++ rest⟩ →
      ((∃ c', infoLoop answers s c (left + 1) = .ok (true, c') ∧ c'.supported ∧ c'.size = size) ↔
        k.Fits ∧ (∃ f ∈ k.fields, f.Carries (text "Content-Length") ∧ f.Blank) ∧ size < 2 ^ 63)) ∧
    ∀ name, 58 ∉ name →
      ((httpHeader (storedText k.lines) (name ++ [58]) = .missing →
          ∀ f ∈ k.fields, ¬ f.Carries name) ↔
        ∀ f ∈ k.fields, f.Carries name → ∃ g ∈ k.fields, g.Carries name ∧ g.Plain) := by
  constructor
  · intro answers s c left rest ha
    obtain ⟨hfits, hlong⟩ := infoLoop_of_block (c := c) (s := s) (by rw [hk]; decide) ha
    obtain ⟨hfound, hmissing⟩ := k.httpSize_eq hall hne hds
    rw [← exists_plain_iff_blank (by decide)]
    by_cases hfit : k.Fits
    · rw [hfits hfit, and_iff_right hfit]
      by_cases hex : ∃ f ∈ k.fields, f.Carries (text "Content-Length") ∧ f.Plain
      · rw [and_iff_right hex, InfoConn.finish]
        simp only [hfound hex, hk]
        rw [if_pos ⟨trivial, by omega⟩]
        split_ifs with hlt
        · refine iff_of_true ⟨_, rfl, rfl, ?_⟩ (by omega)
          rw [hsize]
          push_cast
          omega
        · exact iff_of_false (by simp) (by omega)
      · rw [InfoConn.finish]
        simp only [hmissing hex, hk]
        rw [if_neg (by omega), if_pos (by decide)]
        refine iff_of_false ?_ fun h => hex h.1
        rintro ⟨c', hc, hs, -⟩
        cases hc
        cases hs
    · rw [hlong hfit]
      exact iff_of_false (by simp) fun h => hfit h.1
  · intro name hn
    rw [Block.httpHeader_eq_missing_iff hn]
    constructor
    · intro h f hf hc
      by_contra hno
      exact h (fun g hg hp => hno ⟨g, hg, hp⟩) f hf hc
    · intro h hmiss f hf hc
      obtain ⟨g, hg, hp⟩ := h f hf hc
      exact hmiss g hg hp

end

lemma clean_of_all {l : List UInt8} (h : l.all fun b => b ≠ 10 ∧ b ≠ 13 ∧ b ≠ 0) :
    ∀ b ∈ l, b ≠ 10 ∧ b ≠ 13 ∧ b ≠ 0 :=
  List.all_iff_forall_prop.mp h

/-- A block with one field. -/
def locationBlock (body : List UInt8) (h : ∀ b ∈ body, b ≠ 10 ∧ b ≠ 13 ∧ b ≠ 0) : Block where
  version := text "HTTP/1.1"
  code := 302
  phrase := text " Found"
  fields := [⟨text "Location", body, by decide, List.all_iff_forall_prop.mp (by decide), h⟩]
  version_ne := by decide
  version_word := List.all_iff_forall_prop.mp (by decide)
  code_pos := by decide
  code_three := by decide
  phrase_text := clean_of_all (by decide)

/-- The connection to a file in a directory, as it is set up first. -/
def fileConn (file : List UInt8) : InfoConn :=
  ⟨⟨text "h", 80, text "/d/", file, [], []⟩, 0, [], false, 0⟩

/-- A file in the current directory. -/
theorem redirect_resolved_iff_of_directory : ∃ (c : InfoConn) (k : Block),
    (∃ f ∈ k.fields, f.body = text " f") ∧
    ((∃ c' s', infoRound ⟨true, k.sent ++ []⟩ none c = .ok (.redirected c' s') ∧
        Resolved c.target (text "f") c'.target) ↔
      k.Fits ∧ (∃ f ∈ k.fields, f.Carries (text "location") ∧ f.Blank) ∧
        Resolves c.target (text "f")) := by
  have hset : connSet emptyTarget (text "http://h/d/") = some (true, (fileConn []).target) := by
    decide +kernel
  have hw : withoutScheme (text "http://h/d/") = some (text "h/d/") := by decide +kernel
  have hpattern : Cuts.pattern [58, 47, 47] (text "f") = none := by decide
  refine ⟨fileConn [], locationBlock (text " f") (clean_of_all (by decide)), ⟨_, List.mem_cons_self, rfl⟩,
    redirect_resolved_iff hset hw (by decide) ?_ (by decide)
      (List.all_iff_forall_prop.mp (by decide)) (by decide) (.inr (.inr ⟨by decide, fun scheme rest h => ?_⟩))⟩
  · intro f hf _
    obtain rfl := List.mem_singleton.mp hf
    exact ⟨text " ", [], by decide, fun b hb => .inl (List.mem_singleton.mp (hb.resolve_right (by simp)))⟩
  · rw [hpattern] at h
    cases h

/-- A path from the root is put behind the whole URL of the current file. -/
theorem root_path_appended : ∃ c c' s', connSet emptyTarget (text "http://h/d/g") = some (true, c) ∧
    infoRound ⟨true, (locationBlock (text " /p") (clean_of_all (by decide))).sent⟩ none ⟨c, 0, [], false, 0⟩ =
      .ok (.redirected c' s') ∧
    IsAbsolutePath (text "/p") ∧ c'.target.dir ++ c'.target.file = text "/d/g/p" := by
  refine ⟨⟨text "h", 80, text "/d/", text "g", [], []⟩,
    ⟨⟨text "h", 80, text "/d/g/", text "p", [], []⟩, 302, text "http://h:80/d/g/p", false, 0⟩,
    text "http://h:80/d/g/p", by decide +kernel, by decide +kernel, ⟨by decide, by decide⟩, by decide⟩

/-- A block with a date in front of the length. -/
def lengthBlock (body : List UInt8) (h : ∀ b ∈ body, b ≠ 10 ∧ b ≠ 13 ∧ b ≠ 0) : Block where
  version := text "HTTP/1.1"
  code := 206
  phrase := text " Partial Content"
  fields := [⟨text "Date", text " today", by decide, List.all_iff_forall_prop.mp (by decide),
      clean_of_all (by decide)⟩,
    ⟨text "content-length", body, by decide, List.all_iff_forall_prop.mp (by decide), h⟩]
  version_ne := by decide
  version_word := List.all_iff_forall_prop.mp (by decide)
  code_pos := by decide
  code_three := by decide
  phrase_text := clean_of_all (by decide)

theorem size_detected_iff_of_date : ∃ k : Block, (∃ f ∈ k.fields, f.body = text " 15") ∧
    (∀ answers s c left rest, answers (maxRedir - (left + 1)) = ⟨true, k.sent ++ rest⟩ →
      ((∃ c', infoLoop answers s c (left + 1) = .ok (true, c') ∧ c'.supported ∧ c'.size = (16 : ℕ)) ↔
        k.Fits ∧ (∃ f ∈ k.fields, f.Carries (text "Content-Length") ∧ f.Blank) ∧ 16 < 2 ^ 63)) ∧
    ∀ name, 58 ∉ name →
      ((httpHeader (storedText k.lines) (name ++ [58]) = .missing →
          ∀ f ∈ k.fields, ¬ f.Carries name) ↔
        ∀ f ∈ k.fields, f.Carries name → ∃ g ∈ k.fields, g.Carries name ∧ g.Plain) := by
  refine ⟨lengthBlock (text " 15") (clean_of_all (by decide)), ⟨_, List.mem_cons_of_mem _ List.mem_cons_self, rfl⟩,
    @size_detected_iff _ ['1', '5'] _ rfl ?_ (by decide)
      (List.all_iff_forall_prop.mp (by decide)) (by decide)⟩
  intro f hf hc
  rcases List.mem_cons.mp hf with rfl | hf
  · exact absurd hc (by decide)
  · obtain rfl := List.mem_singleton.mp hf
    exact ⟨text " ", [], by decide, fun b hb => .inl (List.mem_singleton.mp (hb.resolve_right (by simp)))⟩

/-- A length right behind the colon is not found. -/
theorem length_missed : ∃ c',
    connInfo (fun _ => ⟨true, (lengthBlock (text "15") (clean_of_all (by decide))).sent⟩)
      (fileConn []) = .ok (true, c') ∧
    c'.supported = false ∧ c'.size = intMax ∧
    httpHeader (storedText (lengthBlock (text "15") (clean_of_all (by decide))).lines)
      (text "Content-Length:") = .missing := by
  refine ⟨{ fileConn [] with
    status := 206
    headers := storedText (lengthBlock (text "15") (clean_of_all (by decide))).lines
    size := intMax }, ?_⟩
  decide +kernel

end GreenBag
