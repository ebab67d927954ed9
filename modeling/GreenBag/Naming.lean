import GreenBag.Urls

/-! `get_unique_filepath`: the names under which the logs of a session are opened. -/

namespace GreenBag

inductive NamingFault
  | outOfBounds
  | null
  | endless
  deriving DecidableEq, Repr

/-- The size of `ext`. -/
def extSize : ℕ := 16

/-- What stands in front of the last dot and behind it; a path without a dot has no extension. -/
def splitExt (filepath : List UInt8) : Except NamingFault (List UInt8 × List UInt8) :=
  match Cuts.last 46 filepath with
  | none => return (filepath, [])
  | some (stem, ext) => if ext.length < extSize then return (stem, ext) else throw .outOfBounds

/-- `strftime` may fail, and then there is no dot behind the stem. -/
def dated (dateId : Option (List UInt8)) (stem ext : List UInt8) : List UInt8 :=
  match dateId with
  | none => stem
  | some d => stem ++ 46 :: d ++ 46 :: ext

def numbered (front ext : List UInt8) (index : ℕ) : List UInt8 := front ++ 46 :: digits index ++ 46 :: ext

/-- The loop over the indices, which takes at most so many rounds. -/
def nextFree (fileExists : List UInt8 → Bool) (front ext : List UInt8) : ℕ → ℕ → Except NamingFault (List UInt8)
  | 0, _ => throw .endless
  | rounds + 1, index =>
    if fileExists (numbered front ext index) then nextFree fileExists front ext rounds (index + 1)
    else return numbered front ext index

def getUniqueFilepath (fileExists : List UInt8 → Bool) (dateId : Option (List UInt8)) (rounds : ℕ)
    (filepath : List UInt8) : Except NamingFault (List UInt8) := do
  let (stem, ext) ← splitExt filepath
  let path := dated dateId stem ext
  if fileExists path then
    match Cuts.last 46 path with
    | none => throw .null
    | some (front, _) => nextFree fileExists front ext rounds 1
  else return path

/-- The logs that are opened one after the other, each at its time; the first component lists all files. -/
def openLogs (files : List (List UInt8)) : List (List UInt8 × List UInt8) → Except NamingFault (List (List UInt8))
  | [] => return []
  | (dateId, filepath) :: logs => do
    let path ← getUniqueFilepath (fun p => p ∈ files) (some dateId) (files.length + 1) filepath
    let paths ← openLogs (path :: files) logs
    return path :: paths

/-- What stands behind the last dot. -/
def extension (filepath : List UInt8) : List UInt8 := (Cuts.last 46 filepath).elim [] Prod.snd

section

variable {front ext stem filepath d path : List UInt8} {files : List (List UInt8)} {rounds index : ℕ}
  {fileExists : List UInt8 → Bool}

lemma numbered_injective (front ext : List UInt8) : Function.Injective (numbered front ext) := by
  intro j k h
  have hd : digits (j : ℤ) = digits (k : ℤ) := by simpa [numbered] using h
  have hs := congrArg scanInt hd
  rw [scanInt_digits, scanInt_digits] at hs
  exact_mod_cast Option.some.inj hs

lemma nextFree_eq {k : ℕ} (hk : fileExists (numbered front ext (index + k)) = false)
    (hbefore : ∀ j < k, fileExists (numbered front ext (index + j)) = true) (hr : k < rounds) :
    nextFree fileExists front ext rounds index = .ok (numbered front ext (index + k)) := by
  induction k generalizing index rounds with
  | zero =>
    cases rounds with
    | zero => omega
    | succ rounds =>
      rw [nextFree, if_neg]
      · rfl
      · rw [Nat.add_zero] at hk
        rw [hk]
        exact Bool.false_ne_true
  | succ k ih =>
    cases rounds with
    | zero => omega
    | succ rounds =>
      have hfirst := hbefore 0 (Nat.succ_pos k)
      rw [Nat.add_zero] at hfirst
      have hnext : index + 1 + k = index + (k + 1) := by omega
      rw [nextFree, if_pos hfirst, ← hnext]
      apply ih
      · rw [hnext]
        exact hk
      · intro j hj
        have hlater := hbefore (j + 1) (Nat.succ_lt_succ hj)
        rwa [show index + 1 + j = index + (j + 1) by omega]
      · omega

lemma exists_free (files : List (List UInt8)) (front ext : List UInt8) (index : ℕ) :
    ∃ k ≤ files.length, numbered front ext (index + k) ∉ files ∧
      ∀ j < k, numbered front ext (index + j) ∈ files := by
  have hfree : ∃ k, k ≤ files.length ∧ numbered front ext (index + k) ∉ files := by
    by_contra hn
    have hall : ∀ k ≤ files.length, numbered front ext (index + k) ∈ files :=
      fun k hk => not_not.mp fun hm => hn ⟨k, hk, hm⟩
    have hnodup : ((List.range (files.length + 1)).map fun k => numbered front ext (index + k)).Nodup := by
      apply List.nodup_range.map
      intro j k hjk
      have hadd := numbered_injective front ext hjk
      omega
    have hsub := List.subperm_of_subset hnodup fun p hp => by
      obtain ⟨k, hk, rfl⟩ := List.mem_map.mp hp
      exact hall k (by simpa using hk)
    have hle := hsub.length_le
    rw [List.length_map, List.length_range] at hle
    omega
  classical
  refine ⟨Nat.find hfree, (Nat.find_spec hfree).1, (Nat.find_spec hfree).2, fun j hj => ?_⟩
  have hmin := Nat.find_min hfree hj
  have hle := (Nat.find_spec hfree).1
  exact not_not.mp fun hm => hmin ⟨by omega, hm⟩

lemma splitExt_ok (h : (extension filepath).length < extSize) :
    ∃ stem ext, splitExt filepath = .ok (stem, ext) ∧ 46 ∉ ext := by
  unfold splitExt
  unfold extension at h
  cases hc : Cuts.last 46 filepath with
  | none => exact ⟨filepath, [], rfl, List.not_mem_nil⟩
  | some cut =>
    obtain ⟨stem, ext⟩ := cut
    rw [hc] at h
    exact ⟨stem, ext, if_pos h, (Cuts.of_last hc).2⟩

lemma splitExt_error (h : extSize ≤ (extension filepath).length) : splitExt filepath = .error .outOfBounds := by
  unfold splitExt
  unfold extension at h
  cases hc : Cuts.last 46 filepath with
  | none =>
    rw [hc] at h
    exact absurd h (by decide)
  | some cut =>
    obtain ⟨stem, ext⟩ := cut
    rw [hc] at h
    exact if_neg (not_lt.mpr h)

/-- The path is the dated one, or the first free one of the numbered ones. -/
lemma getUniqueFilepath_new (d : List UInt8) (hext : (extension filepath).length < extSize)
    (hr : files.length < rounds) : ∃ path,
      getUniqueFilepath (fun p => p ∈ files) (some d) rounds filepath = .ok path ∧ path ∉ files := by
  obtain ⟨stem, ext, hsplit, hdot⟩ := splitExt_ok hext
  have hcut : Cuts.last 46 (dated (some d) stem ext) = some (stem ++ 46 :: d, ext) := Cuts.last_append hdot
  have hget : getUniqueFilepath (fun p => p ∈ files) (some d) rounds filepath =
      if dated (some d) stem ext ∈ files then nextFree (fun p => p ∈ files) (stem ++ 46 :: d) ext rounds 1
      else .ok (dated (some d) stem ext) := by
    simp only [getUniqueFilepath, hsplit, hcut, bind, Except.bind, decide_eq_true_eq]
    rfl
  by_cases hm : dated (some d) stem ext ∈ files
  · obtain ⟨k, hk, hfree, hbefore⟩ := exists_free files (stem ++ 46 :: d) ext 1
    refine ⟨numbered (stem ++ 46 :: d) ext (1 + k), ?_, hfree⟩
    rw [hget, if_pos hm]
    apply nextFree_eq
    · exact decide_eq_false hfree
    · exact fun j hj => decide_eq_true (hbefore j hj)
    · omega
  · exact ⟨_, by rw [hget, if_neg hm], hm⟩

lemma getUniqueFilepath_error (fileExists : List UInt8 → Bool) (dateId : Option (List UInt8)) (rounds : ℕ)
    (h : extSize ≤ (extension filepath).length) :
    getUniqueFilepath fileExists dateId rounds filepath = .error .outOfBounds := by
  rw [getUniqueFilepath, splitExt_error h]
  rfl

lemma nextFree_form (h : nextFree fileExists front ext rounds index = .ok path) :
    ∃ k : ℕ, path = numbered front ext k := by
  induction rounds generalizing index with
  | zero => cases h
  | succ rounds ih =>
    rw [nextFree] at h
    split_ifs at h
    · exact ih h
    · cases h
      exact ⟨index, rfl⟩

lemma getUniqueFilepath_form (hd : 47 ∉ d)
    (h : getUniqueFilepath fileExists (some d) rounds filepath = .ok path) :
    ∃ stem ext tag, splitExt filepath = .ok (stem, ext) ∧ 47 ∉ tag ∧ path = stem ++ 46 :: tag ++ 46 :: ext := by
  cases hsplit : splitExt filepath with
  | error e =>
    rw [getUniqueFilepath, hsplit] at h
    cases h
  | ok cut =>
    obtain ⟨stem, ext⟩ := cut
    have hext : (extension filepath).length < extSize := by
      by_contra hn
      rw [splitExt_error (not_lt.mp hn)] at hsplit
      cases hsplit
    obtain ⟨stem', ext', hsplit', hdot⟩ := splitExt_ok hext
    rw [hsplit] at hsplit'
    cases hsplit'
    have hcut : Cuts.last 46 (dated (some d) stem ext) = some (stem ++ 46 :: d, ext) := Cuts.last_append hdot
    have hget : getUniqueFilepath fileExists (some d) rounds filepath =
        if fileExists (dated (some d) stem ext) then nextFree fileExists (stem ++ 46 :: d) ext rounds 1
        else .ok (dated (some d) stem ext) := by
      simp only [getUniqueFilepath, hsplit, hcut, bind, Except.bind]
      rfl
    rw [hget] at h
    split_ifs at h
    · obtain ⟨k, rfl⟩ := nextFree_form h
      refine ⟨stem, ext, d ++ 46 :: digits k, rfl, ?_, by simp [numbered]⟩
      have hdigits : (47 : UInt8) ∉ digits (k : ℤ) := not_mem_digits (.inl (by decide)) (by decide) k
      simp [hd, hdigits]
    · cases h
      exact ⟨stem, ext, d, rfl, hd, rfl⟩

end

lemma exists_last_dot {s : List UInt8} (h : 46 ∈ s) : ∃ front back, 46 ∉ back ∧ s = front ++ 46 :: back := by
  cases hc : Cuts.last 46 s with
  | none => exact absurd h (Cuts.last_eq_none_iff.mp hc)
  | some cut =>
    obtain ⟨front, back⟩ := cut
    obtain ⟨hs, hb⟩ := Cuts.of_last hc
    exact ⟨front, back, hb, hs⟩

lemma splitExt_of_last {filepath stem ext stem' ext' : List UInt8}
    (hc : Cuts.last 46 filepath = some (stem', ext')) (h : splitExt filepath = .ok (stem, ext)) :
    stem' = stem ∧ ext' = ext := by
  rw [splitExt, hc] at h
  simp only at h
  split_ifs at h
  cases h
  exact ⟨rfl, rfl⟩

/-- No log is opened under the name of a file that exists, nor two under one name, in whatever order logs
are opened; and only an extension that is too long for its buffer is in the way. -/
theorem logs_never_clash (files : List (List UInt8)) (logs : List (List UInt8 × List UInt8)) :
    (∃ paths, openLogs files logs = .ok paths ∧ paths.length = logs.length ∧ paths.Nodup ∧ ∀ p ∈ paths, p ∉ files) ↔
      ∀ log ∈ logs, (extension log.2).length < extSize := by
  induction logs generalizing files with
  | nil => exact iff_of_true ⟨[], rfl, rfl, List.nodup_nil, by simp⟩ (by simp)
  | cons log logs ih =>
    obtain ⟨d, filepath⟩ := log
    rw [List.forall_mem_cons]
    by_cases hext : (extension filepath).length < extSize
    · have hgot : ∃ path, getUniqueFilepath (fun p => p ∈ files) (some d) (files.length + 1) filepath =
          .ok path ∧ path ∉ files := getUniqueFilepath_new d hext (Nat.lt_succ_self _)
      obtain ⟨path, hpath, hnew⟩ := hgot
      rw [← ih (path :: files)]
      have hopen : openLogs files ((d, filepath) :: logs) =
          (openLogs (path :: files) logs).map fun paths => path :: paths := by
        simp only [openLogs, hpath, bind, Except.bind]
        cases openLogs (path :: files) logs <;> rfl
      constructor
      · rintro ⟨paths, hok, hlen, hnodup, hout⟩
        rw [hopen] at hok
        cases hlogs : openLogs (path :: files) logs with
        | error e =>
          rw [hlogs] at hok
          cases hok
        | ok rest =>
          rw [hlogs] at hok
          cases hok
          obtain ⟨hn, hnodup⟩ := List.nodup_cons.mp hnodup
          refine ⟨hext, rest, rfl, Nat.succ.inj hlen, hnodup, fun p hp hm => ?_⟩
          rcases List.mem_cons.mp hm with rfl | hm
          · exact hn hp
          · exact hout p (List.mem_cons_of_mem _ hp) hm
      · rintro ⟨-, rest, hok, hlen, hnodup, hout⟩
        refine ⟨path :: rest, by rw [hopen, hok]; rfl, by simp [hlen], ?_, fun p hp hm => ?_⟩
        · exact List.nodup_cons.mpr ⟨fun hp => hout path hp List.mem_cons_self, hnodup⟩
        · rcases List.mem_cons.mp hp with rfl | hp
          · exact hnew hm
          · exact hout p hp (List.mem_cons_of_mem _ hm)
    · refine iff_of_false ?_ fun h => hext h.1
      rintro ⟨paths, hok, -⟩
      rw [openLogs, getUniqueFilepath_error _ _ _ (not_lt.mp hext)] at hok
      cases hok

/-- A log is put beside the file it is named after, unless the name has no dot and the directory has one. -/
theorem log_stays_in_directory {fileExists : List UInt8 → Bool} {rounds : ℕ} {dir name d path : List UInt8}
    (hn : 47 ∉ name) (hd : 47 ∉ d)
    (h : getUniqueFilepath fileExists (some d) rounds (dir ++ 47 :: name) = .ok path) :
    (∃ file, 47 ∉ file ∧ path = dir ++ 47 :: file) ↔ 46 ∈ name ∨ 46 ∉ dir := by
  obtain ⟨stem, ext, tag, hsplit, htag, rfl⟩ := getUniqueFilepath_form hd h
  by_cases hname : 46 ∈ name
  · obtain ⟨front, back, hback, rfl⟩ := exists_last_dot hname
    have hcut : Cuts.last 46 (dir ++ 47 :: (front ++ 46 :: back)) = some (dir ++ 47 :: front, back) := by
      have happend : Cuts.last 46 (dir ++ 47 :: front ++ 46 :: back) = some (dir ++ 47 :: front, back) :=
        Cuts.last_append hback
      rwa [List.append_assoc] at happend
    obtain ⟨rfl, rfl⟩ := splitExt_of_last hcut hsplit
    refine iff_of_true ⟨front ++ 46 :: tag ++ 46 :: back, ?_, by simp⟩ (.inl hname)
    simp only [List.mem_append, List.mem_cons] at hn ⊢
    tauto
  · by_cases hdir : 46 ∈ dir
    · refine iff_of_false ?_ (by simp [hname, hdir])
      obtain ⟨front, back, hback, rfl⟩ := exists_last_dot hdir
      have hcut : Cuts.last 46 (front ++ 46 :: back ++ 47 :: name) = some (front, back ++ 47 :: name) := by
        rw [List.append_assoc]
        apply Cuts.last_append
        simp [hback, hname]
      obtain ⟨rfl, rfl⟩ := splitExt_of_last hcut hsplit
      rintro ⟨file, hfile, he⟩
      have hleft : Cuts.last 47 (front ++ 46 :: tag ++ 46 :: back ++ 47 :: name) =
          some (front ++ 46 :: tag ++ 46 :: back, name) := Cuts.last_append hn
      have hright : Cuts.last 47 (front ++ 46 :: back ++ 47 :: file) = some (front ++ 46 :: back, file) :=
        Cuts.last_append hfile
      have hsame : front ++ 46 :: tag ++ 46 :: back ++ 47 :: name = front ++ 46 :: back ++ 47 :: file := by
        rw [← he]
        simp
      rw [hsame, hright] at hleft
      have hlen := congrArg List.length (Prod.mk.inj (Option.some.inj hleft)).1
      simp at hlen
      omega
    · have hno : 46 ∉ dir ++ 47 :: name := by simp [hdir, hname]
      rw [splitExt, Cuts.last_eq_none_iff.mpr hno] at hsplit
      cases hsplit
      refine iff_of_true ⟨name ++ 46 :: tag ++ [46], ?_, by simp⟩ (.inr hdir)
      simp only [List.mem_append, List.mem_cons, List.not_mem_nil] at hn ⊢
      rintro ((hm | hm | hm) | hm | hm)
      · exact hn hm
      · cases hm
      · exact htag hm
      · cases hm
      · exact hm

/-- A log called `log` is not put into the directory of the session. -/
theorem log_stays_in_directory_of_log :
    ¬ (∃ file, 47 ∉ file ∧ text ".265.1200./log" = [46] ++ 47 :: file) := by
  have h : getUniqueFilepath (fun _ => false) (some (text "265.1200")) 1 ([46] ++ 47 :: text "log") =
      .ok (text ".265.1200./log") := by decide
  rw [log_stays_in_directory (by decide) (by decide) h]
  decide

end GreenBag
