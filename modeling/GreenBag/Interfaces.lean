import GreenBag.Linked
import GreenBag.Urls

/-! `parse_interfaces`: the words of a value become a circular list of interfaces. -/

namespace GreenBag

open Programs Linked

def isBlank (b : UInt8) : Bool := b = 32 || b = 9

/-- The text of an interface: a word that starts with a digit is an address. Where `get_if_ip` finds
none, the text of the new node stays as it is. -/
def interfaceText (getIfIp : List UInt8 → Option (List UInt8)) (junk word : List UInt8) : List UInt8 :=
  match word with
  | [] => (getIfIp []).getD junk
  | b :: _ => if b < 48 ∨ b > 57 then (getIfIp word).getD junk else word

/-- Free the nodes from a pointer on, up to `interfaces`. -/
def freeOthers (interfaces iface : Option ℕ) : StoreProgram (List UInt8) (Option ℕ ⊕ Unit) := do
  if iface = interfaces then return .inr ()
  let node ← onHeap (load iface)
  free iface
  return .inl node.next

/-- Free the current list, its first node at the end. -/
def freeInterfaces (rounds : ℕ) (interfaces : Option ℕ) : StoreProgram (List UInt8) Unit := do
  let first ← onHeap (load interfaces)
  loop .endless (freeOthers interfaces) rounds first.next
  free interfaces

/-- The second terminator is written behind the first one. -/
def terminateTwice (s : List UInt8) : Option (List UInt8) :=
  match Cuts.first 0 s with
  | some (chars, _ :: more) => some (chars ++ 0 :: 0 :: more)
  | _ => none

/-- The text from `s` on, and the node to fill. -/
structure ParseVars where
  s : List UInt8
  iface : Option ℕ

/-- A round of the loop over the words. -/
def parseWord (getIfIp : List UInt8 → Option (List UInt8)) (junk : List UInt8)
    (interfaces : Option ℕ) (v : ParseVars) : StoreProgram (List UInt8) (ParseVars ⊕ Unit) := do
  let s := v.s.dropWhile isBlank
  let word := s.takeWhile fun b => !isBlank b && b ≠ 0
  let behind ← demand .outOfBounds (s.drop word.length).tail?
  ensure .outOfBounds (word.length < maxString)
  onHeap (storeValue v.iface (interfaceText getIfIp junk word))
  let c ← demand .outOfBounds behind.head?
  if c ≠ 0 then
    let node ← malloc ⟨junk, none⟩
    onHeap (storeNext v.iface node)
    return .inl ⟨behind, node⟩
  else
    onHeap (storeNext v.iface interfaces)
    return .inr ()

/-- The new value of `conf->interfaces`. The bytes from `s` on are those of its buffer, and each loop
takes at most so many rounds. -/
def parseInterfaces (getIfIp : List UInt8 → Option (List UInt8)) (junk : List UInt8) (rounds : ℕ)
    (interfaces : Option ℕ) (s : List UInt8) : StoreProgram (List UInt8) (Option ℕ) := do
  freeInterfaces rounds interfaces
  let c ← demand .outOfBounds s.head?
  if c = 0 then
    let node ← malloc ⟨[], none⟩
    onHeap (storeNext node node)
    return node
  else
    let s ← demand .outOfBounds (terminateTwice s)
    let node ← malloc ⟨junk, none⟩
    loop .endless (parseWord getIfIp junk node) rounds ⟨s, node⟩
    return node

/-- The words of a value, separated by blanks and tabs. -/
def words (value : List UInt8) : List (List UInt8) := (value.splitOnP isBlank).filter (· ≠ [])

/-- The text of the node at an address. -/
def textAt (h : Heap (List UInt8)) (a : ℕ) : Option (List UInt8) := (h a).map Cell.value

section

variable {value rest word : List UInt8} {b : UInt8}

lemma words_blank (hb : isBlank b) : words (b :: rest) = words rest := by
  simp [words, List.splitOnP_cons_eq_if_modifyHead, hb]

lemma words_dropWhile (rest : List UInt8) : words (rest.dropWhile isBlank) = words rest := by
  induction rest with
  | nil => rfl
  | cons b rest ih =>
    by_cases hb : isBlank b
    · rw [List.dropWhile_cons_of_pos hb, ih, words_blank hb]
    · rw [List.dropWhile_cons_of_neg hb]

lemma words_word (hw : ∀ b ∈ word, isBlank b = false) (hne : word ≠ []) : words word = [word] := by
  simp [words, List.splitOnP_eq_singleton hw, hne]

lemma words_append (hw : ∀ b ∈ word, isBlank b = false) (hne : word ≠ []) (hb : isBlank b) :
    words (word ++ b :: rest) = word :: words rest := by
  rw [words, List.splitOnP_append_cons_of_forall_mem hw b hb, List.filter_cons_of_pos (by simpa using hne)]
  rfl

/-- A value is blanks and a word, and behind it there is nothing or a blank and more of the kind. -/
lemma exists_word (hne : rest ≠ []) (hlast : ∀ b, rest.getLast? = some b → isBlank b = false) :
    ∃ blanks word tail, rest = blanks ++ (word ++ tail) ∧ (∀ b ∈ blanks, isBlank b) ∧
      word ≠ [] ∧ (∀ b ∈ word, isBlank b = false) ∧
      (tail = [] ∧ words rest = [word] ∨ ∃ b more, tail = b :: more ∧ isBlank b ∧ more ≠ [] ∧
        (∀ b, more.getLast? = some b → isBlank b = false) ∧ words rest = word :: words more) := by
  obtain ⟨blanks, r, rfl, hblanks, hr⟩ := Cuts.exists_span isBlank rest
  obtain ⟨word, tail, rfl, hword, htail⟩ := Cuts.exists_span (fun b => !isBlank b) r
  have hw : ∀ b ∈ word, isBlank b = false := fun b hb => by simpa using hword b hb
  have hdrop : words (blanks ++ (word ++ tail)) = words (word ++ tail) := by
    rw [← words_dropWhile, Cuts.dropWhile_span hblanks hr]
  have hwne : word ≠ [] := by
    rintro rfl
    cases tail with
    | nil =>
      simp only [List.append_nil] at hne hlast
      obtain ⟨b, hb⟩ := Option.ne_none_iff_exists'.mp (mt List.getLast?_eq_none_iff.mp hne)
      have hnot := hlast b hb
      rw [hblanks b (List.mem_of_getLast? hb)] at hnot
      cases hnot
    | cons b tail =>
      have hb := hr b rfl
      have hb' := htail b rfl
      simp [hb] at hb'
  refine ⟨blanks, word, tail, rfl, hblanks, hwne, hw, ?_⟩
  rw [hdrop]
  cases tail with
  | nil =>
    rw [List.append_nil]
    exact .inl ⟨rfl, words_word hw hwne⟩
  | cons b more =>
    have hb : isBlank b := by simpa using htail b rfl
    have hmore : more ≠ [] := by
      rintro rfl
      have := hlast b (by simp)
      simp [hb] at this
    refine .inr ⟨b, more, rfl, hb, hmore, fun c hc => hlast c ?_, words_append hw hwne hb⟩
    rw [List.append_cons, ← List.append_assoc, ← List.append_assoc,
      List.getLast?_append_of_ne_nil _ hmore, hc]

/-- So many of the nodes behind the first one are still to be freed. -/
structure Freeing (s₀ : Store (List UInt8)) (a : ℕ) (l : List ℕ) (n : ℕ) (iface : Option ℕ)
    (s : Store (List UInt8)) : Prop where
  brk : s.brk = s₀.brk
  lists : ∃ done rest, l = done ++ rest ∧ Path s.heap iface rest (some a) ∧ n = rest.length ∧
    s.freed = done.reverse ++ s₀.freed ∧ (∀ b ∈ done, s.heap b = none) ∧
    ∀ b ∉ done, s.heap b = s₀.heap b

/-- All of them are. -/
structure Freed (s₀ : Store (List UInt8)) (l : List ℕ) (s : Store (List UInt8)) : Prop where
  brk : s.brk = s₀.brk
  freed : s.freed.Perm (l ++ s₀.freed)
  gone : ∀ b ∈ l, s.heap b = none
  kept : ∀ b ∉ l, s.heap b = s₀.heap b

lemma Freeing.wp_freeOthers {s₀ s : Store (List UInt8)} {a n : ℕ} {l : List ℕ} {iface : Option ℕ}
    (hl : (a :: l).Nodup) (h : Freeing s₀ a l n iface s) :
    wp (freeOthers (some a) iface) (Programs.Round (Freeing s₀ a l) (fun _ t => Freed s₀ l t) n)
      (fun _ _ => False) s := by
  obtain ⟨hbrk, done, rest, rfl, hpath, rfl, hfreed, hgone, hkept⟩ := h
  rw [freeOthers, wp_ite]
  cases rest with
  | nil =>
    rw [path_nil] at hpath
    refine ⟨fun _ => ⟨hbrk, ?_, by simpa using hgone, by simpa using hkept⟩, fun hn => absurd hpath hn⟩
    rw [hfreed, List.append_nil]
    exact (List.reverse_perm done).append_right _
  | cons b rest =>
    obtain ⟨rfl, c, hc, hrest⟩ := hpath
    simp only [List.nodup_cons, List.nodup_append, List.mem_append, List.mem_cons] at hl
    obtain ⟨ha, -, ⟨hb, -⟩, hdone⟩ := hl
    refine ⟨fun hn => absurd (.inr (.inl (Option.some.inj hn).symm)) ha, fun _ => ?_⟩
    rw [wp_bind, wp_onHeap, wp_load_some hc, wp_bind, wp_free hc, wp_pure]
    refine ⟨rest.length, by simp, hbrk, done ++ [b], rest, by simp, ?_, rfl, by simp [hfreed], ?_, ?_⟩
    · exact hrest.congr fun d hd => Function.update_of_ne (ne_of_mem_of_not_mem hd hb) _ _
    · intro d hd
      by_cases hdb : d = b
      · subst hdb
        exact Function.update_self _ _ _
      · exact (Function.update_of_ne hdb _ _).trans (hgone d (by simpa [hdb] using hd))
    · intro d hd
      simp only [List.mem_append, List.mem_singleton, not_or] at hd
      exact (Function.update_of_ne hd.2 _ _).trans (hkept d hd.1)

/-- The nodes up to one that is still to be filled hold the first words. -/
structure Filling (address : List UInt8 → List UInt8) (s₀ : Store (List UInt8)) (first cur : ℕ)
    (before : List (List UInt8)) (s : Store (List UInt8)) : Prop where
  bounded : s.Bounded
  freed : s.freed = s₀.freed
  kept : ∀ b < s₀.brk, s.heap b = s₀.heap b
  cell : ∃ c, s.heap cur = some c
  nodes : ∃ nodes, Path s.heap (some first) nodes (some cur) ∧ (nodes ++ [cur]).Nodup ∧
    (∀ b ∈ nodes ++ [cur], s₀.brk ≤ b ∧ b < s.brk) ∧
    nodes.map (textAt s.heap) = before.map fun w => some (address w)

/-- The nodes hold all the words, and the last one is linked to the first. -/
structure Filled (address : List UInt8 → List UInt8) (s₀ : Store (List UInt8)) (first : ℕ)
    (ws : List (List UInt8)) (s : Store (List UInt8)) : Prop where
  freed : s.freed = s₀.freed
  kept : ∀ b < s₀.brk, s.heap b = s₀.heap b
  nodes : ∃ nodes, Circle s.heap (some first) nodes ∧ (∀ b ∈ nodes, s₀.brk ≤ b) ∧
    nodes.map (textAt s.heap) = ws.map fun w => some (address w)

section Node

variable {h : Heap (List UInt8)} {a d : ℕ} {q : Option ℕ} {v : List UInt8} {c : Cell (List UInt8)}

lemma textAt_setNext : textAt (setNext h a q) d = textAt h d := by
  by_cases hda : d = a
  · subst hda
    rw [textAt, textAt, setNext, Function.update_self]
    cases h d <;> rfl
  · rw [textAt, textAt, setNext_of_ne hda]

lemma textAt_setValue (hc : h a = some c) : textAt (setValue h a v) a = some v := by
  rw [textAt, setValue_self hc]
  rfl

lemma textAt_setValue_of_ne (hda : d ≠ a) : textAt (setValue h a v) d = textAt h d := by
  rw [textAt, textAt, setValue_of_ne hda]

lemma textAt_update_of_ne (hda : d ≠ a) : textAt (Function.update h a (some c)) d = textAt h d := by
  rw [textAt, textAt, Function.update_of_ne hda]

end Node

section Fill

variable {address : List UInt8 → List UInt8} {s₀ s : Store (List UInt8)} {first cur : ℕ}
  {before : List (List UInt8)} {w : List UInt8} {nodes : List ℕ}

lemma map_textAt_setValue {c : Cell (List UInt8)} (hc : s.heap cur = some c)
    (hcur : cur ∉ nodes) (htexts : nodes.map (textAt s.heap) = before.map fun w => some (address w)) :
    (nodes ++ [cur]).map (textAt (setValue s.heap cur (address w))) =
      (before ++ [w]).map fun w => some (address w) := by
  rw [List.map_append, List.map_append, ← htexts]
  congr 1
  · exact List.map_congr_left fun d hd => textAt_setValue_of_ne (ne_of_mem_of_not_mem hd hcur)
  · rw [List.map_singleton, List.map_singleton, textAt_setValue hc]

lemma Filling.next (h : Filling address s₀ first cur before s) (junk : List UInt8) :
    Filling address s₀ first s.brk (before ++ [w])
      { s with
        heap := setNext (Function.update (setValue s.heap cur (address w)) s.brk (some ⟨junk, none⟩))
          cur (some s.brk)
        brk := s.brk + 1 } := by
  obtain ⟨hbounded, hfreed, hkept, ⟨c, hc⟩, nodes, hpath, hnodup, hin, htexts⟩ := h
  have hcur : cur ∉ nodes := fun hm => by
    rw [List.nodup_append] at hnodup
    exact hnodup.2.2 cur hm cur (by simp) rfl
  have hfresh : ∀ d ∈ nodes ++ [cur], d ≠ s.brk := fun d hd => (hin d hd).2.ne
  have hcurbrk : cur ≠ s.brk := hfresh cur (by simp)
  have hold : ∀ d, d ≠ s.brk → d ≠ cur →
      setNext (Function.update (setValue s.heap cur (address w)) s.brk (some ⟨junk, none⟩))
        cur (some s.brk) d = s.heap d := fun d hd hd' => by
    rw [setNext_of_ne hd', Function.update_of_ne hd, setValue_of_ne hd']
  refine ⟨fun b hb => ?_, hfreed, fun b hb => ?_, ⟨⟨junk, none⟩, ?_⟩, nodes ++ [cur], ?_, ?_,
    fun d hd => ?_, ?_⟩
  · have hcurlt := (hin cur (by simp)).2
    have hb' : s.brk + 1 ≤ b := hb
    exact (hold b (by omega) (by omega)).trans (hbounded b (by omega))
  · have hcurge := hin cur (by simp)
    exact (hold b (by omega) (by omega)).trans (hkept b hb)
  · exact (setNext_of_ne hcurbrk.symm).trans (Function.update_self _ _ _)
  · refine path_append.mpr ⟨some cur, ?_, rfl, { value := address w, next := some s.brk }, ?_, rfl⟩
    · exact hpath.congr fun d hd =>
        hold d (hfresh d (by simp [hd])) (ne_of_mem_of_not_mem hd hcur)
    · apply setNext_self (c := { value := address w, next := c.next })
      rw [Function.update_of_ne hcurbrk, setValue_self hc]
  · refine List.nodup_append.mpr ⟨hnodup, by simp, fun d hd e he => ?_⟩
    rw [List.mem_singleton.mp he]
    exact hfresh d hd
  · rw [List.mem_append] at hd
    rcases hd with hd | hd
    · exact ⟨(hin d hd).1, Nat.lt_succ_of_lt (hin d hd).2⟩
    · rw [List.mem_singleton.mp hd]
      have hcurin := hin cur (by simp)
      exact ⟨by omega, Nat.lt_succ_self _⟩
  · rw [← map_textAt_setValue hc hcur htexts]
    refine List.map_congr_left fun d hd => ?_
    exact textAt_setNext.trans (textAt_update_of_ne (hfresh d hd))

lemma Filling.last (h : Filling address s₀ first cur before s) :
    Filled address s₀ first (before ++ [w])
      { s with heap := setNext (setValue s.heap cur (address w)) cur (some first) } := by
  obtain ⟨hbounded, hfreed, hkept, ⟨c, hc⟩, nodes, hpath, hnodup, hin, htexts⟩ := h
  have hcur : cur ∉ nodes := fun hm => by
    rw [List.nodup_append] at hnodup
    exact hnodup.2.2 cur hm cur (by simp) rfl
  have hold : ∀ d, d ≠ cur →
      setNext (setValue s.heap cur (address w)) cur (some first) d = s.heap d := fun d hd => by
    rw [setNext_of_ne hd, setValue_of_ne hd]
  refine ⟨hfreed, fun b hb => ?_, nodes ++ [cur], ⟨?_, hnodup, by simp⟩, fun d hd => (hin d hd).1, ?_⟩
  · have hcurge := hin cur (by simp)
    exact (hold b (by omega)).trans (hkept b hb)
  · refine path_append.mpr ⟨some cur, ?_, rfl, { value := address w, next := some first }, ?_, rfl⟩
    · exact hpath.congr fun d hd => hold d (ne_of_mem_of_not_mem hd hcur)
    · exact setNext_self (c := { value := address w, next := c.next }) (setValue_self hc)
  · rw [← map_textAt_setValue hc hcur htexts]
    exact List.map_congr_left fun d _ => textAt_setNext

end Fill

/-- The words before the rest of the value are in nodes. -/
structure Parsing (address : List UInt8 → List UInt8) (s₀ : Store (List UInt8)) (value : List UInt8)
    (first n : ℕ) (v : ParseVars) (s : Store (List UInt8)) : Prop where
  text : ∃ rest more, v.s = rest ++ 0 :: 0 :: more ∧ rest ≠ [] ∧ 0 ∉ rest ∧
    rest.length < maxString ∧ (∀ b, rest.getLast? = some b → isBlank b = false) ∧ n = rest.length ∧
    ∃ before cur, words value = before ++ words rest ∧ v.iface = some cur ∧
      Filling address s₀ first cur before s

lemma Parsing.wp_parseWord {getIfIp : List UInt8 → Option (List UInt8)} {junk : List UInt8}
    {s₀ s : Store (List UInt8)} {first n : ℕ} {v : ParseVars}
    (h : Parsing (interfaceText getIfIp junk) s₀ value first n v s) :
    wp (parseWord getIfIp junk (some first) v)
      (Programs.Round (Parsing (interfaceText getIfIp junk) s₀ value first)
        (fun _ t => Filled (interfaceText getIfIp junk) s₀ first (words value) t) n)
      (fun _ _ => False) s := by
  obtain ⟨rest, more, hs, hne, h0, hlen, hlast, rfl, before, cur, hwords, hcur, hfill⟩ := h
  obtain ⟨blanks, word, tail, rfl, hblanks, hwne, hw, htail⟩ := exists_word hne hlast
  obtain ⟨c, hc⟩ := hfill.cell
  have hdrop : v.s.dropWhile isBlank = word ++ (tail ++ 0 :: 0 :: more) := by
    rw [hs, List.append_assoc, List.append_assoc]
    apply Cuts.dropWhile_span hblanks
    intro b hb
    obtain ⟨d, ds, rfl⟩ := List.exists_cons_of_ne_nil hwne
    cases hb
    exact hw _ List.mem_cons_self
  have hword : (word ++ (tail ++ 0 :: 0 :: more)).takeWhile (fun b => !isBlank b && b ≠ 0) = word := by
    apply Cuts.takeWhile_span
    · intro b hb
      have hb0 : b ≠ 0 := fun he => h0 (by simp [← he, hb])
      simp [hw b hb, hb0]
    · rintro b hb
      rcases htail with ⟨rfl, -⟩ | ⟨d, ds, rfl, hd, -⟩
      · cases hb
        rfl
      · cases hb
        simp [hd]
  simp only [List.length_append] at hlen
  rw [parseWord, hdrop, hword, List.drop_left, hcur]
  rcases htail with ⟨rfl, hrest⟩ | ⟨b, ds, rfl, hb, hds, hdslast, hrest⟩
  · rw [List.nil_append, List.tail?_cons, demand_some, wp_bind, wp_pure, wp_bind, wp_ensure]
    refine ⟨fun _ => ?_, fun hn => absurd (by omega) hn⟩
    rw [wp_bind, wp_onHeap, wp_storeValue hc, wp_bind, List.head?_cons, demand_some, wp_pure, wp_ite]
    refine ⟨fun hn => absurd rfl hn, fun _ => ?_⟩
    rw [wp_bind, wp_onHeap, wp_storeNext (setValue_self hc), wp_pure]
    have hdone := hfill.last (w := word)
    rw [← hrest, ← hwords] at hdone
    exact hdone
  · obtain ⟨d, ds, rfl⟩ := List.exists_cons_of_ne_nil hds
    have hd0 : d ≠ 0 := fun he => h0 (by simp [he])
    rw [List.cons_append, List.tail?_cons, demand_some, wp_bind, wp_pure, wp_bind, wp_ensure]
    refine ⟨fun _ => ?_, fun hn => absurd (by omega) hn⟩
    rw [wp_bind, wp_onHeap, wp_storeValue hc, wp_bind, List.cons_append, List.head?_cons, demand_some,
      wp_pure, wp_ite]
    refine ⟨fun _ => ?_, fun hn => absurd hd0 hn⟩
    obtain ⟨nodes, -, -, hin, -⟩ := hfill.nodes
    have hcurbrk : cur ≠ s.brk := (hin cur (by simp)).2.ne
    rw [wp_bind, wp_malloc, wp_bind, wp_onHeap,
      wp_storeNext ((Function.update_of_ne hcurbrk _ _).trans (setValue_self hc)), wp_pure]
    refine ⟨(d :: ds).length, ?_, d :: ds, more, rfl, hds, fun hm => h0 ?_, ?_, hdslast, rfl,
      before ++ [word], s.brk, ?_, rfl, hfill.next junk⟩
    · simp only [List.length_append, List.length_cons]
      omega
    · exact List.mem_append_right _ (List.mem_append_right _ (List.mem_cons_of_mem _ hm))
    · simp only [List.length_cons] at hlen ⊢
      omega
    · rw [hwords, hrest]
      simp

lemma filling_malloc {address : List UInt8 → List UInt8} {s : Store (List UInt8)} (hs : s.Bounded)
    (c : Cell (List UInt8)) :
    Filling address s s.brk s.brk []
      { s with heap := Function.update s.heap s.brk (some c), brk := s.brk + 1 } := by
  refine ⟨fun d hd => ?_, rfl, fun d hd => Function.update_of_ne hd.ne _ _,
    ⟨c, Function.update_self _ _ _⟩, [], rfl, by simp, fun d hd => ?_, rfl⟩
  · have hd' : s.brk + 1 ≤ d := hd
    exact (Function.update_of_ne (by omega) _ _).trans (hs d (by omega))
  · rw [List.mem_singleton.mp hd]
    exact ⟨le_rfl, Nat.lt_succ_self _⟩

lemma filled_empty {s : Store (List UInt8)} :
    Filled (fun _ => []) s s.brk [[]]
      { s with
        heap := setNext (Function.update s.heap s.brk (some ⟨[], none⟩)) s.brk (some s.brk)
        brk := s.brk + 1 } := by
  have hself : setNext (Function.update s.heap s.brk (some ⟨[], none⟩)) s.brk (some s.brk) s.brk =
      some ⟨[], some s.brk⟩ := setNext_self (Function.update_self _ _ _)
  refine ⟨rfl, fun d hd => ?_, [s.brk], ⟨⟨rfl, _, hself, rfl⟩, by simp, by simp⟩, by simp, ?_⟩
  · exact (setNext_of_ne hd.ne).trans (Function.update_of_ne hd.ne _ _)
  · exact congrArg (fun o => [Option.map Cell.value o]) hself

lemma wp_freeInterfaces {s : Store (List UInt8)} {rounds : ℕ} {interfaces : Option ℕ} {old : List ℕ}
    (hold : Circle s.heap interfaces old) (hr : old.length ≤ rounds) :
    wp (freeInterfaces rounds interfaces) (fun _ t => Freed s old t) (fun _ _ => False) s := by
  obtain ⟨a, l, rfl⟩ := List.exists_cons_of_ne_nil hold.ne_nil
  obtain ⟨rfl, c, hc, hl⟩ := hold.path
  have hloop : wp (loop .endless (freeOthers (some a)) rounds c.next) (fun _ t => Freed s l t)
      (fun _ _ => False) s := by
    apply wp_loop (Freeing s a l) fun n p t ht => ht.wp_freeOthers hold.nodup
    · exact ⟨rfl, [], l, rfl, hl, rfl, rfl, by simp, fun _ _ => rfl⟩
    · exact hr
  rw [freeInterfaces, wp_bind, wp_onHeap, wp_load_some hc, wp_bind]
  apply wp_mono hloop _ fun _ _ hf => hf
  rintro - t ⟨hbrk, hfreed, hgone, hkept⟩
  rw [wp_free ((hkept a (List.nodup_cons.mp hold.nodup).1).trans hc)]
  refine ⟨hbrk, hfreed.cons a, fun b hb => ?_, fun b hb => ?_⟩
  · by_cases hba : b = a
    · subst hba
      exact Function.update_self _ _ _
    · exact (Function.update_of_ne hba _ _).trans (hgone b (by simpa [hba] using hb))
  · rw [List.mem_cons, not_or] at hb
    exact (Function.update_of_ne hb.1 _ _).trans (hkept b hb.2)

lemma Freed.bounded {s t : Store (List UInt8)} {l : List ℕ} (h : Freed s l t) (hs : s.Bounded) :
    t.Bounded := fun d hd => by
  by_cases hm : d ∈ l
  · exact h.gone d hm
  · exact (h.kept d hm).trans (hs d (h.brk ▸ hd))

lemma wp_parseText {getIfIp : List UInt8 → Option (List UInt8)} {junk more : List UInt8} {rounds : ℕ}
    {s : Store (List UInt8)} (hs : s.Bounded) (hne : value ≠ []) (hvalue : 0 ∉ value)
    (hlast : ∀ b, value.getLast? = some b → isBlank b = false) (hroom : value.length < maxString)
    (hr : value.length < rounds) :
    wp (do
      let node ← malloc ⟨junk, none⟩
      loop .endless (parseWord getIfIp junk node) rounds ⟨value ++ 0 :: 0 :: more, node⟩
      return node) (fun q t => ∃ first, q = some first ∧
        Filled (interfaceText getIfIp junk) s first (words value) t) (fun _ _ => False) s := by
  rw [wp_bind, wp_malloc, wp_bind]
  apply wp_mono (wp_loop (Parsing (interfaceText getIfIp junk) s value s.brk)
    (fun n v t ht => ht.wp_parseWord) _ hr) _ fun _ _ hf => hf
  · exact ⟨value, more, rfl, hne, hvalue, hroom, hlast, rfl, [], s.brk, rfl, rfl,
      filling_malloc hs ⟨junk, none⟩⟩
  · rintro - t ht
    exact ⟨s.brk, rfl, ht⟩

/-- The list is freed, and behind it the nodes are filled, or one without a text is made. -/
lemma wp_parseInterfaces {getIfIp : List UInt8 → Option (List UInt8)} {junk : List UInt8}
    {rounds : ℕ} {interfaces : Option ℕ} {s : Store (List UInt8)} {old : List ℕ} {more : List UInt8}
    (hs : s.Bounded) (hold : Circle s.heap interfaces old) (hvalue : 0 ∉ value)
    (hlast : ∀ b, value.getLast? = some b → isBlank b = false) (hroom : value.length + 2 ≤ maxString)
    (hrounds : old.length < rounds) (hrounds' : value.length < rounds) :
    wp (parseInterfaces getIfIp junk rounds interfaces (value ++ 0 :: b :: more))
      (fun q t => ∃ first u, q = some first ∧ Freed s old u ∧
        Filled (if value = [] then fun _ => [] else interfaceText getIfIp junk) u first
          (if value = [] then [[]] else words value) t) (fun _ _ => False) s := by
  rw [parseInterfaces, wp_bind]
  apply wp_mono (wp_freeInterfaces hold hrounds.le) _ fun _ _ hf => hf
  rintro - u hu
  by_cases hnil : value = []
  · subst hnil
    rw [List.nil_append, List.head?_cons, demand_some, wp_bind, wp_pure, wp_ite]
    refine ⟨fun _ => ?_, fun hn => absurd rfl hn⟩
    rw [wp_bind, wp_malloc, wp_bind, wp_onHeap, wp_storeNext (Function.update_self _ _ _), wp_pure]
    exact ⟨u.brk, u, rfl, hu, filled_empty⟩
  · obtain ⟨c, cs, rfl⟩ := List.exists_cons_of_ne_nil hnil
    have hc : c ≠ 0 := fun he => hvalue (by simp [he])
    have htwice : terminateTwice (c :: cs ++ 0 :: b :: more) = some (c :: cs ++ 0 :: 0 :: more) := by
      rw [terminateTwice, Cuts.first_append hvalue]
    rw [List.cons_append, List.head?_cons, demand_some, wp_bind, wp_pure, wp_ite]
    refine ⟨fun hn => absurd hn hc, fun _ => ?_⟩
    rw [← List.cons_append, htwice, demand_some, wp_bind, wp_pure]
    apply wp_mono (wp_parseText (hu.bounded hs) hnil hvalue hlast (by omega) hrounds') _ fun _ _ hf => hf
    rintro q t ⟨first, rfl, ht⟩
    refine ⟨first, u, rfl, hu, ?_⟩
    rwa [if_neg hnil, if_neg hnil]

/-- The texts of the new list. -/
def interfaceTexts (getIfIp : List UInt8 → Option (List UInt8)) (junk value : List UInt8) :
    List (List UInt8) :=
  if value = [] then [[]] else (words value).map (interfaceText getIfIp junk)

lemma Filled.texts {getIfIp : List UInt8 → Option (List UInt8)} {junk : List UInt8}
    {u t : Store (List UInt8)} {first : ℕ}
    (h : Filled (if value = [] then fun _ => [] else interfaceText getIfIp junk) u first
      (if value = [] then [[]] else words value) t) :
    ∃ nodes, Circle t.heap (some first) nodes ∧
      nodes.map (textAt t.heap) = (interfaceTexts getIfIp junk value).map some := by
  obtain ⟨-, -, nodes, hcircle, -, htexts⟩ := h
  refine ⟨nodes, hcircle, ?_⟩
  rw [htexts, interfaceTexts]
  split_ifs <;> simp

/-- The nodes of the old list are freed once each, and the new list is a circle of the words of the
value in their order, or an empty node where there are none. -/
theorem parseInterfaces_words {getIfIp : List UInt8 → Option (List UInt8)} {junk : List UInt8}
    {rounds : ℕ} {interfaces : Option ℕ} {s : Store (List UInt8)} {old : List ℕ} {more : List UInt8}
    (hs : s.Bounded) (hold : Circle s.heap interfaces old) (hvalue : 0 ∉ value)
    (hlast : ∀ b, value.getLast? = some b → isBlank b = false) (hroom : value.length + 2 ≤ maxString)
    (hrounds : old.length < rounds) (hrounds' : value.length < rounds) :
    ∃ q t nodes, parseInterfaces getIfIp junk rounds interfaces (value ++ 0 :: b :: more) s = .ok q t ∧
      t.freed.Perm (old ++ s.freed) ∧ (∀ a ∈ old, t.heap a = none) ∧
      (∀ a < s.brk, a ∉ old → t.heap a = s.heap a) ∧ Circle t.heap q nodes ∧
      nodes.map (textAt t.heap) = if value = [] then [some []]
        else (words value).map fun w => some (interfaceText getIfIp junk w) := by
  have hbound : ∀ d ∈ old, d < s.brk := fun d hd => by
    by_contra hn
    obtain ⟨e, he⟩ := hold.path.cell hd
    rw [hs d (by omega)] at he
    cases he
  obtain ⟨q, t, hq, first, u, rfl, hu, hfreed, hkept, nodes, hcircle, -, htexts⟩ :=
    exists_of_wp (wp_parseInterfaces hs hold hvalue hlast hroom hrounds hrounds')
  refine ⟨some first, t, nodes, hq, hfreed ▸ hu.freed, fun a ha => ?_, fun a ha hn => ?_, hcircle, ?_⟩
  · exact (hkept a (hu.brk ▸ hbound a ha)).trans (hu.gone a ha)
  · exact (hkept a (hu.brk ▸ ha)).trans (hu.kept a hn)
  · rw [htexts]
    split_ifs <;> rfl

end

/-- Two interfaces without a text. -/
def twoInterfaces : Store (List UInt8) where
  heap := fun
    | 0 => some ⟨[], some 1⟩
    | 1 => some ⟨[], some 0⟩
    | _ => none
  brk := 2
  freed := []

/-- The value is `lo`, a tab, a blank and `10`. -/
theorem parseInterfaces_words_of_two : ∃ q t nodes,
    parseInterfaces (fun _ => some [49, 50, 55]) [] 7 (some 0)
      ([108, 111, 9, 32, 49, 48] ++ 0 :: 88 :: []) twoInterfaces = .ok q t ∧
      t.freed.Perm [0, 1] ∧ (∀ a ∈ [0, 1], t.heap a = none) ∧
      (∀ a < 2, a ∉ [0, 1] → t.heap a = twoInterfaces.heap a) ∧ Circle t.heap q nodes ∧
      nodes.map (textAt t.heap) = [some [49, 50, 55], some [49, 48]] := by
  have hbounded : twoInterfaces.Bounded := fun a ha => by
    have ha' : 2 ≤ a := ha
    match a, ha' with
    | a + 2, _ => rfl
  have hold : Circle twoInterfaces.heap (some 0) [0, 1] :=
    ⟨⟨rfl, _, rfl, rfl, _, rfl, rfl⟩, by decide, by decide⟩
  have hwords : words [108, 111, 9, 32, 49, 48] = [[108, 111], [49, 48]] := by decide
  obtain ⟨q, t, nodes, hq, hfreed, hgone, hkept, hcircle, htexts⟩ :=
    @parseInterfaces_words [108, 111, 9, 32, 49, 48] 88 (fun _ => some [49, 50, 55]) [] 7 (some 0)
      twoInterfaces [0, 1] [] hbounded hold (by decide) (fun b hb => by cases hb; rfl) (by decide)
      (by decide) (by decide)
  refine ⟨q, t, nodes, hq, hfreed, hgone, hkept, hcircle, ?_⟩
  rw [htexts, if_neg (by decide), hwords]
  rfl

end GreenBag
