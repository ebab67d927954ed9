import GreenBag.Interfaces

/-! `conf_loadfile`: the options a configuration file sets, line by line. -/

namespace GreenBag

open Programs Linked

inductive NumberOption
  | stripCgiParameters
  | connectionTimeout
  | reconnectDelay
  | numConnections
  | bufferSize
  | verbose
  | alternateOutput
  | searchTimeout
  | searchThreads
  | searchAmount
  | searchTop
  | addHeaderCount
  deriving DecidableEq, Repr

def NumberOption.name : NumberOption → List UInt8
  | stripCgiParameters => text "strip_cgi_parameters"
  | connectionTimeout => text "connection_timeout"
  | reconnectDelay => text "reconnect_delay"
  | numConnections => text "num_connections"
  | bufferSize => text "buffer_size"
  | verbose => text "verbose"
  | alternateOutput => text "alternate_output"
  | searchTimeout => text "search_timeout"
  | searchThreads => text "search_threads"
  | searchAmount => text "search_amount"
  | searchTop => text "search_top"
  | addHeaderCount => text "add_header_count"

/-- The part of a `conf_t` that `conf_loadfile` can change; `interfaces` are the texts of the circle. -/
structure Options where
  defaultFilename : List UInt8
  number : NumberOption → ℤ
  interfaces : List (List UInt8)
  addHeader : ℕ → List UInt8
  userAgent : List UInt8

/-- The part of a line that is kept; `fscanf` skips the rest. -/
def confText (line : List UInt8) : List UInt8 :=
  ((line.takeWhile (· ≠ 35)).take 100).takeWhile (· ≠ 0)

/-- The conversion `%[^= \t]`: where it matches nothing, `key` stays what it was. -/
def readKey (key s : List UInt8) : List UInt8 :=
  match s.takeWhile (fun b => b ≠ 61 && b ≠ 32 && b ≠ 9) with
  | [] => key
  | b :: bs => b :: bs

def readValue (s : List UInt8) : List UInt8 := ((Cuts.first 61 s).elim [] Prod.snd).dropWhile isSpace

/-- The loop that trims `value`; nothing where it goes on before the first character. -/
def trimEnd (value : List UInt8) : Option (List UInt8) :=
  if value.all isSpace then none else some (value.reverse.dropWhile isSpace).reverse

/-- `get_config_string`, with the new value of `conf` and `st`. -/
def getConfigString (name key : List UInt8) (set : Options → Options) (c : Options × Bool) :
    Options × Bool :=
  if key = name then (set c.1, true) else c

/-- `get_config_number`; nothing where the number is no `int`. -/
def getConfigNumber (name : NumberOption) (key value : List UInt8) (c : Options × Bool) :
    Option (Options × Bool) :=
  if key = name.name then
    match scanInt value with
    | none => some (c.1, true)
    | some n =>
      if FitsInt n then some ({ c.1 with number := Function.update c.1.number name n }, true) else none
  else some c

def getConfigNumbers (key value : List UInt8) : List NumberOption → Options × Bool → Option (Options × Bool)
  | [], c => some c
  | name :: names, c => (getConfigNumber name key value c).bind (getConfigNumbers key value names)

/-- The numbers in front of the test for unknown keys. -/
def earlyNumbers : List NumberOption :=
  [.stripCgiParameters, .connectionTimeout, .reconnectDelay, .numConnections, .bufferSize, .verbose,
    .alternateOutput, .searchTimeout, .searchThreads, .searchAmount, .searchTop]

section

variable (getIfIp : List UInt8 → Option (List UInt8)) (junk : List UInt8)

/-- The options in front of the test, with `st`. -/
def getEarlyOptions (key value : List UInt8) (conf : Options) : Option (Options × Bool) := do
  let c := getConfigString (text "default_filename") key (fun conf => { conf with
    defaultFilename := value }) (conf, false)
  let c ← getConfigNumbers key value earlyNumbers c
  let c := if key = text "speed_type" then (c.1, true) else c
  return if key = text "interfaces" then
    ({ c.1 with interfaces := interfaceTexts getIfIp junk value }, true) else c

/-- The loop over the headers; its `get_config_string` compares with the name `add_header[i]`. -/
def getHeaders (key value : List UInt8) : ℕ → Options × Bool → Options × Bool
  | 0, c => c
  | n + 1, c => getConfigString (text "add_header[i]") key (fun conf => { conf with
      addHeader := Function.update conf.addHeader n value }) (getHeaders key value n c)

/-- The options behind the test. -/
def getLateOptions (key value : List UInt8) (conf : Options) : Option Options := do
  let c ← getConfigNumber .addHeaderCount key value (conf, true)
  let c := getHeaders key value (c.1.number .addHeaderCount).toNat c
  return (getConfigString (text "user_agent") key (fun conf => { conf with userAgent := value }) c).1

/-- What follows once the key and the value are read: the key, the new options, and false for an
unknown key. -/
def setOption (key value : List UInt8) (conf : Options) : Option (List UInt8 × Options × Bool) := do
  let (conf, st) ← getEarlyOptions getIfIp junk key value conf
  if st then do
    let conf ← getLateOptions key value conf
    return (key, conf, true)
  else return (key, conf, false)

/-- A round of the loop, with what is in `key`. -/
def loadLine (key : List UInt8) (conf : Options) (line : List UInt8) :
    Option (List UInt8 × Options × Bool) :=
  let s := confText line
  if 61 ∈ s then (trimEnd (readValue s)).bind fun value => setOption getIfIp junk (readKey key s) value conf
  else some (key, conf, true)

def loadLines (key : List UInt8) (conf : Options) :
    List (List UInt8) → Option (List UInt8 × Options × Bool)
  | [] => some (key, conf, true)
  | line :: rest => do
    let (key, conf, st) ← loadLine getIfIp junk key conf line
    if st then loadLines key conf rest else return (key, conf, false)

/-- The options and the result, 1 or 0. The file may be missing; `key` is what is in the buffer at
first. The last line read ends with the file. -/
def confLoadfile (key : List UInt8) (conf : Options) (file : Option (List UInt8)) : Option (Options × Bool) :=
  match file with
  | none => some (conf, true)
  | some file => (loadLines getIfIp junk key conf (file.splitOn 10)).map Prod.snd

end

/-- The keys that there is code for. -/
inductive OptionKey
  | defaultFilename
  | number (n : NumberOption)
  | speedType
  | interfaces
  | userAgent
  deriving DecidableEq, Repr

def OptionKey.name : OptionKey → List UInt8
  | defaultFilename => text "default_filename"
  | number n => n.name
  | speedType => text "speed_type"
  | interfaces => text "interfaces"
  | userAgent => text "user_agent"

def OptionKey.all : List OptionKey :=
  [.defaultFilename, .number .stripCgiParameters, .number .connectionTimeout, .number .reconnectDelay,
    .number .numConnections, .number .bufferSize, .number .verbose, .number .alternateOutput,
    .number .searchTimeout, .number .searchThreads, .number .searchAmount, .number .searchTop,
    .number .addHeaderCount, .speedType, .interfaces, .userAgent]

def Known (key : List UInt8) : Prop := ∃ k : OptionKey, k.name = key

/-- The keys whose code is in front of the test for unknown keys. -/
def OptionKey.Early (k : OptionKey) : Prop := k ≠ .number .addHeaderCount ∧ k ≠ .userAgent

instance (k : OptionKey) : Decidable k.Early := inferInstanceAs (Decidable (_ ∧ _))

def isWhite (b : UInt8) : Bool := isSpace b && b ≠ 10

def Comment (s : List UInt8) : Prop := s = [] ∨ s.head? = some 35 ∧ 10 ∉ s

/-- A line `key = value`, with what may stand around the parts. -/
structure OptionLine where
  lead : List UInt8
  key : List UInt8
  gap : List UInt8
  margin : List UInt8
  value : List UInt8
  tail : List UInt8
  comment : List UInt8
  lead_blank : ∀ b ∈ lead, isBlank b
  key_ne : key ≠ []
  key_plain : ∀ b ∈ key, b ∉ [0, 9, 10, 32, 35, (61 : UInt8)]
  gap_blank : ∀ b ∈ gap, isBlank b
  margin_white : ∀ b ∈ margin, isWhite b
  value_ne : value ≠ []
  value_plain : ∀ b ∈ value, b ∉ [0, 10, (35 : UInt8)]
  value_head : ∀ b, value.head? = some b → isSpace b = false
  value_last : ∀ b, value.getLast? = some b → isSpace b = false
  tail_white : ∀ b ∈ tail, isWhite b
  comment_form : Comment comment
  short : (lead ++ (key ++ (gap ++ 61 :: (margin ++ (value ++ tail))))).length ≤ 100

/-- The part of the line in front of a comment. -/
def OptionLine.setting (l : OptionLine) : List UInt8 :=
  l.lead ++ (l.key ++ (l.gap ++ 61 :: (l.margin ++ (l.value ++ l.tail))))

structure EmptyLine where
  blanks : List UInt8
  comment : List UInt8
  blanks_white : ∀ b ∈ blanks, isWhite b
  comment_form : Comment comment

inductive ConfLine
  | empty (l : EmptyLine)
  | option (l : OptionLine)

def ConfLine.text : ConfLine → List UInt8
  | empty l => l.blanks ++ l.comment
  | option l => l.setting ++ l.comment

def ConfLine.entry : ConfLine → Option OptionLine
  | empty _ => none
  | option l => some l

/-- A file of lines. Where the last one is empty, the file ends with a newline. -/
def fileOf (ls : List ConfLine) : List UInt8 := [10].intercalate (ls.map ConfLine.text)

/-- The value of the last line with a key. -/
def lastValue (ls : List ConfLine) (k : OptionKey) : Option (List UInt8) :=
  (((ls.filterMap ConfLine.entry).filter (·.key = k.name)).getLast?).map OptionLine.value

section

variable (getIfIp : List UInt8 → Option (List UInt8)) (junk : List UInt8)

/-- Each field that a key names has the value of that key, and the others are what they were. -/
structure Configured (value : OptionKey → Option (List UInt8)) (conf conf' : Options) : Prop where
  defaultFilename : conf'.defaultFilename = (value .defaultFilename).getD conf.defaultFilename
  number : ∀ n v, value (.number n) = some v → scanInt v = some (conf'.number n)
  otherNumber : ∀ n, value (.number n) = none → conf'.number n = conf.number n
  interfaces : conf'.interfaces = ((value .interfaces).map fun v =>
    (words v).map (interfaceText getIfIp junk)).getD conf.interfaces
  addHeader : conf'.addHeader = conf.addHeader
  userAgent : conf'.userAgent = (value .userAgent).getD conf.userAgent

/-- From what is in the buffer, a line has its own effect: it sets the field it names, or it ends the
function where its key is unknown. -/
structure LineRight (key : List UInt8) (l : OptionLine) : Prop where
  known : Known l.key → ∀ conf, ∃ key' conf',
    loadLine getIfIp junk key conf (ConfLine.option l).text = some (key', conf', true) ∧
      Configured getIfIp junk (lastValue [.option l]) conf conf'
  unknown : ¬ Known l.key → ∀ conf, ∃ key' conf',
    loadLine getIfIp junk key conf (ConfLine.option l).text = some (key', conf', false)

/-- Each line that is reached has its own effect, whatever the lines in front of it are. -/
def EachRight (key : List UInt8) (ls : List ConfLine) : Prop :=
  ∀ pre l post, ls = pre ++ .option l :: post → ∀ conf key' conf',
    loadLines getIfIp junk key conf (pre.map ConfLine.text) = some (key', conf', true) →
      LineRight getIfIp junk key' l

/-- What a configuration file means. -/
structure ConfRight (ls : List ConfLine) : Prop where
  known : (∀ l, .option l ∈ ls → Known l.key) → ∀ key conf, ∃ conf',
    confLoadfile getIfIp junk key conf (some (fileOf ls)) = some (conf', true) ∧
      Configured getIfIp junk (lastValue ls) conf conf'
  unknown : ∀ l, .option l ∈ ls → ¬ Known l.key → ∀ key conf, ∃ conf',
    confLoadfile getIfIp junk key conf (some (fileOf ls)) = some (conf', false)
  each : ∀ key, EachRight getIfIp junk key ls

end

/-- The code for the key comes in time, and a number is an `int`. -/
def Settable (l : OptionLine) : Prop :=
  ∀ k : OptionKey, k.name = l.key → k.Early ∧ ∀ n, k = .number n → ∃ m, scanInt l.value = some m ∧ FitsInt m

/-- The key that a file has put into the buffer is the key of the line, or the two do nothing alike. -/
def Buffered (held : Option (List UInt8)) (l : OptionLine) : Prop :=
  l.lead = [] ∨ held = some l.key ∨
    l.key = OptionKey.speedType.name ∧ scanInt l.value = none ∧
      ∃ n : NumberOption, n ≠ .addHeaderCount ∧ held = some n.name

/-- The key in the buffer is the one of the last line that starts with its key. -/
def heldAfter (held : Option (List UInt8)) (l : OptionLine) : Option (List UInt8) :=
  if l.lead = [] then some l.key else held

/-- Up to the first unknown key, each line can be set, and starts with its key or finds it in the
buffer. -/
def SafeLines : Option (List UInt8) → List ConfLine → Prop
  | _, [] => True
  | held, .empty _ :: ls => SafeLines held ls
  | held, .option l :: ls =>
    Settable l ∧ Buffered held l ∧ (Known l.key → SafeLines (heldAfter held l) ls)

section

variable (getIfIp : List UInt8 → Option (List UInt8)) (junk : List UInt8)

/-- Options that differ from all that a value sets. -/
def otherOptions (value : List UInt8) : Options where
  defaultFilename := 0 :: value
  number := fun _ => (scanInt value).getD 0 + 1
  interfaces := [] :: [] :: (words value).map (interfaceText getIfIp junk)
  addHeader := fun _ => []
  userAgent := 0 :: value

/-- What the code for a key does with a value. -/
def OptionKey.put (k : OptionKey) (value : List UInt8) (conf : Options) : Option Options :=
  match k with
  | defaultFilename => some { conf with defaultFilename := value }
  | number n => match scanInt value with
    | none => some conf
    | some m => if FitsInt m then some { conf with number := Function.update conf.number n m } else none
  | speedType => some conf
  | interfaces => some { conf with interfaces := interfaceTexts getIfIp junk value }
  | userAgent => some { conf with userAgent := value }

end

/-- All fields but the one of a key are what they were. -/
structure OptionKey.Leaves (k : OptionKey) (conf conf' : Options) : Prop where
  defaultFilename : k ≠ .defaultFilename → conf'.defaultFilename = conf.defaultFilename
  number : ∀ n, k ≠ .number n → conf'.number n = conf.number n
  interfaces : k ≠ .interfaces → conf'.interfaces = conf.interfaces
  addHeader : conf'.addHeader = conf.addHeader
  userAgent : k ≠ .userAgent → conf'.userAgent = conf.userAgent

section Line

variable {b : UInt8} {l : OptionLine}

lemma isWhite_of_isBlank (h : isBlank b) : isWhite b := by
  have hb : b = 32 ∨ b = 9 := by simpa [isBlank] using h
  rcases hb with rfl | rfl <;> rfl

lemma isWhite_plain (h : isWhite b) : b ∉ [0, 10, 35, (61 : UInt8)] := by
  intro hm
  simp only [List.mem_cons, List.not_mem_nil, or_false] at hm
  rcases hm with rfl | rfl | rfl | rfl <;> cases h

lemma isSpace_of_isWhite (h : isWhite b) : isSpace b := (Bool.and_eq_true_iff.mp h).1

lemma OptionLine.setting_plain (l : OptionLine) : ∀ b ∈ l.setting, b ∉ [0, 10, (35 : UInt8)] := by
  have hsub : [0, 10, (35 : UInt8)] ⊆ [0, 10, 35, 61] := by simp
  have hsub' : [0, 10, (35 : UInt8)] ⊆ [0, 9, 10, 32, 35, 61] := by simp
  have hwhite : ∀ b, isWhite b → b ∉ [0, 10, (35 : UInt8)] := fun b hb hm => isWhite_plain hb (hsub hm)
  have hkey : ∀ b ∈ l.key, b ∉ [0, 10, (35 : UInt8)] := fun b hb hm => l.key_plain b hb (hsub' hm)
  simp only [OptionLine.setting, List.forall_mem_append, List.forall_mem_cons]
  exact ⟨fun b hb => hwhite b (isWhite_of_isBlank (l.lead_blank b hb)), hkey,
    fun b hb => hwhite b (isWhite_of_isBlank (l.gap_blank b hb)), by decide,
    fun b hb => hwhite b (l.margin_white b hb), l.value_plain, fun b hb => hwhite b (l.tail_white b hb)⟩

lemma takeWhile_comment {xs cs : List UInt8} (hxs : 35 ∉ xs) (hcs : Comment cs) :
    (xs ++ cs).takeWhile (· ≠ 35) = xs := by
  apply Cuts.takeWhile_span
  · intro b hb
    exact decide_eq_true fun he => hxs (he ▸ hb)
  · intro b hb
    rcases hcs with rfl | ⟨hs, -⟩
    · cases hb
    · rw [hs] at hb
      cases hb
      rfl

lemma confText_option (l : OptionLine) : confText (ConfLine.option l).text = l.setting := by
  have hshort : l.setting.length ≤ 100 := l.short
  rw [confText, ConfLine.text, takeWhile_comment (fun hm => l.setting_plain 35 hm (by decide)) l.comment_form,
    List.take_of_length_le hshort, List.takeWhile_eq_self_iff]
  intro b hb
  exact decide_eq_true fun he => l.setting_plain b hb (by simp [he])

lemma readKey_option (key : List UInt8) (l : OptionLine) :
    readKey key l.setting = if l.lead = [] then l.key else key := by
  split_ifs with hlead
  · have hword : l.setting.takeWhile (fun b => b ≠ 61 && b ≠ 32 && b ≠ 9) = l.key := by
      rw [OptionLine.setting, hlead, List.nil_append]
      apply Cuts.takeWhile_span
      · intro b hb
        have hplain := l.key_plain b hb
        simp only [List.mem_cons, not_or] at hplain
        simp [hplain]
      · intro b hb
        cases hgap : l.gap with
        | nil =>
          rw [hgap] at hb
          cases hb
          rfl
        | cons c gap =>
          have hc := l.gap_blank c (by simp [hgap])
          rw [hgap] at hb
          cases hb
          simp only [isBlank, Bool.or_eq_true, decide_eq_true_eq] at hc
          rcases hc with rfl | rfl <;> rfl
    rw [readKey, hword]
    cases hkey : l.key with
    | nil => exact absurd hkey l.key_ne
    | cons b bs => rfl
  · obtain ⟨c, lead, hc⟩ := List.exists_cons_of_ne_nil hlead
    have hblank := l.lead_blank c (by simp [hc])
    simp only [isBlank, Bool.or_eq_true, decide_eq_true_eq] at hblank
    rw [readKey, OptionLine.setting, hc, List.cons_append, List.takeWhile_cons_of_neg]
    rcases hblank with rfl | rfl <;> simp

/-- The value is what stands behind the first `=`, without the blanks around it. -/
lemma trimEnd_option (l : OptionLine) : trimEnd (readValue l.setting) = some l.value := by
  have hcut : Cuts.first 61 l.setting = some (l.lead ++ (l.key ++ l.gap), l.margin ++ (l.value ++ l.tail)) := by
    rw [OptionLine.setting, ← List.append_assoc l.key, ← List.append_assoc l.lead]
    apply Cuts.first_append
    simp only [List.mem_append, not_or]
    exact ⟨fun hm => isWhite_plain (isWhite_of_isBlank (l.lead_blank _ hm)) (by decide),
      fun hm => l.key_plain _ hm (by decide),
      fun hm => isWhite_plain (isWhite_of_isBlank (l.gap_blank _ hm)) (by decide)⟩
  have hread : readValue l.setting = l.value ++ l.tail := by
    rw [readValue, hcut]
    apply Cuts.dropWhile_span fun b hb => isSpace_of_isWhite (l.margin_white b hb)
    intro b hb
    rw [List.head?_append_of_ne_nil _ l.value_ne] at hb
    exact l.value_head b hb
  obtain ⟨b, hb⟩ := Option.ne_none_iff_exists'.mp (mt List.getLast?_eq_none_iff.mp l.value_ne)
  have hlast := l.value_last b hb
  rw [hread, trimEnd, if_neg]
  · rw [List.reverse_append, Cuts.dropWhile_span, List.reverse_reverse]
    · exact fun c hc => isSpace_of_isWhite (l.tail_white c (List.mem_reverse.mp hc))
    · intro c hc
      rw [List.head?_reverse] at hc
      exact l.value_last c hc
  · rw [List.all_append, Bool.and_eq_true, List.all_eq_true]
    rintro ⟨hall, -⟩
    rw [hall b (List.mem_of_getLast? hb)] at hlast
    cases hlast

end Line

section Load

variable {getIfIp : List UInt8 → Option (List UInt8)} {junk key key' value : List UInt8}
  {conf conf' : Options} {st : Bool} {l : OptionLine}

lemma loadLine_option (key : List UInt8) (conf : Options) (l : OptionLine) :
    loadLine getIfIp junk key conf (ConfLine.option l).text =
      setOption getIfIp junk (if l.lead = [] then l.key else key) l.value conf := by
  rw [loadLine, confText_option, if_pos, trimEnd_option, Option.bind_some, readKey_option]
  simp [OptionLine.setting]

lemma loadLine_empty (key : List UInt8) (conf : Options) (l : EmptyLine) :
    loadLine getIfIp junk key conf (ConfLine.empty l).text = some (key, conf, true) := by
  rw [loadLine, if_neg]
  intro hm
  have hblanks : (61 : UInt8) ∈ l.blanks := by
    have hsub := List.mem_of_mem_take ((List.takeWhile_sublist _).subset hm)
    rwa [ConfLine.text, takeWhile_comment _ l.comment_form] at hsub
    exact fun h35 => isWhite_plain (l.blanks_white _ h35) (by decide)
  exact isWhite_plain (l.blanks_white _ hblanks) (by decide)

lemma OptionKey.mem_all (k : OptionKey) : k ∈ OptionKey.all := by
  cases k with
  | number n => cases n <;> decide
  | _ => decide

/-- The names differ from each other, and from the one that stands in the loop over the headers. -/
lemma OptionKey.names_nodup : (text "add_header[i]" :: OptionKey.all.map OptionKey.name).Nodup := by
  decide +kernel

lemma OptionKey.name_injective : Function.Injective OptionKey.name := fun k k' h =>
  List.inj_on_of_nodup_map (List.nodup_cons.mp OptionKey.names_nodup).2 k.mem_all k'.mem_all h

lemma OptionKey.name_ne_header (k : OptionKey) : k.name ≠ text "add_header[i]" := fun he =>
  (List.nodup_cons.mp OptionKey.names_nodup).1 (he ▸ List.mem_map_of_mem k.mem_all)

lemma NumberOption.name_ne {n m : NumberOption} (h : n ≠ m) : n.name ≠ m.name := fun he =>
  h (OptionKey.number.inj (OptionKey.name_injective he))

lemma getConfigNumbers_other {names : List NumberOption} (h : ∀ n ∈ names, key ≠ n.name) (c : Options × Bool) :
    getConfigNumbers key value names c = some c := by
  induction names with
  | nil => rfl
  | cons n names ih =>
    rw [getConfigNumbers, getConfigNumber, if_neg (h n List.mem_cons_self), Option.bind_some,
      ih fun m hm => h m (List.mem_cons_of_mem _ hm)]

lemma getConfigNumbers_of_mem {names : List NumberOption} {n : NumberOption} (hn : n ∈ names)
    (hnames : names.Nodup) (c : Options × Bool) :
    getConfigNumbers n.name value names c = getConfigNumber n n.name value c := by
  induction names with
  | nil => cases hn
  | cons m names ih =>
    rw [List.nodup_cons] at hnames
    by_cases hmn : n = m
    · subst hmn
      have hrest : getConfigNumbers n.name value names = some := funext fun c =>
        getConfigNumbers_other (fun m hm he => NumberOption.name_ne (ne_of_mem_of_not_mem hm hnames.1).symm he) c
      rw [getConfigNumbers, hrest, Option.bind_fun_some]
    · rw [getConfigNumbers, getConfigNumber, if_neg (NumberOption.name_ne hmn),
        Option.bind_some, ih ((List.mem_cons.mp hn).resolve_left hmn) hnames.2]

lemma mem_earlyNumbers {n : NumberOption} (h : n ≠ .addHeaderCount) : n ∈ earlyNumbers := by
  cases n <;> first | exact absurd rfl h | decide

lemma earlyNumbers_early {n : NumberOption} (h : n ∈ earlyNumbers) : (OptionKey.number n).Early := by
  refine ⟨fun he => ?_, by simp⟩
  obtain rfl := OptionKey.number.inj he
  revert h
  decide

lemma getHeaders_other (h : key ≠ text "add_header[i]") (n : ℕ) (c : Options × Bool) :
    getHeaders key value n c = c := by
  induction n with
  | zero => rfl
  | succ n ih => rw [getHeaders, getConfigString, if_neg h, ih]

lemma getLateOptions_early {k : OptionKey} (hk : k.Early) :
    getLateOptions k.name value conf = some conf := by
  have hcount : k.name ≠ NumberOption.addHeaderCount.name := fun he => hk.1 (OptionKey.name_injective he)
  have hagent : k.name ≠ text "user_agent" := fun he =>
    hk.2 (OptionKey.name_injective (he.trans (rfl : _ = OptionKey.userAgent.name)))
  simp [getLateOptions, getConfigNumber, hcount, getHeaders_other k.name_ne_header, getConfigString, hagent]

lemma getEarlyOptions_early {k : OptionKey} (hk : k.Early) : getEarlyOptions getIfIp junk k.name value conf =
    (k.put getIfIp junk value conf).map fun conf' => (conf', true) := by
  have hne : ∀ k' : OptionKey, k ≠ k' → k.name ≠ k'.name := fun k' h he => h (OptionKey.name_injective he)
  have hother : (∀ n, k ≠ .number n) → ∀ c : Options × Bool,
      getConfigNumbers k.name value earlyNumbers c = some c := fun h c =>
    getConfigNumbers_other (fun n _ => hne (.number n) (h n)) c
  have hfile : k ≠ .defaultFilename → k.name ≠ text "default_filename" := hne .defaultFilename
  have hspeed : k ≠ .speedType → k.name ≠ text "speed_type" := hne .speedType
  have hfaces : k ≠ .interfaces → k.name ≠ text "interfaces" := hne .interfaces
  rw [getEarlyOptions, getConfigString]
  cases k with
  | userAgent => exact absurd rfl hk.2
  | defaultFilename =>
    have hname : OptionKey.defaultFilename.name = text "default_filename" := rfl
    rw [if_pos hname, hother (by simp)]
    simp [hspeed (by simp), hfaces (by simp), OptionKey.put]
  | speedType =>
    have hname : (OptionKey.speedType.name = text "speed_type") = True := eq_true rfl
    rw [if_neg (hfile (by simp)), hother (by simp)]
    simp only [Option.bind_eq_bind, Option.bind_some, hname, if_true, if_neg (hfaces (by simp))]
    rfl
  | interfaces =>
    have hname : (OptionKey.interfaces.name = text "interfaces") = True := eq_true rfl
    rw [if_neg (hfile (by simp)), hother (by simp)]
    simp only [Option.bind_eq_bind, Option.bind_some, hname, if_true, if_neg (hspeed (by simp))]
    rfl
  | number n =>
    have hn : n ∈ earlyNumbers := mem_earlyNumbers fun he => hk.1 (by rw [he])
    have hnumber : ∀ c : Options × Bool, getConfigNumbers (OptionKey.number n).name value earlyNumbers c =
        getConfigNumber n n.name value c := getConfigNumbers_of_mem hn (by decide)
    rw [if_neg (hfile (by simp)), hnumber, getConfigNumber, if_pos rfl, OptionKey.put]
    cases scanInt value with
    | none => simp [hspeed (by simp), hfaces (by simp)]
    | some m => by_cases hm : FitsInt m <;> simp [hm, hspeed (by simp), hfaces (by simp)]

lemma getEarlyOptions_refused (h : ∀ k : OptionKey, k.Early → k.name ≠ key) :
    getEarlyOptions getIfIp junk key value conf = some (conf, false) := by
  have hfile : key ≠ text "default_filename" := (h .defaultFilename (by decide)).symm
  have hspeed : key ≠ text "speed_type" := (h .speedType (by decide)).symm
  have hiface : key ≠ text "interfaces" := (h .interfaces (by decide)).symm
  rw [getEarlyOptions, getConfigString, if_neg hfile,
    getConfigNumbers_other fun n hn => (h (.number n) (earlyNumbers_early hn)).symm]
  simp [hspeed, hiface]

lemma setOption_early {k : OptionKey} (hk : k.Early) : setOption getIfIp junk k.name value conf =
    (k.put getIfIp junk value conf).map fun conf' => (k.name, conf', true) := by
  rw [setOption, getEarlyOptions_early hk]
  cases k.put getIfIp junk value conf with
  | none => rfl
  | some conf' => simp [getLateOptions_early hk]

lemma setOption_refused (h : ∀ k : OptionKey, k.Early → k.name ≠ key) :
    setOption getIfIp junk key value conf = some (key, conf, false) := by
  rw [setOption, getEarlyOptions_refused h]
  rfl

lemma setOption_key (h : setOption getIfIp junk key value conf = some (key', conf', st)) : key' = key := by
  rw [setOption, Option.bind_eq_bind, Option.bind_eq_some_iff] at h
  obtain ⟨⟨c, st⟩, -, h⟩ := h
  cases st with
  | false =>
    cases h
    rfl
  | true =>
    dsimp only at h
    rw [if_pos rfl, Option.bind_eq_bind, Option.bind_eq_some_iff] at h
    obtain ⟨c', -, h⟩ := h
    cases h
    rfl

end Load

section Meaning

variable {getIfIp : List UInt8 → Option (List UInt8)} {junk key key' value : List UInt8}
  {conf conf' conf'' : Options} {k k' : OptionKey} {l : OptionLine} {ls : List ConfLine}
  {held : Option (List UInt8)}

lemma OptionKey.put_leaves (h : k.put getIfIp junk value conf = some conf') : k.Leaves conf conf' := by
  cases k with
  | number n =>
    rw [OptionKey.put] at h
    cases hv : scanInt value with
    | none =>
      rw [hv] at h
      cases h
      exact ⟨by simp, by simp, by simp, rfl, by simp⟩
    | some m =>
      rw [hv] at h
      dsimp only at h
      split_ifs at h
      cases h
      refine ⟨by simp, fun n' hn => Function.update_of_ne (fun he => hn (by rw [he])) _ _, by simp, rfl, by simp⟩
  | _ =>
    cases h
    exact ⟨by simp, by simp, by simp, rfl, by simp⟩

lemma lastValue_singleton (h : k.name = l.key) :
    lastValue [.option l] = fun k' => if k = k' then some l.value else none := by
  funext k'
  by_cases hk : k = k'
  · subst hk
    simp [lastValue, ConfLine.entry, h]
  · have hne : l.key ≠ k'.name := fun he => hk (OptionKey.name_injective (h.trans he))
    simp [lastValue, ConfLine.entry, hk, hne]

lemma lastValue_cons (line : ConfLine) (ls : List ConfLine) (k : OptionKey) :
    lastValue (line :: ls) k = (lastValue ls k).or (lastValue [line] k) := by
  cases line with
  | empty l => exact (Option.or_none).symm
  | option l =>
    have hentries : ∀ ls, (ConfLine.option l :: ls).filterMap ConfLine.entry =
      l :: ls.filterMap ConfLine.entry := fun _ => rfl
    rw [lastValue, lastValue, lastValue, hentries, hentries]
    by_cases hl : l.key = k.name
    · rw [List.filter_cons_of_pos (by simpa using hl), List.filter_cons_of_pos (by simpa using hl)]
      generalize List.filter _ (List.filterMap _ ls) = es
      cases h : es.getLast? with
      | none => simp [List.getLast?_cons, h]
      | some e => simp [List.getLast?_cons, h]
    · rw [List.filter_cons_of_neg (by simpa using hl), List.filter_cons_of_neg (by simpa using hl)]
      simp

lemma Configured.trans {v v' : OptionKey → Option (List UInt8)} (h : Configured getIfIp junk v conf conf')
    (h' : Configured getIfIp junk v' conf' conf'') :
    Configured getIfIp junk (fun k => (v' k).or (v k)) conf conf'' := by
  refine ⟨?_, fun n u hu => ?_, fun n hn => ?_, ?_, h'.addHeader.trans h.addHeader, ?_⟩
  · rw [h'.defaultFilename, h.defaultFilename]
    cases v' .defaultFilename <;> rfl
  · cases hv : v' (.number n) with
    | none =>
      rw [hv, Option.none_or] at hu
      rw [h'.otherNumber n hv]
      exact h.number n u hu
    | some w =>
      rw [hv, Option.some_or] at hu
      exact h'.number n u (hv.trans hu)
  · rw [Option.or_eq_none_iff] at hn
    rw [h'.otherNumber n hn.1, h.otherNumber n hn.2]
  · rw [h'.interfaces, h.interfaces]
    cases v' .interfaces <;> rfl
  · rw [h'.userAgent, h.userAgent]
    cases v' .userAgent <;> rfl

lemma configured_put (hk : k.name = l.key) (h : k.put getIfIp junk l.value conf = some conf')
    (hs : ∀ n, k = .number n → ∃ m, scanInt l.value = some m ∧ FitsInt m) :
    Configured getIfIp junk (lastValue [.option l]) conf conf' := by
  have hleaves := OptionKey.put_leaves h
  rw [lastValue_singleton hk]
  refine ⟨?_, fun n v hv => ?_, fun n hn => hleaves.number n fun he => by simp [he] at hn, ?_,
    hleaves.addHeader, ?_⟩
  · by_cases he : k = .defaultFilename
    · subst he
      cases h
      simp
    · simp [he, hleaves.defaultFilename he]
  · split_ifs at hv with he
    subst he
    obtain ⟨m, hm, hfits⟩ := hs n rfl
    rw [OptionKey.put, hm] at h
    dsimp only at h
    rw [if_pos hfits] at h
    cases h
    cases hv
    exact hm.trans (congrArg some (Function.update_self n m conf.number).symm)
  · by_cases he : k = .interfaces
    · subst he
      cases h
      simp [interfaceTexts, l.value_ne]
    · simp [he, hleaves.interfaces he]
  · by_cases he : k = .userAgent
    · subst he
      cases h
      simp
    · simp [he, hleaves.userAgent he]

/-- What one key does with a value is what another one should do only where both do nothing. -/
lemma eq_of_put (h : k'.put getIfIp junk value (otherOptions getIfIp junk value) = some conf')
    (hc : Configured getIfIp junk (fun k₀ => if k = k₀ then some value else none)
      (otherOptions getIfIp junk value) conf') :
    k = k' ∨ k = .speedType ∧ scanInt value = none ∧ ∃ n, k' = .number n := by
  by_cases hkk : k = k'
  · exact .inl hkk
  have hleaves := OptionKey.put_leaves h
  refine .inr ?_
  cases k with
  | defaultFilename =>
    have hname := hc.defaultFilename
    rw [hleaves.defaultFilename (Ne.symm hkk)] at hname
    simp [otherOptions] at hname
  | number n =>
    have hvalue := hc.number n value (if_pos rfl)
    have hsame := hleaves.number n (Ne.symm hkk)
    simp only [otherOptions, hvalue, Option.getD_some] at hsame
    omega
  | interfaces =>
    have hfaces := hc.interfaces
    rw [hleaves.interfaces (Ne.symm hkk)] at hfaces
    have hlen := congrArg List.length hfaces
    simp [otherOptions] at hlen
    omega
  | userAgent =>
    have hagent := hc.userAgent
    rw [hleaves.userAgent (Ne.symm hkk)] at hagent
    simp [otherOptions] at hagent
  | speedType =>
    refine ⟨rfl, ?_⟩
    cases k' with
    | speedType => exact absurd rfl hkk
    | defaultFilename =>
      cases h
      simpa [otherOptions] using hc.defaultFilename
    | interfaces =>
      cases h
      have hfaces : interfaceTexts getIfIp junk value =
        [] :: [] :: (words value).map (interfaceText getIfIp junk) := hc.interfaces
      have hlen := congrArg List.length hfaces
      rw [interfaceTexts] at hlen
      split_ifs at hlen
      · simp at hlen
      · simp only [List.length_map, List.length_cons] at hlen
        omega
    | userAgent =>
      cases h
      simpa [otherOptions] using hc.userAgent
    | number n =>
      cases hv : scanInt value with
      | none => exact ⟨rfl, n, rfl⟩
      | some m =>
        have hold := hc.otherNumber n (by simp)
        rw [OptionKey.put, hv] at h
        dsimp only at h
        split_ifs at h
        cases h
        simp [otherOptions, hv] at hold

/-- Which keys are read and whether the file is refused does not depend on the options. -/
lemma setOption_congr {st : Bool} (h : setOption getIfIp junk key value conf = some (key', conf', st))
    (conf₁ : Options) : ∃ conf₁', setOption getIfIp junk key value conf₁ = some (key', conf₁', st) := by
  by_cases hkey : ∃ k : OptionKey, k.Early ∧ k.name = key
  · obtain ⟨k, hearly, rfl⟩ := hkey
    rw [setOption_early hearly, Option.map_eq_some_iff] at h
    obtain ⟨c, hput, he⟩ := h
    cases he
    have hsome : ∃ c₁, k.put getIfIp junk value conf₁ = some c₁ := by
      cases k with
      | number n =>
        rw [OptionKey.put] at hput ⊢
        cases hv : scanInt value with
        | none => exact ⟨_, rfl⟩
        | some m =>
          rw [hv] at hput
          dsimp only at hput ⊢
          split_ifs at hput ⊢
          exact ⟨_, rfl⟩
      | _ => exact ⟨_, rfl⟩
    obtain ⟨c₁, hc₁⟩ := hsome
    exact ⟨c₁, by rw [setOption_early hearly, hc₁]; rfl⟩
  · have hother : ∀ k : OptionKey, k.Early → k.name ≠ key := fun k hearly hk => hkey ⟨k, hearly, hk⟩
    rw [setOption_refused hother] at h ⊢
    cases h
    exact ⟨conf₁, rfl⟩

lemma loadLine_congr {line : List UInt8} {st : Bool}
    (h : loadLine getIfIp junk key conf line = some (key', conf', st)) (conf₁ : Options) :
    ∃ conf₁', loadLine getIfIp junk key conf₁ line = some (key', conf₁', st) := by
  rw [loadLine] at h ⊢
  split_ifs at h ⊢
  · rw [Option.bind_eq_some_iff] at h
    obtain ⟨value, hvalue, h⟩ := h
    rw [hvalue]
    exact setOption_congr h conf₁
  · cases h
    exact ⟨conf₁, rfl⟩

lemma loadLines_congr {lines : List (List UInt8)} {st : Bool}
    (h : loadLines getIfIp junk key conf lines = some (key', conf', st)) (conf₁ : Options) :
    ∃ conf₁', loadLines getIfIp junk key conf₁ lines = some (key', conf₁', st) := by
  induction lines generalizing key conf conf₁ with
  | nil =>
    cases h
    exact ⟨conf₁, rfl⟩
  | cons line lines ih =>
    rw [loadLines, Option.bind_eq_bind, Option.bind_eq_some_iff] at h
    obtain ⟨⟨k, c, st'⟩, hstep, h⟩ := h
    obtain ⟨c₁, hstep₁⟩ := loadLine_congr hstep conf₁
    rw [loadLines, hstep₁, Option.bind_eq_bind, Option.bind_some]
    cases st' with
    | true => exact ih h c₁
    | false =>
      cases h
      exact ⟨c₁, rfl⟩

lemma lineRight_of_key (hs : Settable l) (hkey : (if l.lead = [] then l.key else key) = l.key) :
    LineRight getIfIp junk key l := by
  refine ⟨fun ⟨k, hk⟩ conf => ?_, fun hn conf => ?_⟩
  · obtain ⟨hearly, hnumber⟩ := hs k hk
    obtain ⟨conf', hput⟩ : ∃ conf', k.put getIfIp junk l.value conf = some conf' := by
      cases k with
      | number n =>
        obtain ⟨m, hm, hfits⟩ := hnumber n rfl
        rw [OptionKey.put, hm]
        exact ⟨_, if_pos hfits⟩
      | _ => exact ⟨_, rfl⟩
    refine ⟨k.name, conf', ?_, configured_put hk hput hnumber⟩
    rw [loadLine_option, hkey, ← hk, setOption_early hearly, hput]
    rfl
  · rw [loadLine_option, hkey, setOption_refused fun k _ hk => hn ⟨k, hk⟩]
    exact ⟨_, _, rfl⟩

/-- A number is left as it is where the value is none, as `speed_type` is. -/
lemma lineRight_of_speedType {n : NumberOption} (hlead : l.lead ≠ []) (hkey : l.key = OptionKey.speedType.name)
    (hv : scanInt l.value = none) (hn : n ≠ .addHeaderCount) : LineRight getIfIp junk n.name l := by
  have hearly : (OptionKey.number n).Early := ⟨fun he => hn (OptionKey.number.inj he), by simp⟩
  refine ⟨fun _ conf => ⟨n.name, conf, ?_, ?_⟩, fun hunknown => absurd ⟨_, hkey.symm⟩ hunknown⟩
  · have hput : (OptionKey.number n).put getIfIp junk l.value conf = some conf := by
      rw [OptionKey.put, hv]
    have hset : setOption getIfIp junk (OptionKey.number n).name l.value conf =
        some ((OptionKey.number n).name, conf, true) := by
      rw [setOption_early hearly, hput]
      rfl
    rw [loadLine_option, if_neg hlead]
    exact hset
  · exact configured_put hkey.symm rfl (by simp)

/-- A line that has its own effect has it through a key with code in front of the test. -/
lemma LineRight.known_key (h : LineRight getIfIp junk key l) (hl : Known l.key) :
    Settable l ∧ ∃ k : OptionKey, k.Early ∧ k.name = (if l.lead = [] then l.key else key) ∧
      (k.name = l.key ∨ l.key = OptionKey.speedType.name ∧ scanInt l.value = none ∧
        ∃ n : NumberOption, k = .number n) := by
  obtain ⟨key', conf', hload, hconf⟩ := h.known hl (otherOptions getIfIp junk l.value)
  rw [loadLine_option] at hload
  obtain ⟨k', hearly, hname⟩ : ∃ k' : OptionKey, k'.Early ∧
      k'.name = if l.lead = [] then l.key else key := by
    by_contra hno
    push Not at hno
    rw [setOption_refused hno] at hload
    cases hload
  rw [← hname, setOption_early hearly, Option.map_eq_some_iff] at hload
  obtain ⟨_, hput, he⟩ := hload
  cases he
  obtain ⟨k, hk⟩ := hl
  rw [lastValue_singleton hk] at hconf
  have hsame := eq_of_put hput hconf
  constructor
  · intro k₁ hk₁
    obtain rfl := OptionKey.name_injective (hk₁.trans hk.symm)
    rcases hsame with rfl | ⟨rfl, -⟩
    · refine ⟨hearly, ?_⟩
      rintro n rfl
      have hscan := hconf.number n l.value (if_pos rfl)
      rw [OptionKey.put, hscan] at hput
      dsimp only at hput
      split_ifs at hput with hfits
      exact ⟨_, hscan, hfits⟩
    · exact ⟨by decide, by simp⟩
  · refine ⟨k', hearly, hname, ?_⟩
    rcases hsame with rfl | ⟨rfl, hv, n, rfl⟩
    · exact .inl hk
    · exact .inr ⟨hk.symm, hv, n, rfl⟩

/-- What a file has put into the buffer: nothing, or a key with code in front of the test. -/
def HeldEarly (held : Option (List UInt8)) : Prop := ∀ key ∈ held, ∃ k : OptionKey, k.Early ∧ k.name = key

lemma heldEarly_after (hheld : HeldEarly held) (hs : Settable l) (hl : Known l.key) :
    HeldEarly (heldAfter held l) := by
  rw [heldAfter]
  split_ifs
  · intro key hkey
    cases hkey
    obtain ⟨k, hk⟩ := hl
    exact ⟨k, (hs k hk).1, hk⟩
  · exact hheld

lemma lineRight_iff (hheld : HeldEarly held) :
    (∀ key, (∀ key' ∈ held, key = key') → LineRight getIfIp junk key l) ↔ Settable l ∧ Buffered held l := by
  constructor
  · intro h
    by_cases hlead : l.lead = []
    · refine ⟨?_, .inl hlead⟩
      by_cases hl : Known l.key
      · exact ((h (held.getD []) fun key' hkey' => by rw [hkey']; rfl).known_key hl).1
      · exact fun k hk => absurd ⟨k, hk⟩ hl
    · have hrefused : ∀ key, (∀ k : OptionKey, k.Early → k.name ≠ key) → Known l.key →
          ¬ LineRight getIfIp junk key l := fun key hkey hl hright => by
        obtain ⟨-, k, hearly, hk, -⟩ := hright.known_key hl
        rw [if_neg hlead] at hk
        exact hkey k hearly hk
      have hknown : Known l.key := by
        by_contra hl
        obtain ⟨k, hearly, hk⟩ : ∃ k : OptionKey, k.Early ∧ ∀ key' ∈ held, k.name = key' := by
          cases held with
          | none => exact ⟨.speedType, by decide, by simp⟩
          | some key =>
            obtain ⟨k, hearly, hk⟩ := hheld key rfl
            exact ⟨k, hearly, fun key' hkey' => hk.trans (Option.some.inj hkey')⟩
        obtain ⟨key', conf', hload⟩ := (h k.name hk).unknown hl (otherOptions getIfIp junk l.value)
        rw [loadLine_option, if_neg hlead, setOption_early hearly, Option.map_eq_some_iff] at hload
        obtain ⟨_, -, he⟩ := hload
        cases he
      cases held with
      | none =>
        have hright := h (text "add_header[i]") (by simp)
        exact absurd hright (hrefused _ (fun k _ => k.name_ne_header) hknown)
      | some key =>
        obtain ⟨hs, k, hearly, hk, hkey⟩ := (h key (by simp)).known_key hknown
        rw [if_neg hlead] at hk
        subst hk
        refine ⟨hs, .inr ?_⟩
        rcases hkey with he | ⟨hspeed, hv, n, rfl⟩
        · exact .inl (by rw [he])
        · exact .inr ⟨hspeed, hv, n, fun hn => hearly.1 (by rw [hn]), rfl⟩
  · rintro ⟨hs, hb⟩ key hkey
    by_cases hlead : l.lead = []
    · exact lineRight_of_key hs (if_pos hlead)
    · rcases hb with hb | rfl | ⟨hspeed, hv, n, hn, rfl⟩
      · exact absurd hb hlead
      · exact lineRight_of_key hs (by rw [if_neg hlead, hkey _ rfl])
      · rw [hkey _ rfl]
        exact lineRight_of_speedType hlead hspeed hv hn

lemma eachRight_empty (e : EmptyLine) :
    EachRight getIfIp junk key (.empty e :: ls) ↔ EachRight getIfIp junk key ls := by
  have hrun : ∀ conf (lines : List (List UInt8)), loadLines getIfIp junk key conf
      ((ConfLine.empty e).text :: lines) = loadLines getIfIp junk key conf lines := fun conf lines => by
    rw [loadLines, loadLine_empty]
    rfl
  constructor
  · rintro h pre l post rfl conf key' conf' hload
    exact h (.empty e :: pre) l post rfl conf key' conf' ((hrun _ _).trans hload)
  · intro h pre l post hls conf key' conf' hload
    cases pre with
    | nil => cases hls
    | cons line pre =>
      obtain ⟨rfl, rfl⟩ := List.cons.inj hls
      exact h pre l post rfl conf key' conf' ((hrun _ _).symm.trans hload)

lemma loadLines_option {lines : List (List UInt8)} {st : Bool}
    (h : loadLine getIfIp junk key conf (ConfLine.option l).text = some (key', conf', st)) :
    loadLines getIfIp junk key conf ((ConfLine.option l).text :: lines) =
      if st then loadLines getIfIp junk (if l.lead = [] then l.key else key) conf' lines
      else some (if l.lead = [] then l.key else key, conf', false) := by
  have hkey := h
  rw [loadLine_option] at hkey
  rw [loadLines, h, setOption_key hkey]
  rfl

lemma eachRight_option : EachRight getIfIp junk key (.option l :: ls) ↔ LineRight getIfIp junk key l ∧
    (Known l.key → EachRight getIfIp junk (if l.lead = [] then l.key else key) ls) := by
  constructor
  · intro h
    have hl : LineRight getIfIp junk key l :=
      h [] l ls rfl (otherOptions getIfIp junk l.value) key _ rfl
    refine ⟨hl, ?_⟩
    rintro hknown pre l' post rfl conf key' conf' hload
    obtain ⟨k, c, hstep, -⟩ := hl.known hknown conf
    obtain ⟨c', hrest⟩ := loadLines_congr hload c
    apply h (.option l :: pre) l' post rfl conf key' c'
    rw [List.map_cons, loadLines_option hstep, if_pos rfl]
    exact hrest
  · rintro ⟨hl, hrest⟩ pre l' post hls conf key' conf' hload
    cases pre with
    | nil =>
      cases hls
      cases hload
      exact hl
    | cons line pre =>
      obtain ⟨rfl, rfl⟩ := List.cons.inj hls
      by_cases hknown : Known l.key
      · obtain ⟨k, c, hstep, -⟩ := hl.known hknown conf
        rw [List.map_cons, loadLines_option hstep, if_pos rfl] at hload
        exact hrest hknown pre l' post rfl c key' conf' hload
      · obtain ⟨k, c, hstep⟩ := hl.unknown hknown conf
        rw [List.map_cons, loadLines_option hstep] at hload
        cases hload

/-- The lines are all right from what may be in the buffer just where they are safe. -/
lemma eachRight_iff (hheld : HeldEarly held) (ls : List ConfLine) :
    (∀ key, (∀ key' ∈ held, key = key') → EachRight getIfIp junk key ls) ↔ SafeLines held ls := by
  induction ls generalizing held with
  | nil => exact iff_of_true (fun key _ pre l post hls => by simp at hls) trivial
  | cons line ls ih =>
    cases line with
    | empty e =>
      simp only [eachRight_empty]
      exact ih hheld
    | option l =>
      simp only [eachRight_option, forall_and]
      rw [lineRight_iff hheld, SafeLines, and_assoc]
      refine and_congr_right fun hs => and_congr_right fun _ => ?_
      by_cases hl : Known l.key
      · rw [← ih (heldEarly_after hheld hs hl)]
        simp only [hl, forall_const, heldAfter]
        by_cases hlead : l.lead = []
        · simp only [if_pos hlead, Option.mem_some_iff]
          constructor
          · intro h key hkey
            rw [hkey l.key rfl]
            exact h (held.getD []) fun key' hkey' => by rw [hkey']; rfl
          · exact fun h key _ => h l.key fun _ he => he
        · simp only [if_neg hlead]
      · simp [hl]

lemma loadLines_of_eachRight (h : EachRight getIfIp junk key ls) (conf : Options) :
    ((∀ l, .option l ∈ ls → Known l.key) → ∃ key' conf',
      loadLines getIfIp junk key conf (ls.map ConfLine.text) = some (key', conf', true) ∧
        Configured getIfIp junk (lastValue ls) conf conf') ∧
    ∀ l, .option l ∈ ls → ¬ Known l.key → ∃ key' conf',
      loadLines getIfIp junk key conf (ls.map ConfLine.text) = some (key', conf', false) := by
  induction ls generalizing key conf with
  | nil => exact ⟨fun _ => ⟨key, conf, rfl, rfl, fun _ _ hv => (nomatch hv), fun _ _ => rfl, rfl, rfl, rfl⟩,
      by simp⟩
  | cons line ls ih =>
    cases line with
    | empty e =>
      have hrun : loadLines getIfIp junk key conf ((ConfLine.empty e :: ls).map ConfLine.text) =
          loadLines getIfIp junk key conf (ls.map ConfLine.text) := by
        rw [List.map_cons, loadLines, loadLine_empty]
        rfl
      obtain ⟨hknown, hunknown⟩ := ih ((eachRight_empty e).mp h) conf
      rw [hrun]
      simp only [List.mem_cons, reduceCtorEq, false_or]
      exact ⟨hknown, hunknown⟩
    | option l =>
      obtain ⟨hl, hrest⟩ := eachRight_option.mp h
      rw [List.map_cons]
      constructor
      · intro hall
        have hlknown := hall l List.mem_cons_self
        obtain ⟨k, c, hstep, hc⟩ := hl.known hlknown conf
        obtain ⟨key', conf', hload, hconf⟩ := (ih (hrest hlknown) c).1 fun l' hl' =>
          hall l' (List.mem_cons_of_mem _ hl')
        refine ⟨key', conf', ?_, ?_⟩
        · rw [loadLines_option hstep, if_pos rfl, hload]
        · have hlast : lastValue (.option l :: ls) = fun k => (lastValue ls k).or (lastValue [.option l] k) :=
            funext fun k => lastValue_cons _ _ _
          rw [hlast]
          exact hc.trans hconf
      · intro l' hmem hunknown
        by_cases hlknown : Known l.key
        · have hmem' : .option l' ∈ ls := by
            rcases List.mem_cons.mp hmem with he | hmem'
            · cases he
              exact absurd hlknown hunknown
            · exact hmem'
          obtain ⟨k, c, hstep, -⟩ := hl.known hlknown conf
          obtain ⟨key', conf', hload⟩ := (ih (hrest hlknown) c).2 l' hmem' hunknown
          exact ⟨key', conf', by rw [loadLines_option hstep, if_pos rfl, hload]⟩
        · obtain ⟨k, c, hstep⟩ := hl.unknown hlknown conf
          exact ⟨_, c, loadLines_option hstep⟩

lemma ConfLine.text_plain (line : ConfLine) : 10 ∉ line.text := by
  have hcomment : ∀ {s : List UInt8}, Comment s → 10 ∉ s := fun hs => by
    rcases hs with rfl | ⟨-, hs⟩
    · simp
    · exact hs
  cases line with
  | empty l =>
    rw [ConfLine.text, List.mem_append]
    rintro (hm | hm)
    · exact isWhite_plain (l.blanks_white _ hm) (by decide)
    · exact hcomment l.comment_form hm
  | option l =>
    rw [ConfLine.text, List.mem_append]
    rintro (hm | hm)
    · exact l.setting_plain _ hm (by decide)
    · exact hcomment l.comment_form hm

lemma confLoadfile_fileOf (key : List UInt8) (conf : Options) (ls : List ConfLine) :
    confLoadfile getIfIp junk key conf (some (fileOf ls)) =
      (loadLines getIfIp junk key conf (ls.map ConfLine.text)).map Prod.snd := by
  cases ls with
  | nil => rfl
  | cons line ls =>
    rw [confLoadfile, fileOf, List.splitOn_intercalate]
    · intro s hs
      obtain ⟨line, -, rfl⟩ := List.mem_map.mp hs
      exact line.text_plain
    · simp

/-- A file means what it says just where it is safe. -/
theorem confRight_iff (getIfIp : List UInt8 → Option (List UInt8)) (junk : List UInt8) (ls : List ConfLine) :
    ConfRight getIfIp junk ls ↔ SafeLines none ls := by
  have hheld : HeldEarly none := fun key hkey => nomatch hkey
  have heach : (∀ key, (∀ key' ∈ (none : Option (List UInt8)), key = key') → EachRight getIfIp junk key ls) ↔
    SafeLines none ls := eachRight_iff hheld ls
  constructor
  · exact fun h => heach.mp fun key _ => h.each key
  · intro h
    have hright : ∀ key, EachRight getIfIp junk key ls := fun key => heach.mpr h key (by simp)
    refine ⟨fun hknown key conf => ?_, fun l hl hunknown key conf => ?_, hright⟩
    · obtain ⟨key', conf', hload, hconf⟩ := (loadLines_of_eachRight (hright key) conf).1 hknown
      exact ⟨conf', by rw [confLoadfile_fileOf, hload]; rfl, hconf⟩
    · obtain ⟨key', conf', hload⟩ := (loadLines_of_eachRight (hright key) conf).2 l hl hunknown
      exact ⟨conf', by rw [confLoadfile_fileOf, hload]; rfl⟩

/-- What the key sets are the texts of the circle that `parse_interfaces` leaves. -/
lemma parseInterfaces_option {rounds : ℕ} {interfaces : Option ℕ} {s : Store (List UInt8)} {old : List ℕ}
    {more : List UInt8} {b : UInt8} (l : OptionLine) (hs : s.Bounded) (hold : Circle s.heap interfaces old)
    (hrounds : old.length < rounds) (hrounds' : l.value.length < rounds) :
    ∃ q t nodes, parseInterfaces getIfIp junk rounds interfaces (l.value ++ 0 :: b :: more) s = .ok q t ∧
      Circle t.heap q nodes ∧ ∀ conf conf',
        OptionKey.interfaces.put getIfIp junk l.value conf = some conf' →
          nodes.map (textAt t.heap) = conf'.interfaces.map some := by
  have hzero : 0 ∉ l.value := fun hm => l.value_plain 0 hm (by decide)
  have hlast : ∀ b, l.value.getLast? = some b → isBlank b = false := fun b hb => by
    by_contra hblank
    have hspace := isSpace_of_isWhite (isWhite_of_isBlank (Bool.not_eq_false _ ▸ hblank))
    rw [l.value_last b hb] at hspace
    cases hspace
  have hroom : l.value.length + 2 ≤ maxString := by
    have hshort := l.short
    simp only [List.length_append, List.length_cons] at hshort
    rw [maxString]
    omega
  obtain ⟨q, t, hq, first, u, rfl, -, hfilled⟩ :=
    exists_of_wp (wp_parseInterfaces hs hold hzero hlast hroom hrounds hrounds')
  obtain ⟨nodes, hcircle, htexts⟩ := hfilled.texts
  refine ⟨some first, t, nodes, hq, hcircle, fun conf conf' hput => ?_⟩
  cases hput
  exact htexts

end Meaning

lemma blank_space : ∀ b ∈ [(32 : UInt8)], isBlank b := by simp [isBlank]

lemma white_space : ∀ b ∈ [(32 : UInt8)], isWhite b := by simp [isWhite, isSpace]

lemma short_simple {lead key value : List UInt8}
    (h : lead.length + key.length + value.length ≤ 97) :
    (lead ++ (key ++ ([32] ++ 61 :: ([32] ++ (value ++ []))))).length ≤ 100 := by
  simp only [List.length_append, List.length_cons, List.length_nil]
  omega

/-- A line with a blank on each side of the `=`. -/
def simpleLine (lead key value : List UInt8) (hlead : lead.all isBlank) (hne : key ≠ [])
    (hkey : key.all fun b => b ∉ [0, 9, 10, 32, 35, (61 : UInt8)]) (hvalue : value ≠ [])
    (hplain : value.all fun b => b ∉ [0, 10, (35 : UInt8)] && !isSpace b)
    (hshort : lead.length + key.length + value.length ≤ 97) : OptionLine where
  lead := lead
  key := key
  gap := [32]
  margin := [32]
  value := value
  tail := []
  comment := []
  lead_blank := List.all_eq_true.mp hlead
  key_ne := hne
  key_plain := fun b hb => by simpa using List.all_eq_true.mp hkey b hb
  gap_blank := blank_space
  margin_white := white_space
  value_ne := hvalue
  value_plain := fun b hb => by
    have hb' := List.all_eq_true.mp hplain b hb
    simp only [Bool.and_eq_true, decide_eq_true_eq] at hb'
    exact hb'.1
  value_head := fun b hb => by
    have hb' := List.all_eq_true.mp hplain b (List.mem_of_head? hb)
    simp only [Bool.and_eq_true, Bool.not_eq_true'] at hb'
    exact hb'.2
  value_last := fun b hb => by
    have hb' := List.all_eq_true.mp hplain b (List.mem_of_getLast? hb)
    simp only [Bool.and_eq_true, Bool.not_eq_true'] at hb'
    exact hb'.2
  tail_white := fun _ hb => absurd hb List.not_mem_nil
  comment_form := .inl rfl
  short := short_simple hshort

def verboseLine : OptionLine :=
  simpleLine [] (text "verbose") (text "1") (by decide) (by decide) (by decide) (by decide) (by decide) (by decide)

def indentedLine : OptionLine :=
  simpleLine [32] (text "num_connections") (text "4") (by decide) (by decide) (by decide) (by decide) (by decide)
    (by decide)

/-- A line with a blank in front sets the option of the line above it. -/
theorem option_of_line_above :
    fileOf [.option verboseLine, .option indentedLine] = text "verbose = 1\n num_connections = 4" ∧
      ¬ ConfRight (fun _ => none) [] [.option verboseLine, .option indentedLine] := by
  refine ⟨by decide +kernel, fun h => ?_⟩
  have hknown : ∀ l, .option l ∈ [ConfLine.option verboseLine, .option indentedLine] → Known l.key := by
    simp only [List.mem_cons, ConfLine.option.injEq, List.not_mem_nil, or_false]
    rintro l (rfl | rfl)
    · exact ⟨.number .verbose, rfl⟩
    · exact ⟨.number .numConnections, rfl⟩
  obtain ⟨conf', hload, hconf⟩ := h.known hknown [] ⟨[], fun _ => 0, [], fun _ => [], []⟩
  have hset := hconf.number .numConnections (text "4") (by decide +kernel)
  have hrun : (confLoadfile (fun _ => none) [] [] ⟨[], fun _ => 0, [], fun _ => [], []⟩
      (some (fileOf [.option verboseLine, .option indentedLine]))).map
        (fun r => r.1.number .numConnections) = some 0 := by
    decide +kernel
  rw [hload] at hrun
  have hzero : conf'.number .numConnections = 0 := Option.some.inj hrun
  rw [hzero] at hset
  revert hset
  decide

end GreenBag
