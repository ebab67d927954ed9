import GreenBag.Configuring
import GreenBag.Fields

/-! The settings of a session: `conf_init` with its two files, and `parse_args` on top of them. -/

namespace GreenBag

/-- The numbers that only the command line sets. -/
inductive ArgNumber
  | numOfSegments
  | fixedSegmentSizeKB
  | initialChunkRate0
  | initialChunkRate1
  | qosKbps
  | fixedSegmentMode
  | fixedSubsegmentMode
  | minimumEnergyMode
  | recoveryMode
  deriving DecidableEq, Repr

inductive ArgFactor
  | ewmaFactor
  | bwFactorForMode
  | bwFactorForStage
  | recoveryDecisionFactor
  deriving DecidableEq, Repr

/-- A `conf_t`; `D` stands for the floating-point numbers. -/
structure Settings (D : Type) where
  options : Options
  number : ArgNumber → ℤ
  factor : ArgFactor → D
  logFile : List UInt8

inductive ArgKey
  | connections
  | number (n : ArgNumber)
  | factor (f : ArgFactor)
  | logFile
  deriving DecidableEq, Repr

/-- What `getopt_long` returns: the letter of an option, and its argument. -/
structure Arg where
  letter : Char
  optarg : List UInt8
  deriving DecidableEq, Repr

/-- What an option sets. The count that goes with `v` is not used, and other letters are ignored. -/
def Arg.key (a : Arg) : Option ArgKey :=
  match a.letter with
  | 'n' => some .connections
  | 'i' => some (.number .numOfSegments)
  | 'S' => some (.number .fixedSegmentSizeKB)
  | '1' => some (.number .initialChunkRate0)
  | '2' => some (.number .initialChunkRate1)
  | 'Q' => some (.number .qosKbps)
  | 'F' => some (.number .fixedSegmentMode)
  | 'f' => some (.number .fixedSubsegmentMode)
  | 'E' => some (.number .minimumEnergyMode)
  | 'R' => some (.number .recoveryMode)
  | 'W' => some (.factor .ewmaFactor)
  | 'A' => some (.factor .bwFactorForMode)
  | 'B' => some (.factor .bwFactorForStage)
  | 'd' => some (.factor .recoveryDecisionFactor)
  | 'l' => some .logFile
  | _ => none

/-- `conf_init` up to the first file, with the numbers of its two parts. -/
def defaultOptions : Options where
  defaultFilename := text "default"
  number
    | .stripCgiParameters => 1
    | .connectionTimeout => 45
    | .reconnectDelay => 20
    | .numConnections => 2
    | .bufferSize => 5120
    | .verbose => 1
    | .alternateOutput => 1
    | .searchTimeout => 10
    | .searchThreads => 3
    | .searchAmount => 15
    | .searchTop => 3
    | .addHeaderCount => 0
  -- a circle of one node without a name
  interfaces := [[]]
  addHeader _ := []
  userAgent := text "GreenBag 2.4 (Linux)"

def defaultNumber : ArgNumber → ℤ
  | .numOfSegments => 0
  | .fixedSegmentSizeKB => 10240
  | .initialChunkRate0 => 1
  | .initialChunkRate1 => 1
  | .qosKbps => 6000
  | .fixedSegmentMode => 0
  | .fixedSubsegmentMode => 0
  | .minimumEnergyMode => 0
  | .recoveryMode => 0

def defaultFactor : ArgFactor → ℚ
  | .ewmaFactor => 3 / 10
  | .bwFactorForMode => 1
  | .bwFactorForStage => 1
  | .recoveryDecisionFactor => 1

inductive ArgFault
  | overflow
  | unterminated
  deriving DecidableEq, Repr

/-- What `sscanf` makes of a string. -/
inductive Conversion (α : Type)
  | ended
  | mismatch
  | value (a : α)
  deriving DecidableEq, Repr

/-- A string of blanks ends before it does not match. -/
def convert {α : Type} (scan : List UInt8 → Option α) (s : List UInt8) : Conversion α :=
  if s.all isSpace then .ended
  else match scan s with
    | none => .mismatch
    | some a => .value a

/-- The conversions `%lld` for the size of a segment, `%d` for the bitrate and `%i` for the others. -/
def ArgNumber.scan : ArgNumber → List UInt8 → Option ℤ
  | fixedSegmentSizeKB => scanLong
  | qosKbps => scanLong
  | _ => scanInt

def ArgNumber.Fits (n : ArgNumber) (m : ℤ) : Prop := n = .fixedSegmentSizeKB ∨ FitsInt m

instance (n : ArgNumber) (m : ℤ) : Decidable (n.Fits m) := inferInstanceAs (Decidable (_ ∨ _))

def Options.setConnections (o : Options) (n : ℤ) : Options :=
  { o with number := Function.update o.number .numConnections n }

section

variable {D : Type} (scanFactor : ArgFactor → List UInt8 → Option D)

/-- The new settings, or nothing where the help is printed. `sscanf` returns -1 at the end of its string,
and that is no failure. -/
def Settings.put (s : Settings D) (optarg : List UInt8) : ArgKey → Except ArgFault (Option (Settings D))
  | .connections =>
    match convert scanInt optarg with
    | .ended => .ok (some s)
    | .mismatch => .ok none
    | .value m =>
      if FitsInt m then .ok (some { s with options := s.options.setConnections m }) else .error .overflow
  | .number n =>
    match convert n.scan optarg with
    | .ended => .ok (some s)
    | .mismatch => .ok none
    | .value m =>
      if n.Fits m then .ok (some { s with number := Function.update s.number n m }) else .error .overflow
  | .factor f =>
    match convert (scanFactor f) optarg with
    | .ended => .ok (some s)
    | .mismatch => .ok none
    | .value x => .ok (some { s with factor := Function.update s.factor f x })
  | .logFile =>
    match strncpy optarg with
    | none => .error .unterminated
    | some logFile => .ok (some { s with logFile := logFile })

/-- The loop of `parse_args`. -/
def parseOptions (s : Settings D) : List Arg → Except ArgFault (Option (Settings D))
  | [] => .ok (some s)
  | a :: args =>
    match a.key with
    | none => parseOptions s args
    | some key =>
      match s.put scanFactor a.optarg key with
      | .error fault => .error fault
      | .ok none => .ok none
      | .ok (some s) => parseOptions s args

/-- With both options given, the number of segments is reset. -/
def parseArgs (s : Settings D) (args : List Arg) : Except ArgFault (Option (Settings D)) :=
  (parseOptions scanFactor s args).map fun r => r.map fun s =>
    if (∃ a ∈ args, a.letter = 'i') ∧ ∃ a ∈ args, a.letter = 'S' then
      { s with number := Function.update s.number .numOfSegments 0 }
    else s

end

section

variable (getIfIp : List UInt8 → Option (List UInt8)) (junk : List UInt8)

/-- `conf_init` with the global file and the one of the user, and what is in `key` when they are read. -/
def confInit (key₁ key₂ : List UInt8) (etc home : Option (List UInt8)) : Option (Options × Bool) := do
  let (conf, st) ← confLoadfile getIfIp junk key₁ defaultOptions etc
  if st then confLoadfile getIfIp junk key₂ conf home else return (conf, false)

end

/-! ### What the command line says -/

/-- The last value that is read. -/
def lastRead {α : Type} (read : Arg → Option α) (args : List Arg) : Option α := (args.filterMap read).getLast?

def Arg.read {α : Type} (key : ArgKey) (scan : List UInt8 → Option α) (a : Arg) : Option α :=
  if a.key = some key ∧ ¬ a.optarg.all isSpace then scan a.optarg else none

def Arg.readString (a : Arg) : Option (List UInt8) := if a.key = some .logFile then some a.optarg else none

section

variable {D : Type} (scanFactor : ArgFactor → List UInt8 → Option D)

/-- The argument is blank, or a number of the right kind, or it has room. -/
def Arg.Readable (a : Arg) : Prop :=
  (a.key = some .connections → a.optarg.all isSpace ∨ ∃ m, scanInt a.optarg = some m ∧ FitsInt m) ∧
  (∀ n, a.key = some (.number n) → a.optarg.all isSpace ∨ ∃ m, n.scan a.optarg = some m ∧ n.Fits m) ∧
  (∀ f, a.key = some (.factor f) → a.optarg.all isSpace ∨ ∃ x, scanFactor f a.optarg = some x) ∧
  (a.key = some .logFile → a.optarg.length < maxString)

/-- Each field has the last value for it, or else the one that it had. -/
structure Commanded (args : List Arg) (s s' : Settings D) : Prop where
  options : s'.options = s.options.setConnections
    ((lastRead (Arg.read .connections scanInt) args).getD (s.options.number .numConnections))
  number : ∀ n, s'.number n = (lastRead (Arg.read (.number n) n.scan) args).getD (s.number n)
  factor : ∀ f, s'.factor f = (lastRead (Arg.read (.factor f) (scanFactor f)) args).getD (s.factor f)
  logFile : s'.logFile = (lastRead Arg.readString args).getD s.logFile

variable {scanFactor} {s t u : Settings D} {a : Arg} {args : List Arg} {key : ArgKey}

lemma lastRead_cons {α : Type} (read : Arg → Option α) (a : Arg) (args : List Arg) :
    lastRead read (a :: args) = (lastRead read args).or (read a) := by
  rw [lastRead, lastRead]
  cases ha : read a with
  | none => rw [List.filterMap_cons_none ha, Option.or_none]
  | some x =>
    rw [List.filterMap_cons_some ha, List.getLast?_cons]
    cases (args.filterMap read).getLast? <;> rfl

lemma lastRead_getD {α : Type} (read : Arg → Option α) (a : Arg) (args : List Arg) (x : α) :
    (lastRead read (a :: args)).getD x = (lastRead read args).getD ((read a).getD x) := by
  rw [lastRead_cons]
  cases lastRead read args <;> rfl

lemma lastRead_singleton {α : Type} (read : Arg → Option α) (a : Arg) : lastRead read [a] = read a :=
  lastRead_cons read a []

lemma setConnections_self (o : Options) : o.setConnections (o.number .numConnections) = o := by
  rw [Options.setConnections, Function.update_eq_self]

lemma setConnections_twice (o : Options) (n m : ℤ) :
    (o.setConnections n).setConnections m = o.setConnections m := by
  rw [Options.setConnections, Options.setConnections, Options.setConnections, Function.update_idem]

lemma setConnections_number (o : Options) (n : ℤ) : (o.setConnections n).number .numConnections = n := by
  simp only [Options.setConnections, Function.update_self]

lemma Commanded.refl (s : Settings D) : Commanded scanFactor [] s s :=
  ⟨(setConnections_self s.options).symm, fun _ => rfl, fun _ => rfl, rfl⟩

lemma Commanded.cons (h : Commanded scanFactor [a] s t) (h' : Commanded scanFactor args t u) :
    Commanded scanFactor (a :: args) s u := by
  refine ⟨?_, fun n => ?_, fun f => ?_, ?_⟩
  · rw [h'.options, h.options, setConnections_number, setConnections_twice, lastRead_singleton, lastRead_getD]
  · rw [h'.number, h.number, lastRead_singleton, lastRead_getD]
  · rw [h'.factor, h.factor, lastRead_singleton, lastRead_getD]
  · rw [h'.logFile, h.logFile, lastRead_singleton, lastRead_getD]

lemma convert_blank {α : Type} {scan : List UInt8 → Option α} {s : List UInt8} (h : s.all isSpace) :
    convert scan s = .ended := if_pos h

lemma convert_value {α : Type} {scan : List UInt8 → Option α} {s : List UInt8} {x : α} (h : ¬ s.all isSpace)
    (hx : scan s = some x) : convert scan s = .value x := by
  rw [convert, if_neg h, hx]

lemma convert_mismatch {α : Type} {scan : List UInt8 → Option α} {s : List UInt8} (h : ¬ s.all isSpace)
    (hx : scan s = none) : convert scan s = .mismatch := by
  rw [convert, if_neg h, hx]

lemma Commanded.of_unread (hc : a.read .connections scanInt = none)
    (hn : ∀ n : ArgNumber, a.read (.number n) n.scan = none)
    (hf : ∀ f, a.read (.factor f) (scanFactor f) = none) (hl : a.readString = none) (s : Settings D) :
    Commanded scanFactor [a] s s := by
  constructor
  · rw [lastRead_singleton, hc, Option.getD_none, setConnections_self]
  · intro n
    rw [lastRead_singleton, hn, Option.getD_none]
  · intro f
    rw [lastRead_singleton, hf, Option.getD_none]
  · rw [lastRead_singleton, hl, Option.getD_none]

lemma read_other {α : Type} {scan : List UInt8 → Option α} (h : a.key ≠ some key) : a.read key scan = none :=
  if_neg fun hk => h hk.1

lemma read_blank {α : Type} {scan : List UInt8 → Option α} (h : a.optarg.all isSpace) : a.read key scan = none :=
  if_neg fun hk => hk.2 h

lemma read_value {α : Type} {scan : List UInt8 → Option α} (hk : a.key = some key) (h : ¬ a.optarg.all isSpace) :
    a.read key scan = scan a.optarg := if_pos ⟨hk, h⟩

lemma readString_other (h : a.key ≠ some .logFile) : a.readString = none := if_neg h

/-- An argument of blanks leaves everything as it is, unless it is a string. -/
lemma Commanded.of_blank (h : a.optarg.all isSpace) (hl : a.key ≠ some .logFile) (s : Settings D) :
    Commanded scanFactor [a] s s :=
  Commanded.of_unread (read_blank h) (fun _ => read_blank h) (fun _ => read_blank h) (readString_other hl) s

/-! Each kind of option sets its own field. -/

lemma Commanded.of_connections {m : ℤ} (hk : a.key = some .connections) (hb : ¬ a.optarg.all isSpace)
    (hm : scanInt a.optarg = some m) (s : Settings D) :
    Commanded scanFactor [a] s { s with options := s.options.setConnections m } := by
  constructor
  · rw [lastRead_singleton, read_value hk hb, hm]
    rfl
  · intro n
    rw [lastRead_singleton, read_other (by simp [hk])]
    rfl
  · intro f
    rw [lastRead_singleton, read_other (by simp [hk])]
    rfl
  · rw [lastRead_singleton, readString_other (by simp [hk])]
    rfl

lemma Commanded.of_number {n : ArgNumber} {m : ℤ} (hk : a.key = some (.number n)) (hb : ¬ a.optarg.all isSpace)
    (hm : n.scan a.optarg = some m) (s : Settings D) :
    Commanded scanFactor [a] s { s with number := Function.update s.number n m } := by
  constructor
  · rw [lastRead_singleton, read_other (by simp [hk]), Option.getD_none, setConnections_self]
  · intro n'
    by_cases hn : n' = n
    · subst hn
      rw [lastRead_singleton, read_value hk hb, hm]
      exact Function.update_self _ _ _
    · rw [lastRead_singleton, read_other (by simpa [hk] using Ne.symm hn)]
      exact Function.update_of_ne hn _ _
  · intro f
    rw [lastRead_singleton, read_other (by simp [hk])]
    rfl
  · rw [lastRead_singleton, readString_other (by simp [hk])]
    rfl

lemma Commanded.of_factor {f : ArgFactor} {x : D} (hk : a.key = some (.factor f)) (hb : ¬ a.optarg.all isSpace)
    (hx : scanFactor f a.optarg = some x) (s : Settings D) :
    Commanded scanFactor [a] s { s with factor := Function.update s.factor f x } := by
  constructor
  · rw [lastRead_singleton, read_other (by simp [hk]), Option.getD_none, setConnections_self]
  · intro n
    rw [lastRead_singleton, read_other (by simp [hk])]
    rfl
  · intro f'
    by_cases hf : f' = f
    · subst hf
      rw [lastRead_singleton, read_value hk hb, hx]
      exact Function.update_self _ _ _
    · rw [lastRead_singleton, read_other (by simpa [hk] using Ne.symm hf)]
      exact Function.update_of_ne hf _ _
  · rw [lastRead_singleton, readString_other (by simp [hk])]
    rfl

lemma Commanded.of_logFile (hk : a.key = some .logFile) (s : Settings D) :
    Commanded scanFactor [a] s { s with logFile := a.optarg } := by
  constructor
  · rw [lastRead_singleton, read_other (by simp [hk]), Option.getD_none, setConnections_self]
  · intro n
    rw [lastRead_singleton, read_other (by simp [hk])]
    rfl
  · intro f
    rw [lastRead_singleton, read_other (by simp [hk])]
    rfl
  · simp [lastRead_singleton, Arg.readString, hk]

lemma put_readable (hk : a.key = some key) (ha : a.Readable scanFactor) (s : Settings D) :
    ∃ t, s.put scanFactor a.optarg key = .ok (some t) ∧ Commanded scanFactor [a] s t := by
  obtain ⟨hconn, hnum, hfac, hlog⟩ := ha
  cases key with
  | connections =>
    by_cases hb : a.optarg.all isSpace
    · exact ⟨s, by rw [Settings.put, convert_blank hb], .of_blank hb (by simp [hk]) s⟩
    · obtain ⟨m, hm, hfit⟩ := (hconn hk).resolve_left hb
      refine ⟨_, ?_, .of_connections hk hb hm s⟩
      rw [Settings.put, convert_value hb hm]
      exact if_pos hfit
  | number n =>
    by_cases hb : a.optarg.all isSpace
    · exact ⟨s, by rw [Settings.put, convert_blank hb], .of_blank hb (by simp [hk]) s⟩
    · obtain ⟨m, hm, hfit⟩ := (hnum n hk).resolve_left hb
      refine ⟨_, ?_, .of_number hk hb hm s⟩
      rw [Settings.put, convert_value hb hm]
      exact if_pos hfit
  | factor f =>
    by_cases hb : a.optarg.all isSpace
    · exact ⟨s, by rw [Settings.put, convert_blank hb], .of_blank hb (by simp [hk]) s⟩
    · obtain ⟨x, hx⟩ := (hfac f hk).resolve_left hb
      exact ⟨_, by rw [Settings.put, convert_value hb hx], .of_factor hk hb hx s⟩
  | logFile =>
    have hcopy : strncpy a.optarg = some a.optarg := if_pos (hlog hk)
    exact ⟨_, by rw [Settings.put, hcopy], .of_logFile hk s⟩

lemma readable_of_key (hk : a.key = some key) (hn : key ≠ .logFile) (hb : a.optarg.all isSpace) :
    a.Readable scanFactor := by
  refine ⟨fun _ => .inl hb, fun _ _ => .inl hb, fun _ _ => .inl hb, fun hl => ?_⟩
  rw [hk] at hl
  exact absurd (Option.some.inj hl) hn

lemma readable_of_put (hk : a.key = some key) (h : s.put scanFactor a.optarg key = .ok (some t)) :
    a.Readable scanFactor := by
  cases key with
  | connections =>
    by_cases hb : a.optarg.all isSpace
    · exact readable_of_key hk (by simp) hb
    · cases hscan : scanInt a.optarg with
      | none =>
        rw [Settings.put, convert_mismatch hb hscan] at h
        cases h
      | some m =>
        rw [Settings.put, convert_value hb hscan] at h
        simp only at h
        split_ifs at h with hfit
        simp only [Arg.Readable, hk]
        exact ⟨fun _ => .inr ⟨m, hscan, hfit⟩, by simp, by simp, by simp⟩
  | number n =>
    by_cases hb : a.optarg.all isSpace
    · exact readable_of_key hk (by simp) hb
    · cases hscan : n.scan a.optarg with
      | none =>
        rw [Settings.put, convert_mismatch hb hscan] at h
        cases h
      | some m =>
        rw [Settings.put, convert_value hb hscan] at h
        simp only at h
        split_ifs at h with hfit
        simp only [Arg.Readable, hk]
        refine ⟨by simp, fun n' hn => ?_, by simp, by simp⟩
        cases hn
        exact .inr ⟨m, hscan, hfit⟩
  | factor f =>
    by_cases hb : a.optarg.all isSpace
    · exact readable_of_key hk (by simp) hb
    · cases hscan : scanFactor f a.optarg with
      | none =>
        rw [Settings.put, convert_mismatch hb hscan] at h
        cases h
      | some x =>
        simp only [Arg.Readable, hk]
        refine ⟨by simp, by simp, fun f' hf => ?_, by simp⟩
        cases hf
        exact .inr ⟨x, hscan⟩
  | logFile =>
    simp only [Arg.Readable, hk]
    refine ⟨by simp, by simp, by simp, fun _ => ?_⟩
    by_contra hlen
    rw [Settings.put, strncpy, if_neg hlen] at h
    cases h

lemma Commanded.of_ignored (hk : a.key = none) (s : Settings D) : Commanded scanFactor [a] s s :=
  Commanded.of_unread (read_other (by simp [hk])) (fun _ => read_other (by simp [hk]))
    (fun _ => read_other (by simp [hk])) (readString_other (by simp [hk])) s

lemma parseOptions_of_readable (h : ∀ a ∈ args, a.Readable scanFactor) (s : Settings D) :
    ∃ t, parseOptions scanFactor s args = .ok (some t) ∧ Commanded scanFactor args s t := by
  induction args generalizing s with
  | nil => exact ⟨s, rfl, .refl s⟩
  | cons a args ih =>
    obtain ⟨ha, hargs⟩ := List.forall_mem_cons.mp h
    cases hk : a.key with
    | none =>
      obtain ⟨t, ht, hc⟩ := ih hargs s
      refine ⟨t, ?_, (Commanded.of_ignored hk s).cons hc⟩
      rw [parseOptions, hk]
      exact ht
    | some key =>
      obtain ⟨t, ht, hfirst⟩ := put_readable hk ha s
      obtain ⟨u, hu, hc⟩ := ih hargs t
      refine ⟨u, ?_, hfirst.cons hc⟩
      rw [parseOptions, hk]
      simp only [ht]
      exact hu

lemma readable_of_parseOptions (h : parseOptions scanFactor s args = .ok (some t)) :
    ∀ a ∈ args, a.Readable scanFactor := by
  induction args generalizing s with
  | nil => simp
  | cons a args ih =>
    rw [List.forall_mem_cons]
    rw [parseOptions] at h
    cases hk : a.key with
    | none =>
      rw [hk] at h
      exact ⟨by simp [Arg.Readable, hk], ih h⟩
    | some key =>
      rw [hk] at h
      cases hput : s.put scanFactor a.optarg key with
      | error fault =>
        simp only [hput] at h
        cases h
      | ok r =>
        cases r with
        | none =>
          simp only [hput] at h
          cases h
        | some u =>
          simp only [hput] at h
          exact ⟨readable_of_put hk hput, ih h⟩

end

/-- The settings that the command line stands for: the last value of each option, but that a size of the
segments overrides their number. -/
structure Overridden {D : Type} (scanFactor : ArgFactor → List UInt8 → Option D) (args : List Arg)
    (s s' : Settings D) : Prop where
  options : s'.options = s.options.setConnections
    ((lastRead (Arg.read .connections scanInt) args).getD (s.options.number .numConnections))
  segments : s'.number .numOfSegments =
    if (∃ a ∈ args, a.letter = 'i') ∧ ∃ a ∈ args, a.letter = 'S' then 0
    else (lastRead (Arg.read (.number .numOfSegments) scanInt) args).getD (s.number .numOfSegments)
  number : ∀ n, n ≠ .numOfSegments →
    s'.number n = (lastRead (Arg.read (.number n) n.scan) args).getD (s.number n)
  factor : ∀ f, s'.factor f = (lastRead (Arg.read (.factor f) (scanFactor f)) args).getD (s.factor f)
  logFile : s'.logFile = (lastRead Arg.readString args).getD s.logFile

section

variable {D : Type} {scanFactor : ArgFactor → List UInt8 → Option D} {s t : Settings D} {args : List Arg}

lemma Commanded.overridden (h : Commanded scanFactor args s t) : Overridden scanFactor args s
    (if (∃ a ∈ args, a.letter = 'i') ∧ ∃ a ∈ args, a.letter = 'S' then
      { t with number := Function.update t.number .numOfSegments 0 } else t) := by
  by_cases hboth : (∃ a ∈ args, a.letter = 'i') ∧ ∃ a ∈ args, a.letter = 'S'
  · rw [if_pos hboth]
    have hzero : Function.update t.number .numOfSegments 0 .numOfSegments = 0 := Function.update_self _ _ _
    refine ⟨h.options, ?_, fun n hn => ?_, h.factor, h.logFile⟩
    · rw [if_pos hboth]
      exact hzero
    · rw [← h.number]
      exact Function.update_of_ne hn _ _
  · rw [if_neg hboth]
    refine ⟨h.options, ?_, fun n _ => h.number n, h.factor, h.logFile⟩
    rw [if_neg hboth]
    exact h.number .numOfSegments

end

/-- `parse_args` succeeds exactly if each argument can be read, and then the last one of each option counts. -/
theorem last_option_counts {D : Type} (scanFactor : ArgFactor → List UInt8 → Option D) (s : Settings D)
    (args : List Arg) :
    (∃ s', parseArgs scanFactor s args = .ok (some s') ∧ Overridden scanFactor args s s') ↔
      ∀ a ∈ args, a.Readable scanFactor := by
  constructor
  · rintro ⟨s', hs, -⟩
    rw [parseArgs] at hs
    cases hp : parseOptions scanFactor s args with
    | error fault =>
      rw [hp] at hs
      cases hs
    | ok r =>
      cases r with
      | none =>
        rw [hp] at hs
        cases hs
      | some t => exact readable_of_parseOptions hp
  · intro h
    obtain ⟨t, ht, hc⟩ := parseOptions_of_readable h s
    refine ⟨_, ?_, hc.overridden⟩
    rw [parseArgs, ht]
    rfl

section

variable {getIfIp : List UInt8 → Option (List UInt8)} {junk : List UInt8}

lemma configured_refl (conf : Options) : Configured getIfIp junk (lastValue []) conf conf :=
  ⟨rfl, fun _ _ hv => (nomatch hv), fun _ _ => rfl, rfl, rfl, rfl⟩

lemma confLoadfile_safe {file : Option (List ConfLine)} (hs : SafeLines none (file.getD []))
    (hk : ∀ l, .option l ∈ file.getD [] → Known l.key) (key : List UInt8) (conf : Options) : ∃ conf',
      confLoadfile getIfIp junk key conf (file.map fileOf) = some (conf', true) ∧
        Configured getIfIp junk (lastValue (file.getD [])) conf conf' := by
  cases file with
  | none => exact ⟨conf, rfl, configured_refl conf⟩
  | some ls =>
    have hheld : HeldEarly none := fun key hkey => nomatch hkey
    have hright : EachRight getIfIp junk key ls := (eachRight_iff hheld ls).mpr hs key (by simp)
    obtain ⟨key', conf', hload, hconf⟩ := (loadLines_of_eachRight hright conf).1 hk
    refine ⟨conf', ?_, hconf⟩
    rw [Option.map_some, confLoadfile_fileOf, hload]
    rfl

end

/-- The command line counts before the file of the user, that one before the global one, and that one
before the defaults, whatever was in the buffers. -/
theorem settings_layered {D : Type} {scanFactor : ArgFactor → List UInt8 → Option D} {args : List Arg}
    {etc home : Option (List ConfLine)} (hetc : SafeLines none (etc.getD []))
    (hhome : SafeLines none (home.getD [])) (ketc : ∀ l, .option l ∈ etc.getD [] → Known l.key)
    (khome : ∀ l, .option l ∈ home.getD [] → Known l.key) (hargs : ∀ a ∈ args, a.Readable scanFactor)
    (getIfIp : List UInt8 → Option (List UInt8)) (junk key₁ key₂ : List UInt8) (factor : ArgFactor → D) :
    ∃ conf s, confInit getIfIp junk key₁ key₂ (etc.map fileOf) (home.map fileOf) = some (conf, true) ∧
      parseArgs scanFactor ⟨conf, defaultNumber, factor, text "log.txt"⟩ args = .ok (some s) ∧
      Configured getIfIp junk (fun k => (lastValue (home.getD []) k).or (lastValue (etc.getD []) k))
        defaultOptions conf ∧
      Overridden scanFactor args ⟨conf, defaultNumber, factor, text "log.txt"⟩ s := by
  obtain ⟨conf₁, hload₁, hconf₁⟩ := confLoadfile_safe hetc ketc key₁ defaultOptions
  obtain ⟨conf₂, hload₂, hconf₂⟩ := confLoadfile_safe hhome khome key₂ conf₁
  obtain ⟨t, ht, hc⟩ := parseOptions_of_readable hargs ⟨conf₂, defaultNumber, factor, text "log.txt"⟩
  refine ⟨conf₂, _, ?_, ?_, hconf₁.trans hconf₂, hc.overridden⟩
  · rw [confInit, hload₁]
    exact hload₂
  · rw [parseArgs, ht]
    rfl

def threeArgs : List Arg := [⟨'n', text "1"⟩, ⟨'i', text "8"⟩, ⟨'S', text "512"⟩]

lemma verboseLine_safe : SafeLines none [.option verboseLine] := by
  refine ⟨fun k hk => ?_, .inl rfl, fun _ => trivial⟩
  obtain rfl : k = .number .verbose := OptionKey.name_injective hk
  refine ⟨by decide, fun n hn => ?_⟩
  cases hn
  exact ⟨1, by decide, by decide⟩

lemma threeArgs_readable : ∀ a ∈ threeArgs, a.Readable fun _ _ => (none : Option ℚ) := by
  intro a ha
  simp only [threeArgs, List.mem_cons, List.not_mem_nil, or_false] at ha
  rcases ha with rfl | rfl | rfl
  · exact ⟨fun _ => .inr ⟨1, by decide, by decide⟩, fun _ h => (nomatch h), fun _ h => (nomatch h), by decide⟩
  · refine ⟨by decide, fun n h => ?_, fun _ h => (nomatch h), by decide⟩
    cases h
    exact .inr ⟨8, by decide, by decide⟩
  · refine ⟨by decide, fun n h => ?_, fun _ h => (nomatch h), by decide⟩
    cases h
    exact .inr ⟨512, by decide, by decide⟩

/-- A file of the user with one line, and a command line that asks for one connection, 8 segments and then
a size. -/
theorem settings_layered_of_files : ∃ conf s,
    confInit (fun _ => none) [] [] [] none (some (fileOf [.option verboseLine])) = some (conf, true) ∧
      parseArgs (fun _ _ => none) ⟨conf, defaultNumber, defaultFactor, text "log.txt"⟩ threeArgs =
        .ok (some s) ∧
      conf.number .verbose = 1 ∧ conf.number .numConnections = 2 ∧ s.options.number .numConnections = 1 ∧
      s.number .numOfSegments = 0 ∧ s.number .fixedSegmentSizeKB = 512 := by
  have hknown : ∀ l, .option l ∈ [ConfLine.option verboseLine] → Known l.key := by
    intro l hl
    simp only [List.mem_cons, ConfLine.option.injEq, List.not_mem_nil, or_false] at hl
    rw [hl]
    exact ⟨.number .verbose, rfl⟩
  obtain ⟨conf, s, hload, hparse, hconf, hs⟩ := @settings_layered ℚ (fun _ _ => none) threeArgs none
    (some [.option verboseLine]) trivial verboseLine_safe (fun l hl => absurd hl List.not_mem_nil) hknown
    threeArgs_readable (fun _ => none) [] [] [] defaultFactor
  have hone : scanInt (text "1") = some (conf.number .verbose) :=
    hconf.number .verbose (text "1") (by decide +kernel)
  have htwo : conf.number .numConnections = 2 := hconf.otherNumber .numConnections (by decide +kernel)
  refine ⟨conf, s, hload, hparse, (Option.some.inj hone).symm, htwo, ?_, ?_, ?_⟩
  · rw [hs.options, setConnections_number]
    rfl
  · rw [hs.segments, if_pos (by decide)]
  · rw [hs.number _ (by decide)]
    rfl

end GreenBag
