import Mathlib.Data.List.Infix
import Sope.Bank.Types
import Mathlib.Data.List.DropRight

/-! # The arguments of the forensic tool

`processArgs` of `forensic.c`. The loop over the arguments ends before the last one, but its branches for
`-h` and `-o` also use up the argument behind, which may be the last one. The test that should find a
missing operand compares the index with a bound that the loop never reaches.

* `processArgs` — the function, with the files that it has opened for writing.
* `KeptApart` — the arguments are complete options and a path, and the result says so.
* `kept_apart_iff` — when this is so. -/

namespace Sope.Forensic

/-! ## Names -/

/-- `"-r"`. -/
def optionR : Bytes := [45, 114]

/-- `"-h"`. -/
def optionH : Bytes := [45, 104]

/-- `"-o"`. -/
def optionO : Bytes := [45, 111]

/-- `"-v"`. -/
def optionV : Bytes := [45, 118]

/-- `"md5"`. -/
def md5Name : Bytes := [109, 100, 53]

/-- `"sha1"`. -/
def sha1Name : Bytes := [115, 104, 97, 49]

/-- `"sha256"`. -/
def sha256Name : Bytes := [115, 104, 97, 50, 53, 54]

/-- `strstr(s, name) != NULL`. -/
def strstr (s name : Bytes) : Bool := decide (name <:+: s)

/-! ## `processArgs` -/

/-- `MAXCHAR`. -/
def maxChar : ℕ := 1000

/-- `forensicArgs`; `none` is a null pointer. -/
structure ForensicArgs where
  r : Bool
  h : Bool
  md5 : Bool
  sha1 : Bool
  sha256 : Bool
  v : Bool
  o : Bool
  isDir : Bool
  path : Option Bytes
  logFilePath : Option Bytes
  outFilePath : Option Bytes
  /-- The whole command; `none` as long as the array does not hold it. -/
  command : Option Bytes
  deriving DecidableEq

/-- The static variable `args` when the program starts. -/
def zeroArgs : ForensicArgs where
  r := false
  h := false
  md5 := false
  sha1 := false
  sha256 := false
  v := false
  o := false
  isDir := false
  path := none
  logFilePath := none
  outFilePath := none
  command := none

/-- What `stat` finds at a path. -/
inductive PathKind
  | regular
  | directory
  | other
  deriving DecidableEq

/-- What the program runs in. The files that it has opened for writing may matter to what it finds later. -/
structure Surroundings where
  /-- Whether `fopen(path, "w")` succeeds. -/
  fopen : List Bytes → Bytes → Bool
  /-- `getenv("LOGFILENAME")`. -/
  logFileName : Option Bytes
  /-- What `stat` finds, if it succeeds. -/
  stat : List Bytes → Bytes → Option PathKind

/-- Why the program ends with `exit`. -/
inductive Refusal
  | usage
  | noHash
  | outFile
  | noLogFileName
  | logFile
  | unrecognized
  | noPath
  | notDirectoryOrFile
  deriving DecidableEq

/-- The argument of `exit`. -/
def Refusal.status : Refusal → ℕ
  | .usage => 1
  | .noHash => 2
  | .outFile => 4
  | .noLogFileName => 5
  | .logFile => 6
  | .unrecognized => 7
  | .noPath => 8
  | .notDirectoryOrFile => 9

/-- What `processArgs` has found so far, and the files that it has opened for writing, and so emptied. -/
structure Parsing where
  args : ForensicArgs
  emptied : List Bytes
  deriving DecidableEq

/-- The arguments after `-h` with an operand. -/
def ForensicArgs.withHash (args : ForensicArgs) (operand : Bytes) : ForensicArgs :=
  { args with
    h := true
    md5 := args.md5 || strstr operand md5Name
    sha1 := args.sha1 || strstr operand sha1Name
    sha256 := args.sha256 || strstr operand sha256Name }

/-- The loop of `processArgs`, from an index on. It goes on while there is an argument behind the one at the
index. -/
def processOptions (around : Surroundings) : List Bytes → Parsing → Except Refusal Parsing
  | arg :: next :: rest, s =>
      if arg = optionR then
        processOptions around (next :: rest) { s with args := { s.args with r := true } }
      else if arg = optionH then
        let args := s.args.withHash next
        if !args.md5 && !args.sha1 && !args.sha256 then throw .noHash
        else processOptions around rest { s with args }
      else if arg = optionO then
        -- `i == argc - 1` is false here: `next` is there
        let args := { s.args with o := true, outFilePath := some next }
        if around.fopen s.emptied next then
          processOptions around rest ⟨args, s.emptied ++ [next]⟩
        else throw .outFile
      else if arg = optionV then
        match around.logFileName with
        | none => throw .noLogFileName
        | some logFile =>
            let args := { s.args with v := true, logFilePath := some logFile }
            if around.fopen s.emptied logFile then
              processOptions around (next :: rest) ⟨args, s.emptied ++ [logFile]⟩
            else throw .logFile
      else throw .unrecognized
  | _, s => pure s

/-- The arguments joined with blanks, if they fit into an array of `MAXCHAR` characters. -/
def commandOf (argv : List Bytes) : Option Bytes :=
  let command := [32].intercalate argv
  if command.length < maxChar then some command else none

/-- `processArgs`. -/
def processArgs (around : Surroundings) (args : ForensicArgs) (argv : List Bytes) :
    Except Refusal Parsing :=
  let args := { args with
    r := false
    h := false
    md5 := false
    sha1 := false
    sha256 := false
    o := false
    logFilePath := none
    outFilePath := none
    path := none }
  if argv.length < 2 then throw .usage
  else do
    let s ← processOptions around argv.tail ⟨args, []⟩
    let pathname := argv.getLastD []
    match around.stat s.emptied pathname with
    | none => throw .noPath
    | some .other => throw .notDirectoryOrFile
    | some kind => return { s with args := { s.args with
        isDir := s.args.isDir || kind = .directory
        path := some pathname
        command := commandOf argv } }

/-! ## Options and operands -/

/-- An option with its operand. -/
inductive CommandOption
  | r
  | v
  | h (operand : Bytes)
  | o (operand : Bytes)
  deriving DecidableEq

namespace CommandOption

/-- The arguments that an option consists of. -/
def words : CommandOption → List Bytes
  | .r => [optionR]
  | .v => [optionV]
  | .h operand => [optionH, operand]
  | .o operand => [optionO, operand]

/-- The output file that an option names. -/
def outFile : CommandOption → Option Bytes
  | .o operand => some operand
  | _ => none

/-- The files that an option has opened for writing. -/
def opened (logFileName : Option Bytes) : CommandOption → Option Bytes
  | .o operand => some operand
  | .v => logFileName
  | _ => none

end CommandOption

/-- The arguments are those that a list of options gives. -/
structure Given (options : List CommandOption) (args : ForensicArgs) : Prop where
  r : args.r = true ↔ .r ∈ options
  h : args.h = true ↔ ∃ operand, .h operand ∈ options
  md5 : args.md5 = true ↔ ∃ operand, .h operand ∈ options ∧ md5Name <:+: operand
  sha1 : args.sha1 = true ↔ ∃ operand, .h operand ∈ options ∧ sha1Name <:+: operand
  sha256 : args.sha256 = true ↔ ∃ operand, .h operand ∈ options ∧ sha256Name <:+: operand
  o : args.o = true ↔ ∃ operand, .o operand ∈ options
  v : args.v = true ↔ .v ∈ options
  outFilePath : args.outFilePath = (options.filterMap CommandOption.outFile).getLast?

/-- The arguments are complete options and a path. The result is what these give, and nothing but the
output files among them and the log file has been opened for writing. -/
def KeptApart (around : Surroundings) (argv : List Bytes) (s : Parsing) : Prop :=
  ∃ name options path, argv = name :: (options.flatMap CommandOption.words ++ [path]) ∧
    Given options s.args ∧ s.args.path = some path ∧
    s.emptied = options.filterMap (CommandOption.opened around.logFileName)

/-- An option that has an operand. -/
def takesOperand (arg : Bytes) : Bool := arg = optionH ∨ arg = optionO

/-- The number of the options with an operand one after the other right before the last argument. -/
def optionsBeforePath (argv : List Bytes) : ℕ := (argv.tail.dropLast.rtakeWhile takesOperand).length

/-! ## What the loop does -/

section

variable {around : Surroundings}

/-- What the loop does for an option, when nothing makes it end. -/
def note (logFileName : Option Bytes) (s : Parsing) (option : CommandOption) : Parsing :=
  ⟨match option with
    | .r => { s.args with r := true }
    | .v => { s.args with v := true, logFilePath := logFileName }
    | .h operand => s.args.withHash operand
    | .o operand => { s.args with o := true, outFilePath := some operand },
  s.emptied ++ (option.opened logFileName).toList⟩

/-- What the loop has done when it ends: the arguments were options with their operands and a last one, or
the last one has been taken for the operand of an option. -/
inductive Ended (around : Surroundings) (words : List Bytes) (s s' : Parsing) : Prop
  | complete (options : List CommandOption) (path : Bytes)
      (split : words = options.flatMap CommandOption.words ++ [path])
      (done : s' = options.foldl (note around.logFileName) s)
  | usedUp (options : List CommandOption) (arg path : Bytes) (operand : takesOperand arg)
      (split : words = options.flatMap CommandOption.words ++ [arg, path])

/-- An option in front. -/
theorem Ended.cons {words rest : List Bytes} {s s₁ s' : Parsing} (option : CommandOption)
    (hwords : words = option.words ++ rest) (hs₁ : s₁ = note around.logFileName s option)
    (h : Ended around rest s₁ s') : Ended around words s s' := by
  subst hwords
  subst hs₁
  cases h with
  | complete options path split done =>
      exact .complete (option :: options) path (by rw [split, List.flatMap_cons, List.append_assoc]) done
  | usedUp options arg path operand split =>
      exact .usedUp (option :: options) arg path operand (by rw [split, List.flatMap_cons, List.append_assoc])

/-- An operand in the place of the last argument. -/
theorem Ended.of_operand {arg next : Bytes} {rest : List Bytes} {s s₁ s' : Parsing}
    (option : CommandOption) (hwords : option.words = [arg, next]) (harg : takesOperand arg)
    (hs₁ : s₁ = note around.logFileName s option)
    (h : rest ≠ [] → Ended around rest s₁ s') : Ended around (arg :: next :: rest) s s' := by
  cases rest with
  | nil => exact .usedUp [] arg next harg rfl
  | cons word rest =>
      refine Ended.cons option ?_ hs₁ (h (List.cons_ne_nil _ _))
      rw [hwords]
      rfl

/-- The loop ends in one of the two ways. -/
theorem ended_of_processOptions {words : List Bytes} {s s' : Parsing}
    (h : processOptions around words s = .ok s') (hwords : words ≠ []) : Ended around words s s' := by
  fun_induction processOptions around words s with
  | case1 next rest s ih =>
      refine Ended.cons .r rfl ?_ (ih h (List.cons_ne_nil _ _))
      exact congrArg (Parsing.mk _) (List.append_nil s.emptied).symm
  | case3 next rest s args hnone _ ih =>
      refine Ended.of_operand (.h next) rfl rfl ?_ (ih h)
      exact congrArg (Parsing.mk _) (List.append_nil s.emptied).symm
  | case4 next rest s args hopen _ _ ih => exact Ended.of_operand (.o next) rfl rfl rfl (ih h)
  | case7 next rest s logFile hlog args hopen _ _ _ ih =>
      refine Ended.cons .v rfl ?_ (ih h (List.cons_ne_nil _ _))
      rw [hlog]
      rfl
  | case10 words s hshort =>
      match words, hwords with
      | [path], _ => exact .complete [] path rfl (Except.ok.inj h).symm
      | arg :: next :: rest, _ => exact (hshort arg next rest rfl).elim
  | _ => nomatch h

/-! ## What the options give -/

/-- One more option. -/
theorem Given.note {options : List CommandOption} {s : Parsing} (h : Given options s.args)
    (logFileName : Option Bytes) (option : CommandOption) :
    Given (options ++ [option]) (note logFileName s option).args := by
  obtain ⟨hr, hh, hmd5, hsha1, hsha256, ho, hv, hout⟩ := h
  cases option with
  | r => constructor <;> simp [Forensic.note, CommandOption.outFile, *]
  | v => constructor <;> simp [Forensic.note, CommandOption.outFile, *]
  | h operand =>
      constructor <;>
        simp [Forensic.note, CommandOption.outFile, ForensicArgs.withHash, strstr, or_and_right,
          exists_or, *]
  | o operand => constructor <;> simp [Forensic.note, CommandOption.outFile, *]

/-- The options give what the loop has noted, from the arguments of the beginning on. -/
theorem Given.foldl {s : Parsing} (h : Given [] s.args) (logFileName : Option Bytes)
    (options : List CommandOption) : Given options (options.foldl (Forensic.note logFileName) s).args := by
  induction options using List.reverseRecOn with
  | nil => exact h
  | append_singleton options option ih =>
      rw [List.foldl_append]
      exact ih.note logFileName option

/-- The files that the loop has opened for writing are those of the options. -/
theorem emptied_foldl (logFileName : Option Bytes) (options : List CommandOption) (s : Parsing) :
    (options.foldl (note logFileName) s).emptied
      = s.emptied ++ options.filterMap (CommandOption.opened logFileName) := by
  induction options generalizing s with
  | nil => exact (List.append_nil _).symm
  | cons option options ih =>
      rw [List.foldl_cons, ih, List.filterMap_cons]
      unfold note
      cases option.opened logFileName with
      | none => simp
      | some file => simp

/-! ## How many options are right before the path -/

/-- Two more arguments, of which the first has an operand, leave the number even. -/
theorem even_rtakeWhile_pair {words : List Bytes} (h : Even (words.rtakeWhile takesOperand).length)
    {arg : Bytes} (harg : takesOperand arg) (operand : Bytes) :
    Even ((words ++ [arg, operand]).rtakeWhile takesOperand).length := by
  rw [List.append_cons words arg [operand]]
  by_cases hoperand : takesOperand operand
  · rw [List.rtakeWhile_concat_pos _ _ _ hoperand, List.rtakeWhile_concat_pos _ _ _ harg]
    simpa [Nat.even_add_one] using h
  · rw [List.rtakeWhile_concat_neg _ _ _ hoperand]
    exact ⟨0, rfl⟩

/-- Behind complete options there is an even number of them. -/
theorem even_rtakeWhile_words (options : List CommandOption) :
    Even ((options.flatMap CommandOption.words).rtakeWhile takesOperand).length := by
  induction options using List.reverseRecOn with
  | nil => exact ⟨0, rfl⟩
  | append_singleton options option ih =>
      rw [List.flatMap_append, List.flatMap_singleton]
      cases option with
      | r | v =>
          rw [CommandOption.words, List.rtakeWhile_concat_neg _ _ _ (by decide)]
          exact ⟨0, rfl⟩
      | h operand | o operand => exact even_rtakeWhile_pair ih rfl operand

/-- If the arguments are complete options and a path, the number is even. -/
theorem even_optionsBeforePath (name : Bytes) (options : List CommandOption) (path : Bytes) :
    Even (optionsBeforePath (name :: (options.flatMap CommandOption.words ++ [path]))) := by
  rw [optionsBeforePath, List.tail_cons, List.dropLast_concat]
  exact even_rtakeWhile_words options

/-- If the path has been taken for an operand, it is odd. -/
theorem not_even_optionsBeforePath (name : Bytes) (options : List CommandOption) {arg : Bytes}
    (harg : takesOperand arg) (path : Bytes) :
    ¬ Even (optionsBeforePath (name :: (options.flatMap CommandOption.words ++ [arg, path]))) := by
  rw [optionsBeforePath, List.tail_cons, List.append_cons _ arg [path], List.dropLast_concat,
    List.rtakeWhile_concat_pos _ _ _ harg, List.length_append, List.length_singleton, Nat.even_add_one,
    not_not]
  exact even_rtakeWhile_words options

end

/-! ## When they are kept apart -/

/-- The arguments before the loop. -/
theorem given_zeroArgs : Given [] { zeroArgs with path := none } := by
  constructor <;> simp [zeroArgs]

/-- What the loop and the path make of a result. -/
theorem ended_of_processArgs {around : Surroundings} {argv : List Bytes} {s : Parsing}
    (h : processArgs around zeroArgs argv = .ok s) :
    ∃ name words s₁, argv = name :: words ∧ Ended around words ⟨zeroArgs, []⟩ s₁ ∧
      s.args.path = some (words.getLastD []) ∧ s.emptied = s₁.emptied ∧
      ∀ options, Given options s₁.args → Given options s.args := by
  unfold processArgs at h
  split at h
  · nomatch h
  next hlength =>
    match argv, hlength with
    | name :: word :: words, _ =>
        cases hloop : processOptions around (word :: words) ⟨zeroArgs, []⟩ with
        | error refusal =>
            change (processOptions around (word :: words) ⟨zeroArgs, []⟩ >>= _) = _ at h
            rw [hloop] at h
            nomatch h
        | ok s₁ =>
            change (processOptions around (word :: words) ⟨zeroArgs, []⟩ >>= _) = _ at h
            rw [hloop] at h
            change (match around.stat s₁.emptied _ with | none => _ | some .other => _ | some kind => _)
              = _ at h
            refine ⟨name, word :: words, s₁, rfl,
              ended_of_processOptions hloop (List.cons_ne_nil _ _), ?_⟩
            split at h
            · nomatch h
            · nomatch h
            · cases h
              exact ⟨rfl, rfl, fun options hgiven => ⟨hgiven.r, hgiven.h, hgiven.md5, hgiven.sha1,
                hgiven.sha256, hgiven.o, hgiven.v, hgiven.outFilePath⟩⟩
    | [], hlength | [_], hlength => exact (hlength (by simp)).elim

/-- Arguments that are kept apart. -/
theorem even_of_keptApart {around : Surroundings} {argv : List Bytes} {s : Parsing}
    (h : KeptApart around argv s) : Even (optionsBeforePath argv) := by
  obtain ⟨name, options, path, rfl, _⟩ := h
  exact even_optionsBeforePath name options path

/-- When `processArgs` returns, the arguments before the last one are complete options, and the result is what
these say, exactly if an even number of options with an operand are right before the path. -/
theorem kept_apart_iff (around : Surroundings) (argv : List Bytes) (s : Parsing)
    (h : processArgs around zeroArgs argv = .ok s) :
    KeptApart around argv s ↔ Even (optionsBeforePath argv) := by
  constructor
  · exact even_of_keptApart
  · intro heven
    obtain ⟨name, words, s₁, rfl, hended, hpath, hemptied, hgiven⟩ := ended_of_processArgs h
    cases hended with
    | complete options path split done =>
        subst split
        subst done
        refine ⟨name, options, path, rfl, hgiven options ?_, ?_, ?_⟩
        · exact given_zeroArgs.foldl (s := ⟨zeroArgs, []⟩) around.logFileName options
        · rw [hpath, List.getLastD_concat]
        · rw [hemptied, emptied_foldl, List.nil_append]
    | usedUp options arg path operand split =>
        subst split
        exact (not_even_optionsBeforePath name options operand path heven).elim

/-- A file system in which `evidence` is a regular file and every file can be written. -/
def evidenceRoom : Surroundings where
  fopen := fun _ _ => true
  logFileName := none
  stat := fun _ _ => some .regular

/-- `"forensic"`. -/
def forensicName : Bytes := [102, 111, 114, 101, 110, 115, 105, 99]

/-- `"evidence"`. -/
def evidence : Bytes := [101, 118, 105, 100, 101, 110, 99, 101]

/-- `"report"`. -/
def reportFile : Bytes := [114, 101, 112, 111, 114, 116]

/-- `forensic -r -h md5 -o report evidence`. -/
theorem kept_apart_evidence :
    ∃ s, processArgs evidenceRoom zeroArgs
        [[], optionR, optionH, md5Name, optionO, reportFile, evidence] = .ok s ∧
      (KeptApart evidenceRoom [[], optionR, optionH, md5Name, optionO, reportFile, evidence] s ↔
        Even (optionsBeforePath [[], optionR, optionH, md5Name, optionO, reportFile, evidence])) :=
  ⟨_, rfl, kept_apart_iff _ _ _ rfl⟩

/-- `forensic -o evidence` empties the file that it then analyses. -/
theorem exists_evidence_emptied :
    ∃ s, processArgs evidenceRoom zeroArgs [[], optionO, evidence] = .ok s ∧
      s.args.path = some evidence ∧ s.emptied = [evidence] ∧
      ¬ KeptApart evidenceRoom [[], optionO, evidence] s := by
  refine ⟨_, rfl, rfl, rfl, ?_⟩
  intro h
  exact absurd (even_of_keptApart h) (by decide)

end Sope.Forensic
