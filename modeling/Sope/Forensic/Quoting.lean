import Sope.Shell.Words
import Sope.Forensic.Calls

/-! # File names in commands

`getFileType` and `getCheckSum` put double quotes around a path and give the command to the shell. The path
comes out as one word, unchanged, exactly if it is literal between double quotes (`isData_iff`). A directory
entry comes to both functions as `dirname/name`. -/

namespace Sope.Forensic

open Concurrency Shell

/-! ## The commands -/

/-- `"file"`. -/
def fileWord : Bytes := [102, 105, 108, 101]

/-- `"md5sum"`, `"sha1sum"` or `"sha256sum"`. -/
def FileSumType.word : FileSumType → Bytes
  | .md5 => [109, 100, 53, 115, 117, 109]
  | .sha1 => [115, 104, 97, 49, 115, 117, 109]
  | .sha256 => [115, 104, 97, 50, 53, 54, 115, 117, 109]

/-- All commands that the program gives to the shell are this tool's, with the path as the only argument. -/
def GivesTo {α : Type} (lenient : Bool) (tool path : Bytes) (p : Proc α) : Prop :=
  p.Calls fun o => ∀ command, o = .popen command → simpleCommand lenient command = some [tool, path]

/-- The path is only data for the shell, in all four commands. -/
structure IsData (lenient : Bool) (path : Bytes) : Prop where
  fileType : GivesTo lenient fileWord path (getFileType path)
  checkSum : ∀ type, GivesTo lenient type.word path (getCheckSum path type)

variable {lenient : Bool} {path : Bytes}

/-- The shell's reading of the command of `getFileType`. -/
theorem simpleCommand_fileCommand : simpleCommand lenient (fileCommand path) =
    (words lenient .double (some []) (path ++ [34])).map ([fileWord] ++ ·) := by
  simp [simpleCommand, fileCommand, fileTool, fileWord, words, push, blanks, specials]

/-- The shell's reading of a command of `getCheckSum`. -/
theorem simpleCommand_sumCommand (type : FileSumType) : simpleCommand lenient (sumCommand type path) =
    (words lenient .double (some []) (path ++ [34])).map ([type.word] ++ ·) := by
  cases type <;>
    simp [simpleCommand, sumCommand, FileSumType.tool, FileSumType.word, words, push, blanks, specials]

/-- A tool and a path in double quotes. -/
theorem map_words_double_iff (tool : Bytes) :
    (words lenient .double (some []) (path ++ [34])).map ([tool] ++ ·) = some [tool, path] ↔
      Literal lenient path := by
  rw [← words_double_iff]
  constructor
  · intro h
    obtain ⟨ws, hws, hcons⟩ := Option.map_eq_some_iff.mp h
    have htail : ws = [path] := (List.cons.inj hcons).2
    rw [hws, htail]
  · intro h
    rw [h]
    rfl

/-! ## The calls -/

/-- The other calls give nothing to the shell. -/
theorem ne_popen_of_fetches {o : Call} (ho : o.fetches = true) (command : Bytes) : o ≠ .popen command := by
  rintro rfl
  cases ho

/-- What is called after something has been written into an array. -/
theorem calls_of_within {b : Prop} [Decidable b] {P : Call → Prop} {α : Type} {k : Unit → Proc α}
    (h : (within b >>= k : Proc α).Calls P) : (k ()).Calls P := by
  unfold within at h
  split at h
  · exact h
  · exact h.2 true

/-- `getFileType` calls `popen` once. -/
theorem givesTo_getFileType {tool : Bytes} : GivesTo lenient tool path (getFileType path) ↔
    simpleCommand lenient (fileCommand path) = some [tool, path] := by
  constructor
  · intro h
    exact (calls_of_within (h.2 [])).1 _ rfl
  · intro h
    refine calls_getFileType (fun o ho command hc => (ne_popen_of_fetches ho command hc).elim) ?_
    intro command hc
    rwa [← Call.popen.inj hc]

/-- `getCheckSum` calls `popen` once. -/
theorem givesTo_getCheckSum {tool : Bytes} {type : FileSumType} :
    GivesTo lenient tool path (getCheckSum path type) ↔
      simpleCommand lenient (sumCommand type path) = some [tool, path] := by
  constructor
  · intro h
    exact (calls_of_within (h.2 [])).1 _ rfl
  · intro h
    refine calls_getCheckSum (fun o ho command hc => (ne_popen_of_fetches ho command hc).elim) ?_
    intro command hc
    rwa [← Call.popen.inj hc]

/-- **A path is only data for the shell exactly if it is literal between double quotes.** -/
theorem isData_iff (lenient : Bool) (path : Bytes) : IsData lenient path ↔ Literal lenient path := by
  constructor
  · intro h
    have hfile := givesTo_getFileType.mp h.fileType
    rw [simpleCommand_fileCommand] at hfile
    exact (map_words_double_iff fileWord).mp hfile
  · intro h
    refine ⟨givesTo_getFileType.mpr ?_, fun type => givesTo_getCheckSum.mpr ?_⟩
    · rw [simpleCommand_fileCommand]
      exact (map_words_double_iff fileWord).mpr h
    · rw [simpleCommand_sumCommand]
      exact (map_words_double_iff type.word).mpr h

/-- The name of a directory entry, `$(a)`. -/
def substitution : Bytes := [36, 40, 97, 41]

/-- The shell runs the command in the name of this file, in the directory `d`. -/
theorem exists_not_isData : ∃ dirname name : Bytes, 0 ∉ name ∧ 47 ∉ name ∧
    ∀ lenient, ¬ IsData lenient (joined dirname name) := by
  refine ⟨[100], substitution, by decide, by decide, fun lenient h => ?_⟩
  have hfile := givesTo_getFileType.mp h.fileType
  cases lenient <;> exact absurd hfile (by decide)

end Sope.Forensic
