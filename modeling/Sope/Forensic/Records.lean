import Sope.Forensic.Args

/-! # The texts that the forensic tool puts together

The commands that `forensic.c` gives to the shell, and the record of a file: what `scanfile`, `getFileType`,
`getFileAccess`, `getCheckSum` and `timestampToISO` make of the results of their calls; and the lines of the
log. A string is the list of its characters, without the zero behind it. What is put together here is meant for
arrays of `MAXCHAR` characters, and may be too long for them. -/

namespace Sope.Forensic

/-! ## What the calls return -/

/-- The fields of `struct stat` that are used. -/
structure Stat where
  /-- `st_mode`. -/
  mode : UInt32
  /-- `st_size`. -/
  size : ℤ
  /-- `st_ctime`. -/
  ctime : ℤ
  /-- `st_mtime`. -/
  mtime : ℤ
  deriving DecidableEq

/-- `struct tm`, with the year and the month as they are written. -/
structure Tm where
  year : ℤ
  mon : ℕ
  mday : ℕ
  hour : ℕ
  min : ℕ
  sec : ℕ
  deriving DecidableEq

/-- What `"%f - %08d"` prints of a time and of the number of a process. -/
structure Stamp where
  text : Bytes
  short : text.length ≤ 64

/-- `fileSumType`. -/
inductive FileSumType
  | md5
  | sha1
  | sha256
  deriving DecidableEq

/-! ## Commands -/

/-- `"file \""`. -/
def fileTool : Bytes := [102, 105, 108, 101, 32, 34]

/-- `"md5sum \""`, `"sha1sum \""` or `"sha256sum \""`. -/
def FileSumType.tool : FileSumType → Bytes
  | .md5 => [109, 100, 53, 115, 117, 109, 32, 34]
  | .sha1 => [115, 104, 97, 49, 115, 117, 109, 32, 34]
  | .sha256 => [115, 104, 97, 50, 53, 54, 115, 117, 109, 32, 34]

/-- The command of `getFileType`. -/
def fileCommand (filename : Bytes) : Bytes := fileTool ++ filename ++ [34]

/-- The command of `getCheckSum`. -/
def sumCommand (type : FileSumType) (filename : Bytes) : Bytes := type.tool ++ filename ++ [34]

/-! ## Reading what a command has printed -/

/-- What `fgets(_, n, _)` reads of what is left: at most `n - 1` characters, and none behind a newline. -/
def firstLine (n : ℕ) (unread : Bytes) : Bytes :=
  let chars := unread.take (n - 1)
  chars.take ((chars.findIdx (· = 10)) + 1)

/-- `if (str[length - 1] == '\n') str[length - 1] = 0`. -/
def dropNewline (str : Bytes) : Bytes := if str.getLast? = some 10 then str.dropLast else str

/-- What `getFileType` makes of the string that it has read. -/
def cleanType (str : Bytes) : Bytes := (dropNewline str).map fun c => if c = 44 then 32 else c

/-- `length - strlen(filename) - 3`, the index of the character that `getCheckSum` sets to zero. -/
def cutIndex (str filename : Bytes) : ℤ := str.length - filename.length - 3

/-- What `getCheckSum` makes of the string that it has read. An index below zero is before the array: if the
process goes on, the string stays as it is. -/
def cutCheckSum (str filename : Bytes) : Bytes :=
  if 0 ≤ cutIndex str filename then (dropNewline str).take (cutIndex str filename).toNat
  else dropNewline str

/-! ## The fields of a record -/

/-- `%d` and `%ld`. -/
def formatInt (n : ℤ) : Bytes := if n < 0 then 45 :: decimal n.natAbs else decimal n.natAbs

/-- The bits of `st_mode` that `getFileAccess` tests, with the letters for them. -/
def accessLetters : List (UInt32 × UInt8) :=
  [(0o400, 114), (0o200, 119), (0o100, 120), (0o040, 114), (0o020, 119), (0o010, 120), (0o004, 114),
    (0o002, 119), (0o001, 120)]

/-- `getFileAccess`. -/
def getFileAccess (st : Stat) : Bytes :=
  accessLetters.map fun (bit, letter) => if st.mode &&& bit ≠ 0 then letter else 45

/-- `timestampToISO`, of a time that `localtime` has taken apart. -/
def timestampToISO (t : Tm) : Bytes :=
  formatInt t.year ++ [45] ++ zeroPadded 2 t.mon ++ [45] ++ zeroPadded 2 t.mday ++ [84]
    ++ zeroPadded 2 t.hour ++ [58] ++ zeroPadded 2 t.min ++ [58] ++ zeroPadded 2 t.sec

/-- `%s` of a null pointer. -/
def nullText : Bytes := [40, 110, 117, 108, 108, 41]

/-- What `sprintf` writes into `fileInfo`. -/
def fileInfo (localtime : ℤ → Tm) (filename : Bytes) (fileType : Option Bytes) (st : Stat) : Bytes :=
  [44].intercalate [filename, fileType.getD nullText, formatInt st.size, getFileAccess st,
    timestampToISO (localtime st.ctime), timestampToISO (localtime st.mtime)]

/-! ## Messages -/

/-- `logType`. -/
inductive LogType
  | command
  | sigReceive
  | fileScan
  deriving DecidableEq

/-- `"COMMAND"`, `"SIGNAL"` or `"ANALYZED"`. -/
def LogType.name : LogType → Bytes
  | .command => [67, 79, 77, 77, 65, 78, 68]
  | .sigReceive => [83, 73, 71, 78, 65, 76]
  | .fileScan => [65, 78, 65, 76, 89, 90, 69, 68]

/-- What `sprintf` writes into `logLine`. -/
def logLine (stamp : Stamp) (type : LogType) (act : Bytes) : Bytes :=
  stamp.text ++ [32, 45, 32] ++ type.name ++ [32] ++ act ++ [10]

/-- `"New directory: "`. -/
def newDirectory : Bytes := [78, 101, 119, 32, 100, 105, 114, 101, 99, 116, 111, 114, 121, 58, 32]

/-- `"New file: "`. -/
def newFile : Bytes := [78, 101, 119, 32, 102, 105, 108, 101, 58, 32]

/-- `" directories/files at this time \n"`. -/
def atThisTime : Bytes :=
  [32, 100, 105, 114, 101, 99, 116, 111, 114, 105, 101, 115, 47, 102, 105, 108, 101, 115, 32, 97, 116, 32,
    116, 104, 105, 115, 32, 116, 105, 109, 101, 32, 10]

/-- What the handlers of `SIGUSR1` and `SIGUSR2` print. -/
def counterText (message : Bytes) (numDirs numFiles : ℕ) : Bytes :=
  message ++ decimal numDirs ++ [47] ++ decimal numFiles ++ atThisTime

/-- `"USR1"`. -/
def usr1Name : Bytes := [85, 83, 82, 49]

/-- `"USR2"`. -/
def usr2Name : Bytes := [85, 83, 82, 50]

/-- `": command failed"`. -/
def commandFailed : Bytes := [58, 32, 99, 111, 109, 109, 97, 110, 100, 32, 102, 97, 105, 108, 101, 100]

/-- `"Error creating child process\n"`. -/
def errorCreatingChild : Bytes :=
  [69, 114, 114, 111, 114, 32, 99, 114, 101, 97, 116, 105, 110, 103, 32, 99, 104, 105, 108, 100, 32, 112,
    114, 111, 99, 101, 115, 115, 10]

/-- `"%s/%s"`. -/
def joined (dirname name : Bytes) : Bytes := dirname ++ [47] ++ name

end Sope.Forensic
