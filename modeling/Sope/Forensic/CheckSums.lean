import Sope.Forensic.Processes

/-! # The checksum that is cut out of a line

`getCheckSum` reads the line of the tool with `fgets(str, 200, fp)`, so at most 199 characters of it, but it
computes where the digest ends from the length of the string as if it had read the whole line.

* `PrintsDigests` — what the tools print.
* `ExtractsDigest` — `getCheckSum` returns the digest, and the character that it sets to zero is one that it
  has read.
* `extracts_digest_iff` — when this is so. -/

namespace Sope.Forensic

open Concurrency

/-! ## What the tools print -/

/-- The number of digits of a digest. -/
def FileSumType.digestLength : FileSumType → ℕ
  | .md5 => 32
  | .sha1 => 40
  | .sha256 => 64

/-- A hexadecimal digit. -/
def isHexDigit (c : UInt8) : Bool := (48 ≤ c ∧ c ≤ 57) ∨ (97 ≤ c ∧ c ≤ 102)

/-- The end of a string, a newline, and the characters that are special between double quotes. -/
def specialChars : List UInt8 := [0, 10, 34, 36, 92, 96]

/-- A path that the shell and the tools take as it is. -/
def Plain (path : Bytes) : Prop := ∀ c ∈ path, c ∉ specialChars

instance (path : Bytes) : Decidable (Plain path) := List.decidableBAll _ path

/-- `md5sum`, `sha1sum` and `sha256sum` print the digest, two blanks, the path and a newline. -/
structure PrintsDigests (shell : Bytes → Bytes) (digest : FileSumType → Bytes → Bytes) : Prop where
  output : ∀ type path, Plain path →
    shell (sumCommand type path) = digest type path ++ [32, 32] ++ path ++ [10]
  length : ∀ type path, (digest type path).length = type.digestLength
  hex : ∀ type path, ∀ c ∈ digest type path, isHexDigit c = true

/-- The digest is what `getCheckSum` returns, if `popen` succeeds, and the index that it writes at is in the
string that `fgets` has read. -/
structure ExtractsDigest (world : World) (args : ForensicArgs) (entries : Entries) (digest : Bytes)
    (type : FileSumType) (path : Bytes) : Prop where
  returns : ∀ pid st, Ready st → ∃ tr st',
    (forensic world args entries).Executes pid (getCheckSum path type) st tr (some digest) st'
  only : ∀ pid st tr str st',
    (forensic world args entries).Executes pid (getCheckSum path type) st tr (some str) st' → str = digest
  index_nonneg : 0 ≤ cutIndex (firstLine 200 (world.shell (sumCommand type path))) path
  index_lt : cutIndex (firstLine 200 (world.shell (sumCommand type path))) path
    < (firstLine 200 (world.shell (sumCommand type path))).length

/-! ## The calls of `getCheckSum` -/

section

variable {world : World} {args : ForensicArgs} {entries : Entries} {type : FileSumType} {path : Bytes}

/-- A call that succeeds, and what can be executed after it. -/
theorem exists_executes_call {α : Type} {pid : ℕ} {o : Call} {k : o.Res → Proc α} {st st' : State}
    {r : o.Res} {a : α} (hready : Ready st) (hperform : o.perform world pid st = some (r, st'))
    (h : ∃ tr st'', (forensic world args entries).Executes pid (k r) st' tr a st'') :
    ∃ tr st'', (forensic world args entries).Executes pid (.op (.call o) k) st tr a st'' := by
  obtain ⟨tr, st'', h⟩ := h
  exact ⟨_, st'', .call ⟨hready, .inl hperform⟩ h⟩

/-- What can be executed behind the writing into an array. -/
theorem exists_executes_within {α : Type} {pid : ℕ} {b : Prop} [Decidable b] {k : Unit → Proc α} {st : State}
    {a : α} (hb : b) (h : ∃ tr st', (forensic world args entries).Executes pid (k ()) st tr a st') :
    ∃ tr st', (forensic world args entries).Executes pid (within b >>= k) st tr a st' := by
  rw [within_of hb]
  exact h

/-- The string that `getCheckSum` makes of what the command prints. -/
def checkSumOf (world : World) (type : FileSumType) (path : Bytes) : Bytes :=
  cutCheckSum (cString (firstLine 200 (world.shell (sumCommand type path)))) path

/-- `getCheckSum` can return this string, if it writes within its arrays. -/
theorem executes_getCheckSum (hfits : (sumCommand type path).length < maxChar)
    (hindex : 0 ≤ cutIndex (cString (firstLine 200 (world.shell (sumCommand type path)))) path)
    (hprints : world.shell (sumCommand type path) ≠ []) (pid : ℕ) {st : State} (hready : Ready st) :
    ∃ tr st', (forensic world args entries).Executes pid (getCheckSum path type) st tr
      (some (checkSumOf world type path)) st' := by
  refine exists_executes_call hready rfl ?_
  refine exists_executes_within hfits ?_
  refine exists_executes_call (o := .popen (sumCommand type path))
    (r := (some st.1.fds.lowest : Option ℕ)) hready rfl ?_
  refine exists_executes_call hready (if_neg hprints) ?_
  refine exists_executes_within (b := 0 ≤ cutIndex (cString (firstLine 200 (world.shell _))) path) hindex ?_
  exact exists_executes_call hready rfl ⟨_, _, .ret _ _⟩

/-- If it returns a string, then it is this one. -/
theorem eq_checkSumOf (hprints : world.shell (sumCommand type path) ≠ []) {pid : ℕ} {st st' : State}
    {tr : List Event} {str : Bytes}
    (h : (forensic world args entries).Executes pid (getCheckSum path type) st tr (some str) st') :
    str = checkSumOf world type path := by
  obtain ⟨memory, st₁, tr₁, -, h, -⟩ := Forking.executes_call.mp h
  obtain ⟨_, _, _, _, -, h, -⟩ := Forking.Executes.of_bind (p := put (sumCommand type path)) h
  obtain ⟨stream, st₂, tr₂, ⟨-, hpopen⟩, h, -⟩ := Forking.executes_call.mp h
  cases stream with
  | none =>
      obtain ⟨_, st₃, tr₃, -, h, -⟩ := Forking.executes_call.mp h
      exact nomatch (Forking.executes_ret.mp h).2.1
  | some stream =>
      have hunread : st₂.1.unread = world.shell (sumCommand type path) := by
        rcases hpopen with hpopen | ⟨hnone, -⟩
        · obtain ⟨-, rfl⟩ := Prod.mk.inj (Option.some.inj hpopen)
          rfl
        · nomatch hnone
      obtain ⟨line, st₃, tr₃, ⟨-, hline⟩, h, -⟩ := Forking.executes_call.mp h
      have hline : line = some (firstLine 200 (world.shell (sumCommand type path))) := by
        rcases hline with hline | hline
        · change (if st₂.1.unread = [] then _ else _) = _ at hline
          rw [if_neg (by rwa [hunread]), hunread] at hline
          exact (Prod.mk.inj (Option.some.inj hline)).1.symm
        · exact hline.elim
      obtain ⟨_, _, _, _, -, h, -⟩ :=
        Forking.Executes.of_bind (p := putZero (cutIndex (cString (line.getD memory)) path)) h
      obtain ⟨_, st₄, tr₄, -, h, -⟩ := Forking.executes_call.mp h
      rw [hline] at h
      exact Option.some.inj (Forking.executes_ret.mp h).2.1

/-! ## The line that is read -/

variable {digest : FileSumType → Bytes → Bytes}

/-- Of a line that ends where the text ends, at most `n - 1` characters are read. -/
theorem firstLine_of_notMem (n : ℕ) {text : Bytes} (h : 10 ∉ text) :
    firstLine n (text ++ [10]) = (text ++ [10]).take (n - 1) := by
  have hfind : ∀ chars : Bytes, chars <+: text ++ [10] → chars.length ≤ chars.findIdx (· = 10) + 1 := by
    intro chars hchars
    rcases List.prefix_concat_iff.mp hchars with rfl | hchars
    · rw [List.findIdx_append, List.findIdx_eq_length.mpr]
      · simp
      · intro c hc
        simpa using fun h10 : c = 10 => h (h10 ▸ hc)
    · rw [List.findIdx_eq_length.mpr]
      · exact Nat.le_succ _
      · intro c hc
        simpa using fun h10 : c = 10 => h (h10 ▸ hchars.subset hc)
  exact List.take_of_length_le (hfind _ (List.take_prefix _ _))

/-- What is read of a line with a digest. -/
theorem firstLine_output (hprints : PrintsDigests world.shell digest) (hplain : Plain path) :
    firstLine 200 (world.shell (sumCommand type path))
      = (digest type path ++ [32, 32] ++ path ++ [10]).take 199 := by
  rw [hprints.output type path hplain]
  refine firstLine_of_notMem 200 ?_
  simp only [List.mem_append, not_or]
  refine ⟨⟨?_, by decide⟩, fun h => hplain 10 h (by decide)⟩
  intro h
  exact absurd (hprints.hex type path 10 h) (by decide)

/-- The characters of such a line that are read. -/
theorem length_firstLine (type : FileSumType) (hprints : PrintsDigests world.shell digest)
    (hplain : Plain path) :
    (firstLine 200 (world.shell (sumCommand type path))).length
      = min 199 (type.digestLength + path.length + 3) := by
  rw [firstLine_output hprints hplain, List.length_take]
  simp only [List.length_append, hprints.length, List.length_cons, List.length_nil]
  omega

/-- There is no zero among them. -/
theorem cString_firstLine (hprints : PrintsDigests world.shell digest) (hplain : Plain path) :
    cString (firstLine 200 (world.shell (sumCommand type path)))
      = firstLine 200 (world.shell (sumCommand type path)) := by
  rw [firstLine_output hprints hplain, cString, List.takeWhile_eq_self_iff]
  intro c hc
  have hmem := List.mem_of_mem_take hc
  simp only [List.mem_append, List.mem_cons, List.not_mem_nil, or_false] at hmem
  rcases hmem with ((hdigest | rfl | rfl) | hpath) | rfl
  · have hhex := hprints.hex type path c hdigest
    simp only [ne_eq, decide_eq_true_eq]
    rintro rfl
    exact absurd hhex (by decide)
  · decide
  · decide
  · simp only [ne_eq, decide_eq_true_eq]
    rintro rfl
    exact hplain 0 hpath (by decide)
  · decide

/-- If the whole line is read, the digest is cut out. -/
theorem checkSumOf_of_le (hprints : PrintsDigests world.shell digest) (hplain : Plain path)
    (hle : type.digestLength + path.length ≤ 196) : checkSumOf world type path = digest type path := by
  have hline : firstLine 200 (world.shell (sumCommand type path))
      = digest type path ++ [32, 32] ++ path ++ [10] := by
    rw [firstLine_output hprints hplain]
    refine List.take_of_length_le ?_
    simp only [List.length_append, hprints.length, List.length_cons, List.length_nil]
    omega
  have hindex : cutIndex (digest type path ++ [32, 32] ++ path ++ [10]) path = type.digestLength := by
    simp only [cutIndex, List.length_append, hprints.length, List.length_cons, List.length_nil]
    omega
  have hnewline : dropNewline (digest type path ++ [32, 32] ++ path ++ [10])
      = digest type path ++ ([32, 32] ++ path) := by
    rw [dropNewline, if_pos List.getLast?_concat, List.dropLast_concat, List.append_assoc]
  rw [checkSumOf, cString_firstLine hprints hplain, hline, cutCheckSum, hindex, if_pos (Int.natCast_nonneg _),
    hnewline, Int.toNat_natCast]
  exact List.take_left' (hprints.length type path)

/-- What is cut out is no longer than the index says. -/
theorem length_cutCheckSum_le {str : Bytes} (h : 0 ≤ cutIndex str path) :
    ((cutCheckSum str path).length : ℤ) ≤ cutIndex str path := by
  rw [cutCheckSum, if_pos h, List.length_take]
  omega

/-- If the tools print digests as they do, `getCheckSum` returns the whole digest, and writes at an index in
the string that it has read, exactly if the digest and the path have at most 196 characters. -/
theorem extracts_digest_iff (world : World) (args : ForensicArgs) (entries : Entries)
    (digest : FileSumType → Bytes → Bytes) (type : FileSumType) (path : Bytes)
    (hprints : PrintsDigests world.shell digest) (hplain : Plain path)
    (hfits : (sumCommand type path).length < maxChar) :
    ExtractsDigest world args entries (digest type path) type path ↔
      type.digestLength + path.length ≤ 196 := by
  have hne : world.shell (sumCommand type path) ≠ [] := by
    rw [hprints.output type path hplain]
    simp
  have hlength := length_firstLine type hprints hplain
  constructor
  · intro h
    obtain ⟨tr, st', hexec⟩ := h.returns 0 (firstLocal .other, firstShared) ⟨rfl, rfl⟩
    have hcut : checkSumOf world type path = digest type path := (eq_checkSumOf hne hexec).symm
    have hle := length_cutCheckSum_le h.index_nonneg
    rw [checkSumOf, cString_firstLine hprints hplain] at hcut
    rw [hcut, hprints.length, cutIndex, hlength] at hle
    omega
  · intro hle
    have hdigest := checkSumOf_of_le hprints hplain hle
    refine ⟨?_, ?_, ?_, ?_⟩
    · intro pid st hready
      have hindex : 0 ≤ cutIndex (cString (firstLine 200 (world.shell (sumCommand type path)))) path := by
        rw [cString_firstLine hprints hplain, cutIndex, hlength]
        omega
      rw [← hdigest]
      exact executes_getCheckSum hfits hindex hne pid hready
    · intro pid st tr str st' hexec
      rw [← hdigest]
      exact eq_checkSumOf hne hexec
    · rw [cutIndex, hlength]
      omega
    · rw [cutIndex, hlength]
      omega

end

/-! ## A shell -/

/-- A digest. -/
def zeroDigest (type : FileSumType) (_ : Bytes) : Bytes := List.replicate type.digestLength 48

/-- The tool that a command calls, and the path behind it. -/
def toolAndPath (command : Bytes) : Option (FileSumType × Bytes) :=
  [FileSumType.md5, .sha1, .sha256].findSome? fun type =>
    if type.tool <+: command then some (type, (command.drop type.tool.length).dropLast) else none

/-- A shell in which all digests are zero. -/
def zeroShell (command : Bytes) : Bytes :=
  match toolAndPath command with
  | some (type, path) => zeroDigest type path ++ [32, 32] ++ path ++ [10]
  | none => []

/-- It prints digests. -/
theorem printsDigests_zeroShell : PrintsDigests zeroShell zeroDigest where
  output type path _ := by
    have htool : toolAndPath (sumCommand type path) = some (type, path) := by
      cases type <;> simp [toolAndPath, sumCommand, FileSumType.tool]
    rw [zeroShell, htool]
  length type path := List.length_replicate
  hex type path c hc := by
    rw [List.eq_of_mem_replicate hc]
    rfl

/-- A world with this shell. -/
def zeroWorld : World where
  shell := zeroShell
  stat := fun _ => ⟨0, 0, 0, 0⟩
  localtime := fun _ => ⟨1970, 1, 1, 0, 0, 0⟩
  keyboard := false

/-- A path with a name of 160 characters. -/
def longPath : Bytes := [47] ++ List.replicate 160 97

/-- For the file `evidence`. -/
theorem extracts_digest_evidence :
    ExtractsDigest zeroWorld zeroArgs .nil (zeroDigest .sha256 evidence) .sha256 evidence ↔
      FileSumType.digestLength .sha256 + evidence.length ≤ 196 :=
  extracts_digest_iff zeroWorld zeroArgs .nil zeroDigest .sha256 evidence printsDigests_zeroShell (by decide)
    (by decide)

/-- For the longer path, `getCheckSum` returns 35 digits only. -/
theorem exists_short_digest :
    (∃ tr st', (forensic zeroWorld zeroArgs .nil).Executes 0 (getCheckSum longPath .sha256)
      (firstLocal .other, firstShared) tr (some (List.replicate 35 48)) st') ∧
    Plain longPath ∧ (sumCommand .sha256 longPath).length < maxChar ∧
    ¬ ExtractsDigest zeroWorld zeroArgs .nil (zeroDigest .sha256 longPath) .sha256 longPath := by
  have hplain : Plain longPath := by decide +kernel
  have hfits : (sumCommand .sha256 longPath).length < maxChar := by decide +kernel
  have hsum : checkSumOf zeroWorld .sha256 longPath = List.replicate 35 48 := by decide +kernel
  have hexec : ∃ tr st', (forensic zeroWorld zeroArgs .nil).Executes 0 (getCheckSum longPath .sha256)
      (firstLocal .other, firstShared) tr (some (List.replicate 35 48)) st' := by
    rw [← hsum]
    exact executes_getCheckSum hfits (by decide +kernel) (by decide +kernel) 0 ⟨rfl, rfl⟩
  refine ⟨hexec, hplain, hfits, ?_⟩
  intro h
  obtain ⟨tr, st', hexec⟩ := hexec
  exact absurd (h.only _ _ _ _ _ hexec) (by decide)

end Sope.Forensic
