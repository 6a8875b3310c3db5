import Sope.Forensic.Report

/-! # The fields of a record

The line that `scanfile` writes for a file, read back: split at its commas, it gives the fields that have been
put into it.

* `writesOf` — what is given to `write` in an execution.
* `fields` — the fields of a record.
* `record_fields` — the record of every file is made of them. -/

namespace Sope.Forensic

open Concurrency

/-! ## The fields -/

/-- A description, with a space for each comma. -/
def spaced (desc : Bytes) : Bytes := desc.map fun c => if c = 44 then 32 else c

/-- Whether a checksum of this type has been requested. -/
def ForensicArgs.requests (args : ForensicArgs) : FileSumType → Bool
  | .md5 => args.h && args.md5
  | .sha1 => args.h && args.sha1
  | .sha256 => args.h && args.sha256

/-- The fields of the record of a file. -/
def fields (localtime : ℤ → Tm) (args : ForensicArgs) (path fileType : Bytes) (status : Stat)
    (digest : FileSumType → Bytes) : List Bytes :=
  [path, fileType, formatInt status.size, getFileAccess status, timestampToISO (localtime status.ctime),
    timestampToISO (localtime status.mtime)] ++ ([.md5, .sha1, .sha256].filter args.requests).map digest

/-- The access string has nine characters. -/
@[simp] theorem length_getFileAccess (st : Stat) : (getFileAccess st).length = 9 := by
  simp [getFileAccess, accessLetters]

/-- The commas of a description are gone. -/
@[simp] theorem comma_notMem_spaced (desc : Bytes) : 44 ∉ spaced desc := by
  intro h
  obtain ⟨c, -, hc⟩ := List.mem_map.mp h
  split at hc
  · exact absurd hc (by decide)
  · next hne => exact hne hc

/-- A character that is no digit is in no number. -/
theorem notMem_decimal {b : UInt8} (hb : b.toNat < 48) (n : ℕ) : b ∉ decimal n := fun h =>
  absurd (digit_of_mem_decimal h) (Nat.not_le.mpr hb)

@[simp] theorem comma_notMem_zeroPadded (width n : ℕ) : 44 ∉ zeroPadded width n := by
  intro h
  have hdigit := digit_of_mem_zeroPadded h
  simp at hdigit

@[simp] theorem comma_notMem_formatInt (n : ℤ) : 44 ∉ formatInt n := by
  have hdecimal : (44 : UInt8) ∉ decimal n.natAbs := notMem_decimal (by simp) _
  unfold formatInt
  split
  · simpa using hdecimal
  · exact hdecimal

@[simp] theorem comma_notMem_getFileAccess (st : Stat) : 44 ∉ getFileAccess st := by
  intro h
  obtain ⟨⟨bit, letter⟩, hmem, hletter⟩ := List.mem_map.mp h
  have hletters : ∀ p ∈ accessLetters, p.2 ≠ 44 := by simp [accessLetters]
  dsimp only at hletter
  split at hletter
  · exact hletters _ hmem hletter
  · exact absurd hletter (by decide)

@[simp] theorem comma_notMem_timestampToISO (t : Tm) : 44 ∉ timestampToISO t := by
  simp [timestampToISO]

/-- There is no comma in a field. -/
theorem comma_notMem_fields {localtime : ℤ → Tm} {args : ForensicArgs} {path fileType : Bytes} {status : Stat}
    {digest : FileSumType → Bytes} (hpath : 44 ∉ path) (htype : 44 ∉ fileType)
    (hdigest : ∀ type, args.requests type = true → 44 ∉ digest type) :
    ∀ field ∈ fields localtime args path fileType status digest, 44 ∉ field := by
  intro field hfield
  rcases List.mem_append.mp hfield with hfield | hfield
  · simp only [List.mem_cons, List.not_mem_nil, or_false] at hfield
    rcases hfield with rfl | rfl | rfl | rfl | rfl | rfl <;> simp [hpath, htype]
  · obtain ⟨type, htype, rfl⟩ := List.mem_map.mp hfield
    exact hdigest type (List.mem_filter.mp htype).2

/-! ## What is written -/

/-- `write`. -/
def Call.isWrite : Call → Bool
  | .write .. => true
  | _ => false

/-- What is given to `write`. -/
def writesOf (tr : List Event) : List Bytes := tr.filterMap fun
  | .exec _ (.write _ bytes) _ _ => some bytes
  | _ => none

@[simp] theorem writesOf_nil : writesOf [] = [] := rfl

@[simp] theorem writesOf_append (tr tr' : List Event) : writesOf (tr ++ tr') = writesOf tr ++ writesOf tr' :=
  List.filterMap_append

/-- The other calls do not write. -/
theorem writesOf_cons {o : Call} (ho : o.isWrite = false) (pid : ℕ) (r : o.Res) (st : State) (tr : List Event) :
    writesOf (.exec pid o r st :: tr) = writesOf tr := by
  cases o with
  | write => cases ho
  | _ => rfl

section

variable {world : World} {args : ForensicArgs} {entries : Entries} {pid : ℕ} {st st' : State}
  {tr : List Event} {path : Bytes}

/-- A program that does not write. -/
theorem writesOf_of_calls {α : Type} {p : Proc α} {a : α} (hp : p.Calls fun o => o.isWrite = false)
    (h : (forensic world args entries).Executes pid p st tr a st') : writesOf tr = [] := by
  refine List.filterMap_eq_nil_iff.mpr fun e he => ?_
  obtain ⟨o, r, st₁, ho, rfl⟩ := h.of_calls hp e he
  cases o with
  | write => cases ho
  | _ => rfl

/-- What is asked for of a command's output is not written. -/
theorem isWrite_of_fetches {o : Call} (ho : o.fetches = true) : o.isWrite = false := by
  cases o <;> first | rfl | cases ho

/-- What is written into an array is not written to a descriptor. -/
theorem of_executes_within {b : Prop} [Decidable b] {α : Type} {k : Unit → Proc α} {a : α}
    (h : (forensic world args entries).Executes pid (within b >>= k) st tr a st') :
    ∃ st₁ tr₁ tr₂, writesOf tr₁ = [] ∧ (forensic world args entries).Executes pid (k ()) st₁ tr₂ a st' ∧
      tr = tr₁ ++ tr₂ := by
  obtain ⟨_, st₁, tr₁, tr₂, hput, hrest, htr⟩ := Forking.Executes.of_bind (p := within b) h
  have hcalls : (within b).Calls fun o => o.isWrite = false := calls_within rfl rfl
  exact ⟨st₁, tr₁, tr₂, writesOf_of_calls hcalls hput, hrest, htr⟩

/-! ## The type of a file -/

/-- If `popen` succeeds and the command prints more than the path and two characters, `getFileType` returns
this. -/
theorem eq_typeOf (hmore : (world.shell (fileCommand path)).drop (path.length + 2) ≠ [])
    {fileType : Option Bytes} (hfails : ∀ e ∈ tr, fails e = false)
    (h : (forensic world args entries).Executes pid (getFileType path) st tr fileType st') :
    fileType = some (typeOf world path) := by
  obtain ⟨memory, st₀, tr₀, -, h, htr⟩ := Forking.executes_call.mp h
  obtain ⟨st₁, trPut, tr₁, -, h, htr₀⟩ := of_executes_within (b := (fileCommand path).length < maxChar) h
  obtain ⟨stream, st₂, tr₂, ⟨-, hpopen⟩, h, htr₁⟩ := Forking.executes_call.mp h
  cases stream with
  | none =>
      have hmem : .exec pid (.popen (fileCommand path)) (none : Option ℕ) st₁ ∈ tr := by simp [htr, htr₀, htr₁]
      cases hfails _ hmem
  | some stream =>
      have hunread : st₂.1.unread = world.shell (fileCommand path) := by
        rcases hpopen with hpopen | ⟨hnone, -⟩
        · obtain ⟨-, rfl⟩ := Prod.mk.inj (Option.some.inj hpopen)
          rfl
        · cases hnone
      obtain ⟨start, st₃, tr₃, ⟨-, hread⟩, h, -⟩ := Forking.executes_call.mp h
      have hunread' : st₃.1.unread = (world.shell (fileCommand path)).drop (path.length + 2) := by
        rcases hread with hread | hread
        · obtain ⟨-, rfl⟩ := Prod.mk.inj (Option.some.inj hread)
          exact congrArg (List.drop _) hunread
        · exact hread.elim
      obtain ⟨line, st₄, tr₄, ⟨-, hline⟩, h, -⟩ := Forking.executes_call.mp h
      have hline : line = some (firstLine maxChar st₃.1.unread) := by
        rcases hline with hline | hline
        · rw [perform_fgets, if_neg (by rwa [hunread'])] at hline
          exact (Prod.mk.inj (Option.some.inj hline)).1.symm
        · exact hline.elim
      obtain ⟨_, st₅, tr₅, -, h, -⟩ := Forking.executes_call.mp h
      rw [hline, hunread'] at h
      exact (Forking.executes_ret.mp h).2.1

/-- If `file` prints the path, a colon, a space, a description and a newline, and what `getFileType` returns
leaves room for a comma, it returns the description. -/
theorem typeOf_of_prints {desc : Bytes}
    (hprints : world.shell (fileCommand path) = path ++ [58, 32] ++ desc ++ [10]) (hzero : 0 ∉ desc)
    (hnewline : 10 ∉ desc) (hfits : (typeOf world path).length < maxChar - 1) : typeOf world path = spaced desc := by
  have hdrop : (world.shell (fileCommand path)).drop (path.length + 2) = desc ++ [10] := by
    rw [hprints, List.append_assoc]
    exact List.drop_left' (by simp)
  have hline : firstLine maxChar (desc ++ [10]) = (desc ++ [10]).take 999 := firstLine_of_notMem _ hnewline
  have hstring : cString ((desc ++ [10]).take 999) = (desc ++ [10]).take 999 := by
    refine cString_of_notMem fun h => ?_
    rcases List.mem_append.mp (List.mem_of_mem_take h) with h | h
    · exact hzero h
    · exact absurd h (by decide)
  have htype : typeOf world path = spaced (dropNewline ((desc ++ [10]).take 999)) := by
    rw [typeOf, hdrop, hline, hstring]
    rfl
  by_cases hlength : desc.length ≤ 998
  · rw [htype, List.take_of_length_le (by simp; omega), dropNewline, if_pos List.getLast?_concat,
      List.dropLast_concat]
  · have htake : (desc ++ [10]).take 999 = desc.take 999 := List.take_append_of_le_length (by omega)
    have hlast : (desc.take 999).getLast? ≠ some 10 := fun h =>
      hnewline (List.mem_of_mem_take (List.mem_of_getLast? h))
    rw [htype, htake, dropNewline, if_neg hlast, spaced, List.length_map, List.length_take, maxChar] at hfits
    omega

/-! ## The checksums -/

variable (world args entries) in
/-- `getCheckSum` returns this digest, if `popen` succeeds. -/
def ReturnsDigest (digest : Bytes) (type : FileSumType) (path : Bytes) : Prop :=
  ∀ pid st tr str st',
    (forensic world args entries).Executes pid (getCheckSum path type) st tr (some str) st' → str = digest

/-- `getCheckSum` returns nothing if `popen` fails. -/
theorem exists_fails_of_getCheckSum {type : FileSumType}
    (h : (forensic world args entries).Executes pid (getCheckSum path type) st tr none st') :
    ∃ e ∈ tr, fails e = true := by
  obtain ⟨memory, st₀, tr₀, -, h, htr⟩ := Forking.executes_call.mp h
  obtain ⟨st₁, trPut, tr₁, -, h, htr₀⟩ := of_executes_within (b := (sumCommand type path).length < maxChar) h
  obtain ⟨stream, st₂, tr₂, -, h, htr₁⟩ := Forking.executes_call.mp h
  cases stream with
  | none =>
      exact ⟨.exec pid (.popen (sumCommand type path)) (none : Option ℕ) st₁, by simp [htr, htr₀, htr₁], rfl⟩
  | some stream =>
      obtain ⟨line, st₃, tr₃, -, h, -⟩ := Forking.executes_call.mp h
      obtain ⟨_, _, _, -, h, -⟩ :=
        of_executes_within (b := 0 ≤ cutIndex (cString (line.getD memory)) path) h
      obtain ⟨_, st₄, tr₄, -, h, -⟩ := Forking.executes_call.mp h
      cases (Forking.executes_ret.mp h).2.1

/-- What is appended for a type. -/
theorem executes_appendCheckSum {requested : Bool} {type : FileSumType} {info info' digest : Bytes}
    (hsum : requested = true → ReturnsDigest world args entries digest type path)
    (hfails : ∀ e ∈ tr, fails e = false)
    (h : (forensic world args entries).Executes pid (appendCheckSum path requested type info) st tr info' st') :
    writesOf tr = [] ∧ info' = info ++ if requested then 44 :: digest else [] := by
  cases requested with
  | false =>
      obtain ⟨rfl, rfl, -⟩ := Forking.executes_ret.mp h
      simp
  | true =>
      obtain ⟨checkSum, st₁, tr₁, tr₂, hsum', h, rfl⟩ := Forking.Executes.of_bind h
      cases checkSum with
      | none =>
          obtain ⟨e, he, hfails'⟩ := exists_fails_of_getCheckSum hsum'
          rw [hfails e (List.mem_append_left _ he)] at hfails'
          cases hfails'
      | some checkSum =>
          obtain ⟨st₂, trPut, tr₃, hput, hend, rfl⟩ :=
            of_executes_within (b := (info ++ [44] ++ checkSum).length < maxChar) h
          obtain ⟨rfl, rfl, -⟩ := Forking.executes_ret.mp hend
          obtain rfl := hsum rfl _ _ _ _ _ hsum'
          simp [hput, writesOf_of_calls (calls_getCheckSum (fun _ => isWrite_of_fetches) rfl) hsum']

/-! ## The line -/

/-- More words behind a separator each. -/
theorem intercalate_append {α : Type} (x : α) {xs : List (List α)} (h : xs ≠ []) (ys : List (List α)) :
    [x].intercalate (xs ++ ys) = [x].intercalate xs ++ ys.flatMap (x :: ·) := by
  induction xs with
  | nil => exact absurd rfl h
  | cons a xs ih =>
      cases xs with
      | nil =>
          induction ys generalizing a with
          | nil => simp
          | cons b ys ihys => simpa [List.intercalate_cons_cons] using ihys b nofun
      | cons b xs => simpa [List.intercalate_cons_cons] using ih nofun

/-- The checksums, with a comma before each. -/
theorem flatMap_requested (digest : FileSumType → Bytes) :
    (([.md5, .sha1, .sha256].filter args.requests).map digest).flatMap (44 :: ·)
      = (if args.requests .md5 then 44 :: digest .md5 else []) ++
        ((if args.requests .sha1 then 44 :: digest .sha1 else []) ++
          if args.requests .sha256 then 44 :: digest .sha256 else []) := by
  cases hmd5 : args.requests .md5 <;> cases hsha1 : args.requests .sha1 <;>
    cases hsha256 : args.requests .sha256 <;> simp [hmd5, hsha1, hsha256]

/-- What `scanfile` writes once it has redirected its output: one line, if it returns 0. -/
theorem writes_analyse {digest : FileSumType → Bytes} {saved : Option ℕ} {a : ℤ}
    (hmore : (world.shell (fileCommand path)).drop (path.length + 2) ≠ [])
    (hsum : ∀ type, args.requests type = true → ReturnsDigest world args entries (digest type) type path)
    (hfails : ∀ e ∈ tr, fails e = false)
    (h : (forensic world args entries).Executes pid (analyse world.localtime args path saved) st tr a st') :
    (a = 0 → ∃ line, writesOf tr = [line]) ∧
      ∀ line ∈ writesOf tr, ∃ status st₁, .exec pid (.stat path) status st₁ ∈ tr ∧
        line = [44].intercalate (fields world.localtime args path (typeOf world path) status digest) ++ [10] := by
  obtain ⟨file, st₁, tr₁, -, h, htr⟩ := Forking.executes_call.mp h
  have hopen : writesOf tr = writesOf tr₁ := htr ▸ writesOf_cons rfl _ _ _ _
  rw [hopen]
  have hfails₁ : ∀ e ∈ tr₁, fails e = false := fun e he => hfails e (htr ▸ .tail _ he)
  cases file with
  | none =>
      obtain ⟨_, st₂, tr₂, -, h, htr₂⟩ := Forking.executes_call.mp h
      obtain ⟨rfl, rfl, -⟩ := Forking.executes_ret.mp h
      rw [htr₂, writesOf_cons rfl]
      exact ⟨fun h => absurd h (by decide), fun line hline => absurd hline List.not_mem_nil⟩
  | some stream =>
      obtain ⟨status, st₂, tr₂, -, h, htr₂⟩ := Forking.executes_call.mp h
      have hstat : .exec pid (.stat path) status st₁ ∈ tr := htr ▸ .tail _ (htr₂ ▸ .head _)
      have hfails₂ : ∀ e ∈ tr₂, fails e = false := fun e he => hfails₁ e (htr₂ ▸ .tail _ he)
      -- the parts that put the record together, one after the other
      change (forensic world args entries).Executes pid (getFileType path >>= _) st₂ tr₂ a st' at h
      obtain ⟨fileType, st₃, trType, tr₃, htype, h₃, rfl⟩ := Forking.Executes.of_bind h
      obtain ⟨_, trInfo, trSums, hinfo, hsums, rfl⟩ := of_executes_within h₃
      obtain ⟨info₁, st₄, trMd5, tr₄, hmd5, h₄, rfl⟩ := Forking.Executes.of_bind hsums
      obtain ⟨info₂, st₅, trSha1, tr₅, hsha1, h₅, rfl⟩ := Forking.Executes.of_bind h₄
      obtain ⟨info₃, st₆, trSha256, tr₆, hsha256, h₆, rfl⟩ := Forking.Executes.of_bind h₅
      obtain ⟨_, trLine, trWrite, hline, hwrite, rfl⟩ := of_executes_within h₆
      obtain ⟨_, st₇, tr₇, -, h₇, rfl⟩ := Forking.executes_call.mp hwrite
      simp only [List.forall_mem_append] at hfails₂
      obtain ⟨hfailsType, -, hfailsMd5, hfailsSha1, hfailsSha256, -⟩ := hfails₂
      obtain rfl := eq_typeOf hmore hfailsType htype
      obtain ⟨hwrites₁, rfl⟩ := executes_appendCheckSum (hsum .md5) hfailsMd5 hmd5
      obtain ⟨hwrites₂, rfl⟩ := executes_appendCheckSum (hsum .sha1) hfailsSha1 hsha1
      obtain ⟨hwrites₃, rfl⟩ := executes_appendCheckSum (hsum .sha256) hfailsSha256 hsha256
      have hrest : writesOf tr₇ = [] := by
        refine writesOf_of_calls ?_ h₇
        refine (calls_restoreStdout (fun _ _ => rfl) (fun _ => rfl) _).bind fun _ => ?_
        exact (calls_logged (P := fun o => o.isWrite = false) rfl rfl rfl).bind fun _ => trivial
      rw [htr₂, writesOf_cons rfl]
      simp only [writesOf_append, writesOf_of_calls (calls_getFileType (fun _ => isWrite_of_fetches) rfl) htype,
        hinfo, hwrites₁, hwrites₂, hwrites₃, hline, List.nil_append]
      change (a = 0 → ∃ line, _ :: writesOf tr₇ = [line]) ∧ ∀ line ∈ _ :: writesOf tr₇, _
      rw [hrest]
      refine ⟨fun _ => ⟨_, rfl⟩, fun line hline => ?_⟩
      obtain rfl := List.mem_singleton.mp hline
      refine ⟨status, st₁, hstat, ?_⟩
      unfold fields
      rw [intercalate_append _ (List.cons_ne_nil _ _), flatMap_requested]
      simp only [fileInfo, Option.getD_some, List.append_assoc]

/-- What `scanfile` writes: one line, if it returns 0. -/
theorem writes_scanfile {digest : FileSumType → Bytes} {a : ℤ}
    (hmore : (world.shell (fileCommand path)).drop (path.length + 2) ≠ [])
    (hsum : ∀ type, args.requests type = true → ReturnsDigest world args entries (digest type) type path)
    (hfails : ∀ e ∈ tr, fails e = false)
    (h : (forensic world args entries).Executes pid (scanfile world.localtime args path) st tr a st') :
    (a = 0 → ∃ line, writesOf tr = [line]) ∧
      ∀ line ∈ writesOf tr, ∃ status st₁, .exec pid (.stat path) status st₁ ∈ tr ∧
        line = [44].intercalate (fields world.localtime args path (typeOf world path) status digest) ++ [10] := by
  obtain ⟨_, st₁, tr₁, -, h₁, rfl⟩ := Forking.executes_call.mp h
  change (forensic world args entries).Executes pid (signalled args .usr2 >>= _) st₁ tr₁ a st' at h₁
  obtain ⟨_, st₂, trSignal, tr₂, hsignal, h₂, rfl⟩ := Forking.Executes.of_bind h₁
  -- with or without `-o`, the record is written by `analyse`
  have hlast : ∀ {saved : Option ℕ} {st₃ : State} {tr₃ : List Event}, tr₃ <:+ tr₂ →
      (forensic world args entries).Executes pid (analyse world.localtime args path saved) st₃ tr₃ a st' →
      (a = 0 → ∃ line, writesOf tr₃ = [line]) ∧
        ∀ line ∈ writesOf tr₃, ∃ status st₁', .exec pid (.stat path) status st₁' ∈
          (.exec pid (.scanfile path) () st :: (trSignal ++ tr₂) : List Event) ∧
          line = [44].intercalate (fields world.localtime args path (typeOf world path) status digest) ++ [10] := by
    intro saved st₃ tr₃ hsuffix h₃
    have hmem : ∀ e ∈ tr₃, e ∈ (.exec pid (.scanfile path) () st :: (trSignal ++ tr₂) : List Event) :=
      fun e he => .tail _ (List.mem_append_right _ (hsuffix.subset he))
    obtain ⟨hone, hwrites⟩ := writes_analyse hmore hsum (fun e he => hfails e (hmem e he)) h₃
    refine ⟨hone, fun line hline => ?_⟩
    obtain ⟨status, st₁', hstat, rfl⟩ := hwrites line hline
    exact ⟨status, st₁', hmem _ hstat, rfl⟩
  rw [writesOf_cons rfl, writesOf_append, writesOf_of_calls (calls_signalled rfl) hsignal, List.nil_append]
  split at h₂
  · obtain ⟨saved, st₃, tr₃, -, h₃, rfl⟩ := Forking.executes_call.mp h₂
    obtain ⟨fdOut, st₄, tr₄, -, h₄, rfl⟩ := Forking.executes_call.mp h₃
    rw [writesOf_cons rfl, writesOf_cons rfl]
    cases fdOut with
    -- the output file cannot be opened: no record is written
    | none =>
        obtain ⟨_, st₅, tr₅, -, h₅, rfl⟩ := Forking.executes_call.mp h₄
        obtain ⟨rfl, rfl, -⟩ := Forking.executes_ret.mp h₅
        rw [writesOf_cons rfl]
        exact ⟨fun h => absurd h (by decide), fun line hline => absurd hline List.not_mem_nil⟩
    | some fdOut =>
        obtain ⟨_, st₅, tr₅, -, h₅, rfl⟩ := Forking.executes_call.mp h₄
        obtain ⟨_, st₆, tr₆, -, h₆, rfl⟩ := Forking.executes_call.mp h₅
        rw [writesOf_cons rfl, writesOf_cons rfl]
        exact hlast (List.suffix_append [_, _, _, _] tr₆) h₆
  · exact hlast (List.suffix_refl _) h₂

end

/-- `"data, 7"`. -/
def dataType : Bytes := [100, 97, 116, 97, 44, 32, 55]

/-- A shell in which all files are so, and all digests zero. -/
def dataShell (command : Bytes) : Bytes :=
  if fileTool <+: command then (command.drop fileTool.length).dropLast ++ [58, 32] ++ dataType ++ [10]
  else zeroShell command

/-- A world with this shell. -/
def dataWorld : World := { zeroWorld with shell := dataShell }

/-- It prints digests. -/
theorem printsDigests_dataShell : PrintsDigests dataShell zeroDigest where
  output type path hplain := by
    have hcommand : ¬ fileTool <+: sumCommand type path := by
      cases type <;> simp [sumCommand, FileSumType.tool, fileTool]
    rw [dataShell, if_neg hcommand]
    exact printsDigests_zeroShell.output type path hplain
  length := printsDigests_zeroShell.length
  hex := printsDigests_zeroShell.hex

/-- With `-h md5`. -/
def md5Args : ForensicArgs := { zeroArgs with h := true, md5 := true, path := some evidence }

end Sope.Forensic
