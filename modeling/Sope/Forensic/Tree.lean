import Sope.Concurrency.ForkAccount
import Sope.Forensic.Processes

/-! # The files of a tree, and who works on them

What a scan has to do with a tree of directories, and why the processes that are forked do it altogether: one
process works in each directory, on the regular files that are directly in it.

* `scannedDirectories` — the directories of a tree, each with the names that lead to it.
* `Visitor` — an account in which the acts belong to the files and to the directories.
* `Visitor.balanced` — what the processes do is what there is to do in all directories. -/

namespace Sope.Forensic

open Concurrency

/-! ## Trees -/

/-- The path that is formed by joining names from the root. -/
def pathOf (root : Bytes) (names : List Bytes) : Bytes := [47].intercalate (root :: names)

namespace Entries

/-- The names of the regular files in a directory. -/
def regularNames : Entries → List Bytes
  | .nil => []
  | .file name regular rest =>
      if isDots name = false ∧ regular = true then name :: rest.regularNames else rest.regularNames
  | .directory _ _ rest => rest.regularNames

/-- The directories below a directory, with the names that lead to them and what is in them. -/
def subdirectories : Entries → List (List Bytes × Entries)
  | .nil => []
  | .file _ _ rest => rest.subdirectories
  | .directory name content rest =>
      if isDots name then rest.subdirectories
      else ([name], content) :: (content.subdirectories.map fun d => (name :: d.1, d.2))
        ++ rest.subdirectories

end Entries

/-- The directories that are scanned. -/
def scannedDirectories (args : ForensicArgs) (entries : Entries) : List (List Bytes × Entries) :=
  ([], entries) :: if args.r then entries.subdirectories else []

/-- The paths of the regular files in them. -/
def scannedPaths (args : ForensicArgs) (entries : Entries) (root : Bytes) : List Bytes :=
  (scannedDirectories args entries).flatMap fun d => d.2.regularNames.map fun name => pathOf root (d.1 ++ [name])

section

variable {Act : Type} (directory file : Bytes → List Act)

/-- What is to be done in one directory. -/
def visit (dirname : Bytes) (entries : Entries) : List Act :=
  directory dirname ++ entries.regularNames.flatMap fun name => file (joined dirname name)

/-- What is to be done in the directories below it, if these are scanned. -/
def visitsBelow (args : ForensicArgs) (dirname : Bytes) (entries : Entries) : Multiset (List Act) :=
  ↑((if args.r then entries.subdirectories else []).map fun d => visit directory file (pathOf dirname d.1) d.2)

end

section

variable {args : ForensicArgs} {root name : Bytes} {names : List Bytes}

theorem pathOf_nil : pathOf root [] = root := by
  simp [pathOf, List.intercalate]

/-- A path begins with the root and the first name. -/
theorem pathOf_cons : pathOf root (name :: names) = pathOf (joined root name) names := by
  cases names with
  | nil => simp [pathOf, List.intercalate, joined]
  | cons name' names => simp [pathOf, List.intercalate, joined]

/-- A path ends with a slash and the last name. -/
theorem pathOf_concat : pathOf root (names ++ [name]) = joined (pathOf root names) name := by
  induction names generalizing root with
  | nil => rw [List.nil_append, pathOf_cons, pathOf_nil, pathOf_nil]
  | cons name' names ih => rw [List.cons_append, pathOf_cons, ih, pathOf_cons]

variable {path : Bytes} {content rest : Entries} {regular : Bool}

/-- The paths in a directory that begins with a file. -/
theorem mem_scannedPaths_file : path ∈ scannedPaths args (.file name regular rest) root ↔
    (isDots name = false ∧ regular = true ∧ path = joined root name) ∨ path ∈ scannedPaths args rest root := by
  have hpath : pathOf root ([] ++ [name]) = joined root name := by rw [pathOf_concat, pathOf_nil]
  by_cases h : isDots name = false ∧ regular = true
  · simp [scannedPaths, scannedDirectories, Entries.regularNames, Entries.subdirectories, h, ← hpath]
  · have h' : ¬ (isDots name = false ∧ regular = true ∧ path = joined root name) := fun h' => h ⟨h'.1, h'.2.1⟩
    simp only [h', false_or, scannedPaths, scannedDirectories, List.flatMap_cons, Entries.regularNames,
      Entries.subdirectories, if_neg h]

/-- The paths in a directory that begins with a directory. -/
theorem mem_scannedPaths_directory : path ∈ scannedPaths args (.directory name content rest) root ↔
    (isDots name = false ∧ args.r = true ∧ path ∈ scannedPaths args content (joined root name)) ∨
      path ∈ scannedPaths args rest root := by
  cases hname : isDots name <;> cases hr : args.r
  case false.true =>
    simp only [scannedPaths, scannedDirectories, Entries.regularNames, Entries.subdirectories, hname, hr, if_true,
      Bool.false_eq_true, if_false, List.flatMap_cons, List.flatMap_append, List.flatMap_map, List.mem_append,
      List.cons_append, List.nil_append, pathOf_cons, true_and]
    tauto
  all_goals
    simp [scannedPaths, scannedDirectories, Entries.regularNames, Entries.subdirectories, hname, hr]

variable {Act : Type} {directory file : Bytes → List Act}

theorem visitsBelow_nil : visitsBelow directory file args root .nil = 0 := by
  unfold visitsBelow
  split <;> rfl

/-- A directory that is skipped. -/
theorem visitsBelow_skip (h : isDots name = true ∨ args.r = false) :
    visitsBelow directory file args root (.directory name content rest)
      = visitsBelow directory file args root rest := by
  rcases h with h | h
  · simp [visitsBelow, Entries.subdirectories, h]
  · simp [visitsBelow, h]

/-- A directory that is scanned: one process works in it, and others below it. -/
theorem visitsBelow_directory (hname : isDots name = false) (hr : args.r = true) :
    visitsBelow directory file args root (.directory name content rest)
      = visit directory file (joined root name) content ::ₘ
        (visitsBelow directory file args (joined root name) content
          + visitsBelow directory file args root rest) := by
  simp only [visitsBelow, hr, Entries.subdirectories, hname]
  simp only [if_true, Bool.false_eq_true, if_false, List.cons_append, List.map_cons, List.map_append,
    List.map_map, Function.comp_def, pathOf_cons, pathOf_nil]
  rfl

end

/-! ## Visitors -/

/-- The calls that are made between two files; a stream that is closed is one of a directory. -/
def Call.Between (Stream : ℕ → Prop) : Call → Prop
  | .kill _ | .addLog .. | .receivedSigInt | .wait | .errno | .exit _ => True
  | .closedir dir => Stream dir
  | _ => False

/-- In an account without anything that is written outside of an array. -/
theorem wp_within_of_not_step {world : World} {args : ForensicArgs} {entries : Entries} {X Act : Type}
    {A : Account (forensic world args entries) X Act} (hstep : ∀ {x r x'}, ¬ A.step .overflow x r x')
    (hbroken : ∀ {x r x'}, ¬ A.broken .overflow x r x') {b : Prop} [Decidable b]
    {Φ : Unit → Load X Act → Prop} {g : Load X Act} (h : Φ () g) : (within b).wp A.protocol Φ g :=
  Prog.wp_ite (fun _ => h) fun _ =>
    show A.protocol.rule g (.call .overflow) _ from
      ⟨fun _ _ hs => (hstep hs).elim, fun _ _ hb => (hbroken hb).elim⟩

/-- An account in which acts belong to the files and directories, with what is true of the view between two
calls of a process, of the streams of its directories, and of the files. Nothing is written outside of an
array. -/
structure Visitor (world : World) (args : ForensicArgs) (entries : Entries) (X Act : Type) where
  account : Account (forensic world args entries) X Act
  directory : Bytes → List Act
  file : Bytes → List Act
  Fits : X → Prop
  Stream : ℕ → Prop
  Known : Bytes → Prop
  acts_opendir : ∀ dirname x, account.acts (.opendir dirname) x = directory dirname
  opendir : ∀ {dirname x r x'}, Fits x → account.step (.opendir dirname) x r x' →
    Fits x' ∧ ∃ dir, r = some dir ∧ Stream dir
  receivedSigInt : ∀ {x r x'}, Fits x → account.step .receivedSigInt x r x' → r = false
  overflow : ∀ {x r x'}, ¬ account.step .overflow x r x'
  acts_between : ∀ {o x}, o.Between Stream → account.acts o x = []
  between : ∀ {o x r x'}, o.Between Stream → Fits x → account.step o x r x' → Fits x'
  broken : ∀ {o x r x'}, account.broken o x r x' → waits o = true ∧ (Fits x → Fits x')
  ends : ∀ {o}, account.Ends o → o = .crash ∨ ∃ status, o = .exit status
  scanfile : ∀ {path todo rest x}, Known path → Fits x →
    (Forensic.scanfile world.localtime args path).wp account.protocol
      (fun _ g => Fits g.view ∧ g.todo = todo ∧ g.rest = rest) ⟨x, file path ++ todo, rest⟩
  handler : ∀ sig g, account.Quiet sig g.view →
    (Forensic.handler args sig).wp account.protocol (fun _ g' => g' = g) g

namespace Visitor

variable {world : World} {args : ForensicArgs} {entries : Entries} {X Act : Type}
  (V : Visitor world args entries X Act)

/-- What a process has still to do before the next round of its loop. -/
def Post (ctl : Ctl) (g : Load X Act) : Prop :=
  V.Fits g.view ∧ match ctl with
    | .main => g.todo = visit V.directory V.file (args.path.getD []) entries ∧
        g.rest = visitsBelow V.directory V.file args (args.path.getD []) entries
    | _ => g.todo = [] ∧ g.rest = 0

/-- All regular files are known. -/
def Knows (dirname : Bytes) (content : Entries) : Prop :=
  ∀ path ∈ scannedPaths args content dirname, V.Known path

variable {V} {x : X} {todo : List Act} {rest : Multiset (List Act)} {dirname : Bytes}

/-- The rule of a call between two files. -/
theorem rule_between {o : Call} {Φ : o.Res → Load X Act → Prop} (ho : o.Between V.Stream) (hx : V.Fits x)
    (hends : ∀ status, o = .exit status → todo = [] ∧ rest = 0)
    (h : ∀ r x', V.Fits x' → Φ r ⟨x', todo, rest⟩) : V.account.protocol.rule ⟨x, todo, rest⟩ (.call o) Φ := by
  refine ⟨fun r x' hstep => ⟨todo, ?_, fun he => ?_, h r x' (V.between ho hx hstep)⟩,
    fun r x' hbroken => h r x' ((V.broken hbroken).2 hx)⟩
  · rw [V.acts_between ho, List.nil_append]
  · rcases V.ends he with rfl | ⟨status, rfl⟩
    · exact ho.elim
    · exact hends status rfl

/-- The rule for `receivedSigInt`, which is not set. -/
theorem rule_receivedSigInt {Φ : Bool → Load X Act → Prop} (hx : V.Fits x)
    (h : ∀ x', V.Fits x' → Φ false ⟨x', todo, rest⟩) :
    V.account.protocol.rule ⟨x, todo, rest⟩ (.call .receivedSigInt) Φ := by
  refine ⟨fun r x' hstep => ⟨todo, ?_, fun he => ?_, ?_⟩, fun r x' hbroken => ?_⟩
  · rw [V.acts_between (o := .receivedSigInt) trivial, List.nil_append]
  · rcases V.ends he with h | ⟨status, h⟩ <;> nomatch h
  · rw [V.receivedSigInt hx hstep]
    exact h x' (V.between (o := .receivedSigInt) trivial hx hstep)
  · exact nomatch (V.broken hbroken).1

/-- The rule for `opendir`. -/
theorem rule_opendir {Φ : Option ℕ → Load X Act → Prop} (hx : V.Fits x)
    (h : ∀ dir x', V.Stream dir → V.Fits x' → Φ (some dir) ⟨x', todo, rest⟩) :
    V.account.protocol.rule ⟨x, V.directory dirname ++ todo, rest⟩ (.call (.opendir dirname)) Φ := by
  refine ⟨fun r x' hstep => ⟨todo, ?_, fun he => ?_, ?_⟩, fun r x' hbroken => ?_⟩
  · rw [V.acts_opendir]
  · rcases V.ends he with h | ⟨status, h⟩ <;> nomatch h
  · obtain ⟨hx', dir, rfl, hdir⟩ := V.opendir hx hstep
    exact h dir x' hdir hx'
  · exact nomatch (V.broken hbroken).1

/-- Everything is written into its array. -/
theorem wp_within {b : Prop} [Decidable b] {Φ : Unit → Load X Act → Prop} {g : Load X Act} (h : Φ () g) :
    (within b).wp V.account.protocol Φ g :=
  wp_within_of_not_step V.overflow (fun hbroken => nomatch (V.broken hbroken).1) h

/-- The log does nothing. -/
theorem wp_logged {type : LogType} {act : Bytes} {Φ : Unit → Load X Act → Prop} (hx : V.Fits x)
    (h : ∀ x', V.Fits x' → Φ () ⟨x', todo, rest⟩) :
    (logged args type act).wp V.account.protocol Φ ⟨x, todo, rest⟩ := by
  unfold logged
  refine Prog.wp_ite (fun _ => ?_) fun _ => h x hx
  refine rule_between (o := .addLog type act) trivial hx nofun fun (stamp : Option Stamp) x' hx' => ?_
  cases stamp with
  | none => exact h x' hx'
  | some stamp => exact wp_within (h x' hx')

/-- Nor do the signals that are sent. -/
theorem wp_signalled {sig : Signal} {Φ : Unit → Load X Act → Prop} (hx : V.Fits x)
    (h : ∀ x', V.Fits x' → Φ () ⟨x', todo, rest⟩) :
    (signalled args sig).wp V.account.protocol Φ ⟨x, todo, rest⟩ := by
  unfold signalled
  refine Prog.wp_ite (fun _ => ?_) fun _ => h x hx
  exact rule_between (o := .kill sig) trivial hx nofun fun _ => h

/-- The end of the loop in `scanDir`. -/
theorem wp_closedir {dir frames : ℕ} (hx : V.Fits x) (hdir : V.Stream dir) :
    (do call (.closedir dir); return Ctl.waiting frames : Proc Ctl).wp V.account.protocol V.Post
      ⟨x, [], 0⟩ :=
  rule_between (o := .closedir dir) hdir hx nofun fun _ _ hx' => ⟨hx', rfl, rfl⟩

/-- `scanDir` up to its loop. -/
theorem wp_enterDir {loop : ℕ → Proc Ctl} {Φ : Ctl → Load X Act → Prop} (hx : V.Fits x)
    (h : ∀ dir x', V.Stream dir → V.Fits x' → (loop dir).wp V.account.protocol Φ ⟨x', todo, rest⟩) :
    (enterDir args dirname loop).wp V.account.protocol Φ ⟨x, V.directory dirname ++ todo, rest⟩ := by
  unfold enterDir
  rw [Prog.wp_bind]
  refine wp_signalled hx fun x' hx' => ?_
  exact rule_opendir (Φ := fun r => _) hx' fun dir x'' hdir hx'' => h dir x'' hdir hx''

/-- The loop of `scanDir`: the files that are left in the directory, and the directories below it. -/
theorem wp_scanEntries {dir frames : ℕ} (content : Entries) (hknows : V.Knows dirname content)
    (hdir : V.Stream dir) (hx : V.Fits x) :
    (scanEntries world.localtime args content dirname dir frames).wp V.account.protocol V.Post
      ⟨x, content.regularNames.flatMap fun name => V.file (joined dirname name),
        visitsBelow V.directory V.file args dirname content⟩ := by
  induction content generalizing dirname dir frames x with
  | nil =>
      rw [visitsBelow_nil]
      exact wp_closedir hx hdir
  | file name regular rest ih =>
      have hrest : V.Knows dirname rest := fun path h => hknows path (mem_scannedPaths_file.mpr (.inr h))
      refine rule_receivedSigInt (Φ := fun r => _) hx fun x' hx' => ?_
      refine Prog.wp_ite (fun hname => ?_) fun hname => Prog.wp_ite (fun hregular => ?_) fun hregular => ?_
      · rw [Entries.regularNames, if_neg (by simp [hname])]
        exact ih hrest hdir hx'
      · obtain rfl : regular = true := hregular
        rw [Bool.not_eq_true] at hname
        have hpath := hknows _ (mem_scannedPaths_file.mpr (.inl ⟨hname, rfl, rfl⟩))
        rw [Entries.regularNames, if_pos ⟨hname, rfl⟩, List.flatMap_cons]
        rw [Prog.wp_bind]
        refine wp_within ?_
        refine Prog.wp_seq (V.scanfile hpath hx') ?_
        rintro _ ⟨x'', todo, rest'⟩ ⟨hx'', rfl, rfl⟩
        exact ih hrest hdir hx''
      · rw [Entries.regularNames, if_neg (by simp [hregular])]
        exact ih hrest hdir hx'
  | directory name content rest ihContent ihRest =>
      have hrest : V.Knows dirname rest :=
        fun path h => hknows path (mem_scannedPaths_directory.mpr (.inr h))
      refine rule_receivedSigInt (Φ := fun r => _) hx fun x' hx' => ?_
      refine Prog.wp_ite (fun hname => ?_) fun hname => Prog.wp_ite (fun hr => ?_) fun hr => ?_
      · rw [visitsBelow_skip (.inl hname)]
        exact ihRest hrest hdir hx'
      · rw [Bool.not_eq_true] at hname
        rw [visitsBelow_directory hname hr]
        -- the child takes the visit of this directory and of those below it
        refine ⟨_, _, _, rfl, fun n hn => ?_, ?_⟩
        · exact ForkProg.wp_parent (p := do call (.printf errorCreatingChild); exit 1) hn
            (ihRest hrest hdir hx')
        · change Prog.wp _ (put (joined dirname name) >>= _) _ _
          rw [Prog.wp_bind]
          refine wp_within (wp_enterDir hx' fun dir' x'' hdir' hx'' => ihContent ?_ hdir' hx'')
          exact fun path h => hknows path (mem_scannedPaths_directory.mpr (.inl ⟨hname, hr, h⟩))
      · rw [Bool.not_eq_true] at hr
        rw [visitsBelow_skip (.inr hr)]
        exact ihRest hrest hdir hx'

/-- What a process runs for a control value. -/
theorem wp_body (hdir : args.isDir = true) (hknows : V.Knows (args.path.getD []) entries) (ctl : Ctl)
    {g : Load X Act} (h : V.Post ctl g) :
    (body world.localtime args entries ctl).wp V.account.protocol V.Post g := by
  obtain ⟨x, todo, rest⟩ := g
  obtain ⟨hx, hg⟩ := h
  cases ctl with
  | main =>
      obtain ⟨rfl, rfl⟩ := hg
      unfold body
      rw [Prog.wp_bind]
      refine wp_within ?_
      rw [Prog.wp_bind]
      refine wp_logged hx fun x' hx' => ?_
      rw [if_pos hdir]
      exact wp_enterDir hx' fun dir x'' hstream hx'' => wp_scanEntries entries hknows hstream hx''
  | waiting frames =>
      obtain ⟨rfl, rfl⟩ := hg
      refine rule_between (o := .wait) trivial hx nofun fun (waitRet : Option ℕ) x' hx' => ?_
      refine rule_between (o := .errno) trivial hx' nofun fun (errno : Errno) x'' hx'' => ?_
      change Prog.wp _ (if errno ≠ .echild ∧ waitRet ≠ none then _ else _) _ _
      exact Prog.wp_ite (fun _ => ⟨hx'', rfl, rfl⟩) fun _ => ⟨hx'', rfl, rfl⟩
  | returning frames =>
      obtain ⟨rfl, rfl⟩ := hg
      cases frames with
      | zero =>
          exact rule_between (o := .exit 0) trivial hx (fun _ _ => ⟨rfl, rfl⟩) fun _ _ hx' => ⟨hx', rfl, rfl⟩
      | succ frames => exact ⟨hx, rfl, rfl⟩

/-- The visits of all directories that are scanned. -/
def visits (V : Visitor world args entries X Act) : Multiset (List Act) :=
  ↑((scannedDirectories args entries).map fun d =>
    visit V.directory V.file (pathOf (args.path.getD []) d.1) d.2)

/-- They are those of the first directory and of the directories below it. -/
theorem visits_eq : V.visits = visit V.directory V.file (args.path.getD []) entries ::ₘ
    visitsBelow V.directory V.file args (args.path.getD []) entries := by
  rw [visits, scannedDirectories, List.map_cons, pathOf_nil]
  rfl

/-- **The balance of a scan**: what the processes have done and have still to do is the visits of all
directories. -/
theorem balanced {errno : Errno} {tr : List Event} {c : Family Call Call.Res Local Shared Ctl}
    (hdir : args.isDir = true) (hknows : V.Knows (args.path.getD []) entries)
    (hover : ¬ V.account.Over (firstLocal errno)) (hfits : V.Fits (V.account.view (firstLocal errno)))
    (hadmits : ∀ e ∈ tr, V.account.Admits e) (h : ForensicRun world args entries errno tr c) :
    V.account.Balanced V.visits tr c := by
  rw [visits_eq]
  exact Account.balanced (K := V.Post) (fun ctl _ => wp_body hdir hknows ctl) V.handler hover
    ⟨hfits, rfl, rfl⟩ hadmits h

end Visitor

end Sope.Forensic
