import Sope.Concurrency.ForkProtocol
import Sope.Forensic.Calls
import Sope.Forensic.Processes

/-! # One way through the programs of the tool

An `Allowance` is a family of predicates on the ghost values of a protocol: `Allows n g` says that with the
ghost value `g` another `n` steps may be taken. Each call takes one of them, a call that adds a child some
more, and a fork hands a part of them to the child.

What `scanfile` and `scanDir` take is counted here once, for every protocol that has an allowance. -/

namespace Sope.Forensic

open Concurrency

/-- The calls that have no rule of their own. -/
def Call.plain : Call → Bool
  | .printf _ | .perror _ | .addLog .. | .dup _ | .openAppend _ | .dup2 .. | .close _ | .fopen _ | .stat _
  | .malloc | .fread .. | .fgets .. | .fclose _ | .write .. | .closedir _ | .receivedSigInt => true
  | _ => false

/-- A protocol with the steps that its ghost values allow in `scanfile`. If it is `strict`, then processes can
be forked, and nothing is written outside of an array. -/
structure Allowance (args : ForensicArgs) (strict : Prop) {Ghost : Type}
    (P : Protocol (ForkOp Call) (ForkOp.Res Call.Res) Ghost) (Allows : ℕ → Ghost → Prop) : Prop where
  weaken : ∀ {m n g}, m ≤ n → Allows n g → Allows m g
  call : ∀ {o n g Φ}, o.plain = true → Allows (n + 1) g → (∀ r g', Allows n g' → Φ r g') →
    P.rule g (.call o) Φ
  kill : ∀ {sig n g Φ}, args.o = true → Allows (n + 1) g → (∀ r g', Allows n g' → Φ r g') →
    P.rule g (.call (.kill sig)) Φ
  popen : ∀ {command n g Φ}, Allows (n + 5) g →
    (∀ (r : Option ℕ) g', (strict → r ≠ none) → Allows n g' → Φ r g') →
    P.rule g (.call (.popen command)) Φ
  overflow : ∀ {n g Φ}, Allows (n + 1) g → (¬ strict → ∀ (r : Bool) g', Allows n g' → Φ r g') →
    P.rule g (.call .overflow) Φ
  crash : ∀ {g Φ}, ¬ strict → P.rule g (.call .crash) Φ

/-- The same for `scanDir`. If it is `strict`, then directories can be opened, too. -/
structure DirAllowance (args : ForensicArgs) (strict : Prop) {Ghost : Type}
    (P : Protocol (ForkOp Call) (ForkOp.Res Call.Res) Ghost) (Allows : ℕ → Ghost → Prop) : Prop
    extends Allowance args strict P Allows where
  scanfile : ∀ {path n g Φ}, Allows (n + 1) g → (∀ r g', Allows n g' → Φ r g') →
    P.rule g (.call (.scanfile path)) Φ
  opendir : ∀ {dirname n g Φ}, Allows (n + 1) g →
    (∀ (r : Option ℕ) g', (strict → r ≠ none) → Allows n g' → Φ r g') →
    P.rule g (.call (.opendir dirname)) Φ
  fork : ∀ {m n g Φ}, Allows (m + n + 4) g → (∀ (pid : ℕ) g', 0 < pid → Allows n g' → Φ (pid : ℤ) g') →
    (∀ g', Allows m g' → Φ (0 : ℤ) g') → (¬ strict → ∀ g', Allows (n + 1) g' → Φ (-1 : ℤ) g') →
    P.rule g .fork Φ
  exit : ∀ {g Φ}, ¬ strict → P.rule g (.call (.exit 1)) Φ

namespace Allowance

variable {args : ForensicArgs} {strict : Prop} {Ghost : Type}
  {P : Protocol (ForkOp Call) (ForkOp.Res Call.Res) Ghost} {Allows : ℕ → Ghost → Prop}
  (A : Allowance args strict P Allows) {n : ℕ} {g : Ghost} {localtime : ℤ → Tm} {filename : Bytes}
include A

/-! ## One file -/

theorem wp_within {b : Prop} [Decidable b] {Φ : Unit → Ghost → Prop} (hg : Allows (n + 1) g)
    (h : ∀ g', Allows n g' → Φ () g') : (within b).wp P Φ g := by
  refine Prog.wp_ite (fun _ => h g (A.weaken (Nat.le_succ n) hg)) fun _ => ?_
  exact A.overflow hg fun hs goesOn g' hg' => Prog.wp_ite (fun _ => h g' hg') fun _ => A.crash hs

theorem wp_logged {type : LogType} {act : Bytes} {Φ : Unit → Ghost → Prop} (hg : Allows (n + 2) g)
    (h : ∀ g', Allows n g' → Φ () g') : (logged args type act).wp P Φ g := by
  unfold logged
  refine Prog.wp_ite (fun _ => ?_) fun _ => h g (A.weaken (by omega) hg)
  refine A.call (o := .addLog type act) rfl hg fun (stamp : Option Stamp) g₁ hg₁ => ?_
  cases stamp with
  | none => exact h g₁ (A.weaken (Nat.le_succ n) hg₁)
  | some stamp => exact A.wp_within hg₁ h

theorem wp_signalled {sig : Signal} {Φ : Unit → Ghost → Prop} (hg : Allows (n + 1) g)
    (h : ∀ g', Allows n g' → Φ () g') : (signalled args sig).wp P Φ g := by
  unfold signalled
  exact Prog.wp_ite (fun ho => A.kill ho hg fun _ => h) fun _ => h g (A.weaken (Nat.le_succ n) hg)

theorem wp_getFileType {Φ : Option Bytes → Ghost → Prop} (hg : Allows (n + 10) g)
    (h : ∀ r g', Allows n g' → Φ r g') : (getFileType filename).wp P Φ g := by
  refine A.call (o := .malloc) rfl hg fun memory g₀ hg₀ => ?_
  change Prog.wp P (put (fileCommand filename) >>= _) Φ g₀
  rw [Prog.wp_bind]
  refine A.wp_within hg₀ fun g₁ hg₁ => ?_
  refine A.popen hg₁ fun stream g₂ _ hg₂ => ?_
  cases stream with
  | none =>
      refine A.call (o := .printf _) rfl hg₂ fun _ g₃ hg₃ => ?_
      exact h none g₃ (A.weaken (by omega) hg₃)
  | some stream =>
      refine A.call (o := .fread stream (filename.length + 2)) rfl hg₂ fun start g₃ hg₃ => ?_
      refine A.call (o := .fgets stream maxChar) rfl hg₃ fun line g₄ hg₄ => ?_
      exact A.call (o := .fclose stream) rfl hg₄ fun _ g₅ hg₅ => h _ g₅ hg₅

/-- `getCheckSum` returns a string if it is strict. -/
theorem wp_getCheckSum {type : FileSumType} {Φ : Option Bytes → Ghost → Prop} (hg : Allows (n + 10) g)
    (h : ∀ r g', (strict → r ≠ none) → Allows n g' → Φ r g') : (getCheckSum filename type).wp P Φ g := by
  refine A.call (o := .malloc) rfl hg fun memory g₀ hg₀ => ?_
  change Prog.wp P (put (sumCommand type filename) >>= _) Φ g₀
  rw [Prog.wp_bind]
  refine A.wp_within hg₀ fun g₁ hg₁ => ?_
  refine A.popen hg₁ fun stream g₂ hstream hg₂ => ?_
  cases stream with
  | none =>
      refine A.call (o := .printf _) rfl hg₂ fun _ g₃ hg₃ => ?_
      exact h none g₃ (fun hstrict => (hstream hstrict rfl).elim) (A.weaken (by omega) hg₃)
  | some stream =>
      refine A.call (o := .fgets stream 200) rfl hg₂ fun line g₃ hg₃ => ?_
      change Prog.wp P (within _ >>= _) Φ g₃
      rw [Prog.wp_bind]
      refine A.wp_within hg₃ fun g₄ hg₄ => ?_
      exact A.call (o := .fclose stream) rfl hg₄ fun _ g₅ hg₅ => h _ g₅ (fun _ => nofun) hg₅

theorem wp_appendCheckSum {requested : Bool} {type : FileSumType} {info : Bytes}
    {Φ : Bytes → Ghost → Prop} (hg : Allows (n + 11) g) (h : ∀ r g', Allows n g' → Φ r g') :
    (appendCheckSum filename requested type info).wp P Φ g := by
  unfold appendCheckSum
  refine Prog.wp_ite (fun _ => ?_) fun _ => h info g (A.weaken (by omega) hg)
  rw [Prog.wp_bind]
  refine A.wp_getCheckSum hg fun checkSum g₁ hstrict hg₁ => ?_
  cases checkSum with
  | none => exact A.crash fun hs => hstrict hs rfl
  | some checkSum =>
      change Prog.wp P (put (info ++ [44] ++ checkSum) >>= _) Φ g₁
      rw [Prog.wp_bind]
      exact A.wp_within hg₁ fun g₂ hg₂ => h _ g₂ hg₂

theorem wp_restoreStdout {savedStdout : Option ℕ} {Φ : Unit → Ghost → Prop} (hg : Allows (n + 2) g)
    (h : ∀ g', Allows n g' → Φ () g') : (restoreStdout args savedStdout).wp P Φ g := by
  unfold restoreStdout
  refine Prog.wp_ite (fun _ => ?_) fun _ => h g (A.weaken (by omega) hg)
  refine A.call (o := .dup2 savedStdout stdoutFileno) rfl hg fun _ g₁ hg₁ => ?_
  exact A.call (o := .close savedStdout) rfl hg₁ fun _ g₂ hg₂ => h g₂ hg₂

/-- `scanfile` from the opening of the file on. -/
theorem wp_analyse {savedStdout : Option ℕ} {Φ : ℤ → Ghost → Prop} (hg : Allows (n + 52) g)
    (h : ∀ r g', Allows n g' → Φ r g') : (analyse localtime args filename savedStdout).wp P Φ g := by
  refine A.call (o := .fopen filename) rfl hg fun (file : Option ℕ) g₁ hg₁ => ?_
  cases file with
  | none => exact A.call (o := .perror filename) rfl hg₁ fun _ g₂ hg₂ => h 1 g₂ (A.weaken (by omega) hg₂)
  | some file =>
      refine A.call (o := .stat filename) rfl hg₁ fun st g₂ hg₂ => ?_
      change Prog.wp P (getFileType filename >>= _) Φ g₂
      rw [Prog.wp_bind]
      refine A.wp_getFileType hg₂ fun fileType g₃ hg₃ => ?_
      rw [Prog.wp_bind]
      refine A.wp_within hg₃ fun g₄ hg₄ => ?_
      rw [Prog.wp_bind]
      refine A.wp_appendCheckSum hg₄ fun info₁ g₅ hg₅ => ?_
      rw [Prog.wp_bind]
      refine A.wp_appendCheckSum hg₅ fun info₂ g₆ hg₆ => ?_
      rw [Prog.wp_bind]
      refine A.wp_appendCheckSum hg₆ fun info₃ g₇ hg₇ => ?_
      rw [Prog.wp_bind]
      refine A.wp_within hg₇ fun g₈ hg₈ => ?_
      refine A.call (o := .write stdoutFileno (info₃ ++ [10])) rfl hg₈ fun _ g₉ hg₉ => ?_
      change Prog.wp P (restoreStdout args savedStdout >>= _) Φ g₉
      rw [Prog.wp_bind]
      refine A.wp_restoreStdout hg₉ fun g₁₀ hg₁₀ => ?_
      rw [Prog.wp_bind]
      exact A.wp_logged hg₁₀ fun g₁₁ hg₁₁ => h 0 g₁₁ hg₁₁

/-- `scanfile`. -/
theorem wp_scanfile {Φ : ℤ → Ghost → Prop}
    (hg : ∀ Ψ : Unit → Ghost → Prop, (∀ g', Allows (n + 57) g' → Ψ () g') →
      P.rule g (.call (.scanfile filename)) Ψ)
    (h : ∀ r g', Allows n g' → Φ r g') : (scanfile localtime args filename).wp P Φ g := by
  refine hg _ fun g₁ hg₁ => ?_
  change Prog.wp P (signalled args .usr2 >>= _) Φ g₁
  rw [Prog.wp_bind]
  refine A.wp_signalled hg₁ fun g₂ hg₂ => ?_
  refine Prog.wp_ite (fun _ => ?_) fun _ => A.wp_analyse (A.weaken (by omega) hg₂) h
  refine A.call (o := .dup stdoutFileno) rfl hg₂ fun savedStdout g₃ hg₃ => ?_
  refine A.call (o := .openAppend _) rfl hg₃ fun (fdOut : Option ℕ) g₄ hg₄ => ?_
  cases fdOut with
  | none => exact A.call (o := .perror _) rfl hg₄ fun _ g₅ hg₅ => h 1 g₅ (A.weaken (by omega) hg₅)
  | some fdOut =>
      refine A.call (o := .dup2 (some fdOut) stdoutFileno) rfl hg₄ fun _ g₅ hg₅ => ?_
      refine A.call (o := .close (some fdOut)) rfl hg₅ fun _ g₆ hg₆ => ?_
      exact A.wp_analyse hg₆ h

end Allowance

/-! ## A directory -/

/-- The steps that the loop of `scanDir` may take, with those of the processes that it forks, if `ends` steps
are taken behind it. -/
def entriesSteps (ends : ℕ → ℕ) : Entries → ℕ → ℕ
  | .nil, frames => ends frames + 1
  | .file _ _ rest, frames => entriesSteps ends rest frames + 60
  | .directory _ content rest, frames =>
      (entriesSteps ends content (frames + 1) + 3) + entriesSteps ends rest frames + 4 + 1

/-- What is behind the loop can always be reached. -/
theorem ends_lt_entriesSteps (ends : ℕ → ℕ) (content : Entries) (frames : ℕ) :
    ends frames + 1 ≤ entriesSteps ends content frames := by
  induction content with
  | nil => exact Nat.le_refl _
  | file _ _ _ ih => exact ih.trans (Nat.le_add_right _ _)
  | directory _ _ _ _ ih =>
      rw [entriesSteps]
      omega

namespace DirAllowance

variable {args : ForensicArgs} {strict : Prop} {Ghost : Type}
  {P : Protocol (ForkOp Call) (ForkOp.Res Call.Res) Ghost} {Allows : ℕ → Ghost → Prop}
  (A : DirAllowance args strict P Allows) {n : ℕ} {g : Ghost} {localtime : ℤ → Tm} {dirname : Bytes}
  {ends : ℕ → ℕ} {Φ : Ctl → Ghost → Prop}
include A

theorem wp_closedir {dir frames : ℕ} (hΦ : ∀ frames g, Allows (ends frames) g → Φ (.waiting frames) g)
    (hg : Allows (ends frames + 1) g) :
    (do Forensic.call (.closedir dir); return Ctl.waiting frames : Proc Ctl).wp P Φ g :=
  A.call (o := .closedir dir) rfl hg fun _ => hΦ frames

/-- `scanDir` up to its loop. -/
theorem wp_enterDir {loop : ℕ → Proc Ctl} (hg : Allows (n + 2) g)
    (h : ∀ dir g', Allows n g' → (loop dir).wp P Φ g') : (enterDir args dirname loop).wp P Φ g := by
  unfold enterDir
  rw [Prog.wp_bind]
  refine A.toAllowance.wp_signalled hg fun g₁ hg₁ => ?_
  refine A.opendir hg₁ fun dir g₂ hstrict hg₂ => ?_
  cases dir with
  | none => exact A.crash fun hs => hstrict hs rfl
  | some dir => exact h dir g₂ hg₂

/-- The loop of `scanDir`. -/
theorem wp_scanEntries (hΦ : ∀ frames g, Allows (ends frames) g → Φ (.waiting frames) g)
    (content : Entries) {dir frames : ℕ} (hg : Allows (entriesSteps ends content frames) g) :
    (scanEntries localtime args content dirname dir frames).wp P Φ g := by
  induction content generalizing dirname dir frames g with
  | nil => exact A.wp_closedir hΦ hg
  | file name regular rest ih =>
      refine A.call (o := .receivedSigInt) rfl hg fun (stop : Bool) g₁ hg₁ => ?_
      have hstop := ends_lt_entriesSteps ends rest frames
      refine Prog.wp_ite (fun _ => A.wp_closedir hΦ (A.weaken (by omega) hg₁)) fun _ => ?_
      refine Prog.wp_ite (fun _ => ih (A.weaken (by omega) hg₁)) fun _ => ?_
      refine Prog.wp_ite (fun _ => ?_) fun _ => ih (A.weaken (by omega) hg₁)
      change Prog.wp P (put (joined dirname name) >>= fun _ =>
        Forensic.scanfile localtime args (joined dirname name) >>= _) Φ g₁
      rw [Prog.wp_bind]
      refine A.toAllowance.wp_within hg₁ fun g₂ hg₂ => ?_
      rw [Prog.wp_bind]
      exact A.toAllowance.wp_scanfile (fun _ h => A.scanfile hg₂ fun _ => h) fun _ g₃ hg₃ => ih hg₃
  | directory name content rest ihContent ihRest =>
      refine A.call (o := .receivedSigInt) rfl hg fun (stop : Bool) g₁ hg₁ => ?_
      have hstop := ends_lt_entriesSteps ends rest frames
      refine Prog.wp_ite (fun _ => A.wp_closedir hΦ (A.weaken (by omega) hg₁)) fun _ => ?_
      refine Prog.wp_ite (fun _ => ihRest (A.weaken (by omega) hg₁)) fun _ => ?_
      refine Prog.wp_ite (fun _ => ?_) fun _ => ihRest (A.weaken (by omega) hg₁)
      refine A.fork hg₁ ?_ ?_ ?_
      · intro pid g₂ hpid hg₂
        exact ForkProg.wp_parent (p := do Forensic.call (.printf errorCreatingChild); Forensic.exit 1) hpid
          (ihRest hg₂)
      · intro g₂ hg₂
        change Prog.wp P (put (joined dirname name) >>= _) Φ g₂
        rw [Prog.wp_bind]
        refine A.toAllowance.wp_within hg₂ fun g₃ hg₃ => ?_
        exact A.wp_enterDir hg₃ fun dir' g₄ hg₄ => ihContent hg₄
      · intro hstrict g₂ hg₂
        refine A.call (o := .printf errorCreatingChild) rfl hg₂ fun _ g₃ _ => ?_
        exact A.exit hstrict

variable (ends) in
/-- `scanDir`, called by `main`. -/
theorem wp_main {entries : Entries} (hdir : args.isDir = true)
    (hΦ : ∀ frames g, Allows (ends frames) g → Φ (.waiting frames) g)
    (hg : Allows (entriesSteps ends entries 0 + 5) g) : (body localtime args entries .main).wp P Φ g := by
  unfold body
  rw [Prog.wp_bind]
  refine A.toAllowance.wp_within hg fun g₁ hg₁ => ?_
  rw [Prog.wp_bind]
  refine A.toAllowance.wp_logged hg₁ fun g₂ hg₂ => ?_
  rw [if_pos hdir]
  exact A.wp_enterDir hg₂ fun dir g₃ hg₃ => A.wp_scanEntries hΦ entries hg₃

end DirAllowance

end Sope.Forensic
