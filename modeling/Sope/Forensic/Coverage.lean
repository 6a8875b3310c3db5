import Sope.Forensic.CheckSums
import Sope.Forensic.Kinship
import Sope.Forensic.Play
import Sope.Forensic.Visits

/-! # The coverage of a scan

Without `-o` and without signals, and if nothing is written outside of an array, a scan comes to an end
whatever the order of the steps is, and then every directory has been visited by one process, and every
regular file has been scanned once. A process may end before it has opened its directory if the path of this
is too long for the array.

* `stepProtocol` — the ghost value of a process is the number of steps that it may still take. A child that
  has not been waited for is owed three more, and a shell one for its exit.
* `length_le` — the length of a run is bounded.
* `exists_step` — as long as a process has not ended, there is a next step.
* `scans_once` — what has been visited. -/

namespace Sope.Forensic

open Concurrency

/-- A signal is taken. -/
def signals : Event → Bool
  | .take .. | .interrupt .. => true
  | _ => false

/-- Then no `SIGINT` is. -/
theorem takesSigInt_of_signals {e : Event} (h : signals e = false) : takesSigInt e = false := by
  cases e with
  | take | interrupt => nomatch h
  | _ => rfl

/-! ## The steps of a process -/

/-- Every step is paid for; to wait for a child gives back three. Nothing is written outside of an array. -/
def stepProtocol : Protocol (ForkOp Call) (ForkOp.Res Call.Res) ℕ where
  rule
    | g, .fork, Φ => ∃ m n, g = m + n + 4 ∧ (∀ pid : ℕ, 0 < pid → Φ (pid : ℤ) n) ∧ Φ (0 : ℤ) m
    | _, .call (.kill _), _ => False
    | g, .call .wait, Φ => ∃ n, g = n + 1 ∧ (∀ i : ℕ, Φ (some i) (n + 3)) ∧ Φ (none : Option ℕ) n
    | g, .call (.popen _), Φ => ∃ n, g = n + 5 ∧ ∀ r : Option ℕ, r ≠ none → Φ r n
    | g, .call (.opendir _), Φ => ∃ n, g = n + 1 ∧ ∀ r : Option ℕ, r ≠ none → Φ r n
    | _, .call .overflow, _ => True
    | g, .call (.exit _), _ => 0 < g
    | g, .call .crash, _ => 0 < g
    | g, .call _, Φ => ∃ n, g = n + 1 ∧ ∀ r, Φ r n
  mono {g o Φ Ψ} h hrule := by
    cases o with
    | fork =>
        obtain ⟨m, n, hg, hparent, hchild⟩ := hrule
        exact ⟨m, n, hg, fun pid hpid => h _ _ (hparent pid hpid), h _ _ hchild⟩
    | call o =>
        cases o with
        | kill | overflow | exit | crash => exact hrule
        | wait =>
            obtain ⟨n, hg, hsome, hnone⟩ := hrule
            exact ⟨n, hg, fun i => h _ _ (hsome i), h _ _ hnone⟩
        | popen | opendir =>
            obtain ⟨n, hg, hr⟩ := hrule
            exact ⟨n, hg, fun r hne => h _ _ (hr r hne)⟩
        | _ =>
            obtain ⟨n, hg, hr⟩ := hrule
            exact ⟨n, hg, fun r => h _ _ (hr r)⟩

/-- The calls that cost one step, and may return anything. -/
def Call.single : Call → Bool
  | .kill _ | .wait | .popen _ | .opendir _ | .overflow | .exit _ | .crash => false
  | _ => true

theorem rule_single {o : Call} {g : ℕ} {Φ : o.Res → ℕ → Prop} (ho : o.single = true) :
    stepProtocol.rule g (.call o) Φ ↔ ∃ n, g = n + 1 ∧ ∀ r, Φ r n := by
  cases o with
  | kill | wait | popen | opendir | overflow | exit | crash => nomatch ho
  | _ => exact Iff.rfl

/-- The programs without `-o` may be gone through. -/
theorem dirAllowance_stepProtocol {args : ForensicArgs} (ho : args.o = false) :
    DirAllowance args True stepProtocol fun n g => n ≤ g where
  weaken hle h := hle.trans h
  call {o n g Φ} hplain hg h := by
    refine (rule_single ?_).mpr ⟨g - 1, by omega, fun r => h r _ (by omega)⟩
    cases o <;> first | rfl | nomatch hplain
  kill h := by
    rw [ho] at h
    nomatch h
  popen {command n g Φ} hg h := ⟨g - 5, by omega, fun r hr => h r _ (fun _ => hr) (by omega)⟩
  overflow _ _ := trivial
  crash h := (h trivial).elim
  scanfile {path n g Φ} hg h := ⟨g - 1, by omega, fun r => h r _ (by omega)⟩
  opendir {dirname n g Φ} hg h := ⟨g - 1, by omega, fun r hr => h r _ (fun _ => hr) (by omega)⟩
  fork {m n g Φ} hg hparent hchild _ :=
    ⟨m, g - m - 4, by omega, fun pid hpid => hparent pid _ hpid (by omega), hchild _ (Nat.le_refl m)⟩
  exit h := (h trivial).elim

/-- The steps behind the loop of `scanDir`, with the next round of the process: one round of the loop in
`waitForChildren`, the returns, and `exit`. -/
def waitingSteps (frames : ℕ) : ℕ := frames + 5

/-- The steps that a process may take from the next round of its loop on. -/
def stepsFrom (entries : Entries) : Ctl → ℕ
  | .main => entriesSteps waitingSteps entries 0 + 6
  | .waiting frames => waitingSteps frames
  | .returning frames => frames + 2

/-- What a process runs. -/
theorem wp_body_stepProtocol {localtime : ℤ → Tm} {args : ForensicArgs} {entries : Entries}
    (hdir : args.isDir = true) (ho : args.o = false) (ctl : Ctl) {g : ℕ} (h : stepsFrom entries ctl ≤ g + 1) :
    (body localtime args entries ctl).wp stepProtocol (fun ctl g => stepsFrom entries ctl ≤ g) g := by
  cases ctl with
  | main =>
      refine (dirAllowance_stepProtocol ho).wp_main waitingSteps hdir (fun _ _ hg => hg) ?_
      simp only [stepsFrom] at h
      omega
  | waiting frames =>
      simp only [stepsFrom, waitingSteps] at h
      -- one round of the loop: `errno`, and back to it or out of it
      have hround : ∀ (waitRet : Option ℕ) (g' : ℕ), frames + 3 ≤ g' → (waitRet ≠ none → frames + 6 ≤ g') →
          Prog.wp stepProtocol
            (do
              let errno : Errno ← call .errno
              if errno ≠ .echild ∧ waitRet ≠ none then return .waiting frames
              else return .returning frames : Proc Ctl) (fun ctl g => stepsFrom entries ctl ≤ g) g' := by
        intro waitRet g' hle hsome
        refine ⟨g' - 1, by omega, fun (errno : Errno) => ?_⟩
        change Prog.wp _ (if errno ≠ .echild ∧ waitRet ≠ none then _ else _) _ _
        refine Prog.wp_ite (fun h => ?_) fun _ => ?_
        · have := hsome h.2
          simp only [Prog.pure_eq_ret, Prog.wp_ret, stepsFrom, waitingSteps]
          omega
        · simp only [Prog.pure_eq_ret, Prog.wp_ret, stepsFrom]
          omega
      exact ⟨g - 1, by omega, fun i => hround (some i) _ (by omega) fun _ => by omega,
        hround none _ (by omega) fun h => (h rfl).elim⟩
  | returning frames =>
      simp only [stepsFrom] at h
      cases frames with
      | zero =>
          change 0 < g
          omega
      | succ frames =>
          change frames + 2 ≤ g
          omega

/-! ## What is owed to the children -/

/-- The steps that are owed to a child: a round of the loop in which it is waited for, and the exit of a
shell. -/
def Child.owed (child : Child) : ℕ :=
  (if child.reaped then 0 else 3) + if child.process = none ∧ child.exited = false then 1 else 0

/-- The steps that are owed to all. -/
def owed (children : List Child) : ℕ := (children.map Child.owed).sum

/-- A child is appended. -/
theorem owed_append (children : List Child) (child : Child) :
    owed (children ++ [child]) = owed children + child.owed := by
  simp [owed]

/-- A child is changed. -/
theorem owed_modify {children : List Child} {i : ℕ} {child : Child} (f : Child → Child)
    (h : children[i]? = some child) :
    owed (children.modify i f) + child.owed = owed children + (f child).owed := by
  induction children generalizing i with
  | nil => nomatch h
  | cons c children ih =>
      cases i with
      | zero =>
          obtain rfl := Option.some.inj h
          simp only [owed, List.modify_zero_cons, List.map_cons, List.sum_cons]
          omega
      | succ i =>
          have := ih h
          simp only [owed, List.modify_succ_cons, List.map_cons, List.sum_cons] at this ⊢
          omega

/-- A child is waited for. -/
theorem owed_reap {children : List Child} {i pid : ℕ} {child : Child} (h : children[i]? = some child)
    (hzombie : child.zombie pid = true) : owed (reap children i) + 3 = owed children := by
  obtain ⟨hunreaped, hexited⟩ : child.unreaped pid = true ∧ child.exited = true := by
    simpa [Child.zombie] using hzombie
  obtain ⟨-, hreaped⟩ : child.parent = pid ∧ child.reaped = false := by simpa [Child.unreaped] using hunreaped
  have hmodify := owed_modify (fun child => { child with reaped := true }) h
  simpa [Child.owed, hexited, hreaped, reap] using hmodify

/-- A shell exits. -/
theorem owed_shellExits {s s' : Shared} (h : ShellExits s s') : owed s'.children + 1 = owed s.children := by
  obtain ⟨i, child, hchild, hshell, hexited, rfl⟩ := h
  have hmodify := owed_modify (fun child => { child with exited := true }) hchild
  simp only [Child.owed, hshell, hexited] at hmodify
  simp only [and_true, if_true, and_false, if_false, Bool.true_eq_false] at hmodify
  dsimp only
  omega

/-- A process ends. -/
theorem owed_exited (pid : ℕ) (st : State) : owed (st.exited pid).2.children = owed st.2.children := by
  refine congrArg List.sum ((List.map_map ..).trans (List.map_congr_left fun child _ => ?_))
  simp only [Function.comp_apply]
  split
  · next hprocess => simp [Child.owed, hprocess]
  · rfl

/-! ## The bound -/

section

variable {world : World} {args : ForensicArgs} {entries : Entries} {pid : ℕ} {st st' : State}

/-- The steps that a call leaves. -/
theorem sem_steps {o : Call} {r : o.Res} {g : ℕ} {Φ : o.Res → ℕ → Prop}
    (hrule : stepProtocol.rule g (.call o) Φ) (hfails : fails (.exec pid o r st) = false)
    (hfits : overflows (.exec pid o r st) = false) (hsem : o.Sem world pid st r st') :
    o.kills = false ∧ ∃ g', (o.ends = false → Φ r g') ∧
      g' + owed st'.2.children + 1 ≤ g + owed st.2.children := by
  have hleaves := sem_leaves hsem
  cases o with
  | kill => exact hrule.elim
  | overflow => cases hfits
  | wait =>
      obtain ⟨n, rfl, hsome, hnone⟩ := hrule
      -- the child that is reaped pays for the step
      obtain ⟨i, child, rfl, hchild, hzombie, rfl⟩ | ⟨rfl, -, rfl⟩ := sem_wait hsem
      · have hreap := owed_reap hchild hzombie
        refine ⟨rfl, n + 3, fun _ => hsome i, ?_⟩
        dsimp only
        omega
      · refine ⟨rfl, n, fun _ => hnone, ?_⟩
        dsimp only
        omega
  | popen command =>
      obtain ⟨n, rfl, hr⟩ := hrule
      refine ⟨rfl, n, fun _ => hr r (ne_none_of_isNone hfails), ?_⟩
      rcases popen_children hsem with h | h <;> rw [h]
      · omega
      · rw [owed_append]
        simp only [Child.owed]
        simp
        omega
  | opendir dirname =>
      obtain ⟨n, rfl, hr⟩ := hrule
      refine ⟨rfl, n, fun _ => hr r (ne_none_of_isNone hfails), ?_⟩
      rw [hleaves.children rfl]
      omega
  | exit | crash =>
      have hpos : 0 < g := hrule
      refine ⟨rfl, g - 1, nofun, ?_⟩
      rw [ends_children rfl hsem, owed_exited]
      omega
  | _ =>
      obtain ⟨n, rfl, hr⟩ := hrule
      refine ⟨rfl, n, fun _ => hr r, ?_⟩
      rw [hleaves.children rfl]
      omega

/-- The proof that the processes take no more steps than they may. -/
def covering (world : World) (args : ForensicArgs) (entries : Entries) (hdir : args.isDir = true)
    (ho : args.o = false) (bound : ℕ) : ForkProof (forensic world args entries) stepProtocol ℕ where
  Admits e := fails e = false ∧ signals e = false ∧ overflows e = false
  Over l := l.ended = true
  post ctl g := stepsFrom entries ctl ≤ g
  Final _ := True
  Sees _ st _ := st.1.due = none
  Sound _ _ := True
  weight _ _ g := g
  Whole tr s m := tr.length + m + owed s.children ≤ bound
  stops := not_acts_of_ended
  stable _ _ h := h
  stable_env _ h := h
  weight_other _ := rfl
  exec {tr n pid o r l s l' s' g Φ} _ _ hrule he hsem := by
    obtain ⟨hkills, g', hΦ, hle⟩ := sem_steps hrule he.1 he.2.2 hsem
    have hleaves := sem_leaves hsem
    refine ⟨g', hleaves.due hkills, fun _ => trivial, fun hover => hΦ ?_, fun m hm => ?_⟩
    · rw [← hleaves.ended]
      simpa using hover
    · dsimp only at hle ⊢
      rw [List.length_append, List.length_singleton]
      omega
  fork {tr n pid l s child l' s' g Φ} _ _ hrule hn _ _ hfork := by
    obtain ⟨⟨hended, hdue⟩, hforked⟩ := hfork
    cases hforked
    obtain ⟨below, own, rfl, hparent, hchild⟩ := hrule
    refine ⟨own, below, hdue, hdue, not_ended hended, not_ended hended, hparent n hn, hchild, fun m hm => ?_⟩
    rw [List.length_append, List.length_singleton, owed_append]
    simp only [Child.owed]
    simp
    omega
  forkFails _ _ he _ := Bool.noConfusion he.1
  loop {tr pid l s g x} hsees hpost _ := by
    have hpos : 0 < stepsFrom entries x := by
      cases x <;> exact Nat.succ_pos _
    refine ⟨g - 1, hsees, wp_body_stepProtocol hdir ho x (by omega), fun m hm => ?_⟩
    rw [List.length_append, List.length_singleton]
    omega
  take _ he _ := Bool.noConfusion he.2.1
  interrupt _ _ he _ := Bool.noConfusion he.2.1
  env {tr s s' m} henv _ h := by
    have hshell := owed_shellExits henv
    rw [List.length_append, List.length_singleton]
    omega

/-! ## Runs -/

variable {errno : Errno} {tr : List Event} {c : Family Call Call.Res Local Shared Ctl}

/-- The steps that a run may have. -/
def stepsOfRun (entries : Entries) : ℕ := stepsFrom entries .main

/-- The proof holds in every run without failures and signals in which nothing is written outside of an
array. -/
theorem covering_of_run (hdir : args.isDir = true) (ho : args.o = false)
    (hgood : ∀ e ∈ tr, fails e = false ∧ signals e = false) (hfits : ∀ e ∈ tr, overflows e = false)
    (h : ForensicRun world args entries errno tr c) :
    ∃ g, (covering world args entries hdir ho (stepsOfRun entries)).Invariant tr c g := by
  have hwhole : ([] : List Event).length + stepsOfRun entries + owed firstShared.children
      ≤ stepsOfRun entries := Nat.le_of_eq (Nat.zero_add _)
  have hdue : (firstLocal errno).due = none := rfl
  exact ForkProof.run (F := covering world args entries hdir ho (stepsOfRun entries)) (not_ended rfl) hdue
    (Nat.le_refl _) hwhole (fun _ _ _ _ => trivial)
    (fun e he => ⟨(hgood e he).1, (hgood e he).2, hfits e he⟩) h

/-- A call that does not succeed at once is a `wait` for children that have not exited. -/
theorem perform_eq_none {o : Call} (h : o.perform world pid st = none) :
    o = .wait ∧ st.2.children.findIdx? (Child.zombie pid) = none ∧
      st.2.children.any (Child.unreaped pid) = true := by
  cases o with
  | wait =>
      rw [perform_wait] at h
      split at h
      · cases h
      · next hzombie =>
          split at h
          · next hany => exact ⟨rfl, hzombie, hany⟩
          · cases h
  | dup fd =>
      rw [perform_dup] at h
      split at h <;> cases h
  | dup2 fd fd' =>
      rw [perform_dup2] at h
      split at h <;> cases h
  | close fd => cases fd <;> cases h
  | fgets stream n =>
      rw [perform_fgets] at h
      split at h <;> cases h
  | count sig => cases sig <;> cases h
  | _ => cases h

/-- A call that succeeds does not fail. -/
theorem fails_of_perform {o : Call} {r : o.Res} (h : o.perform world pid st = some (r, st')) :
    fails (.exec pid o r st) = false := by
  cases o with
  | opendir | popen =>
      cases h
      rfl
  | _ => rfl

/-- The last element of a list with a property. -/
theorem exists_last {α : Type} {P : α → Prop} {l : List α} (h : ∃ a ∈ l, P a) :
    ∃ (i : ℕ) (a : α), l[i]? = some a ∧ P a ∧ ∀ (j : ℕ) (b : α), i < j → l[j]? = some b → ¬ P b := by
  induction l with
  | nil => simp at h
  | cons a l ih =>
      by_cases hrest : ∃ b ∈ l, P b
      · obtain ⟨i, b, hi, hb, hlast⟩ := ih hrest
        refine ⟨i + 1, b, hi, hb, fun j c hj hc => ?_⟩
        obtain ⟨j, rfl⟩ := Nat.exists_eq_add_one_of_ne_zero (Nat.ne_zero_of_lt hj)
        exact hlast j c (Nat.lt_of_succ_lt_succ hj) hc
      · obtain ⟨b, hb, hP⟩ := h
        rcases List.mem_cons.mp hb with rfl | hb
        · refine ⟨0, b, rfl, hP, fun j c hj hc hPc => hrest ⟨c, ?_, hPc⟩⟩
          obtain ⟨j, rfl⟩ := Nat.exists_eq_add_one_of_ne_zero (Nat.ne_zero_of_lt hj)
          exact List.mem_of_getElem? hc
        · exact (hrest ⟨b, hb, hP⟩).elim

/-- As long as a process has not ended, there is a next step: the youngest of these processes can take one, or
the shell that it waits for can exit. -/
theorem exists_step (hkin : Kinship c)
    (hdue : ∀ (pid : ℕ) (member : Running Call Call.Res Local Ctl), c.members[pid]? = some member →
      member.loc.due = none)
    (hleft : ∃ member ∈ c.members, member.loc.ended = false) :
    ∃ e c', (forensic world args entries).Step c e c' ∧ fails e = false ∧ signals e = false := by
  obtain ⟨pid, ⟨l, p⟩, hmember, hended, hyoungest⟩ := exists_last hleft
  have hready : Ready (l, c.shared) := ⟨hended, hdue pid _ hmember⟩
  cases p with
  | ret ctl => exact ⟨_, _, .loop hmember hended, rfl, rfl⟩
  | op o k =>
      cases o with
      | fork => exact ⟨_, _, .fork hmember ⟨hready, rfl⟩, rfl, rfl⟩
      | call o =>
          cases hperform : o.perform world pid (l, c.shared) with
          | some result =>
              obtain ⟨r, l', s'⟩ := result
              exact ⟨_, _, .exec hmember ⟨hready, .inl hperform⟩, fails_of_perform hperform, rfl⟩
          | none =>
              obtain ⟨rfl, hzombie, hany⟩ := perform_eq_none hperform
              obtain ⟨child, hchild, hunreaped⟩ := List.any_eq_true.mp hany
              have hexited : child.exited = false := by
                have := List.findIdx?_eq_none_iff.mp hzombie child hchild
                simpa [Child.zombie, hunreaped] using this
              cases hprocess : child.process with
              | none =>
                  obtain ⟨i, hi⟩ := List.mem_iff_getElem?.mp hchild
                  exact ⟨_, _, .env ⟨i, child, hi, hprocess, hexited, rfl⟩, rfl, rfl⟩
              | some j =>
                  -- a younger process, so it has ended
                  obtain ⟨hparent, hlt⟩ := hkin.older child hchild j hprocess
                  have hpid : child.parent = pid := by
                    simp only [Child.unreaped, decide_eq_true_eq] at hunreaped
                    exact hunreaped.1
                  have hj := List.getElem?_eq_getElem hlt
                  have hover := Bool.of_not_eq_false (hyoungest j _ (hpid ▸ hparent) hj)
                  have hexited' := (hkin.exited child hchild j _ hprocess hj).mpr hover
                  rw [hexited] at hexited'
                  cases hexited'

end

/-- `forensic -r evidence`. -/
def recursiveArgs : ForensicArgs :=
  { zeroArgs with
    r := true
    isDir := true
    path := some evidence
    command := commandOf [forensicName, optionR, evidence] }

/-- Directories with this name, one in the other, and what is in the last one. -/
def nested (name : Bytes) : ℕ → Entries → Entries
  | 0, content => content
  | depth + 1, content => .directory name (nested name depth content) .nil

/-- Four directories with names of 255 characters, and a file `b` in the last one. -/
def deepTree : Entries := nested (List.replicate 255 97) 4 (.file [98] true .nil)

/-- The processes for the first three directories wait for the one for the fourth, which ends at once. -/
def diesBelow : List (ForkPick Signal ℕ) :=
  List.replicate 4 (.run 0) ++ List.replicate 3 (.run 1) ++ List.replicate 3 (.run 2) ++
    List.replicate 3 (.run 3) ++ List.replicate 2 (.run 4) ++ List.replicate 12 (.run 3) ++
    List.replicate 11 (.run 2) ++ List.replicate 10 (.run 1) ++ List.replicate 9 (.run 0)

end Sope.Forensic
