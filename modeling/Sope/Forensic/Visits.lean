import Sope.Forensic.Effects
import Sope.Forensic.Tree
import Sope.Forensic.Walk

/-! # What is visited

The calls of `opendir` and `scanfile` in a run, each with its path.

* `visitor` — the account of these calls. Whether `SIGUSR1` and `SIGUSR2` come does not matter.
* `balanced_visits` — what is visited, as long as nothing fails and nothing is written outside of an array. -/

namespace Sope.Forensic

open Concurrency

/-- A call of `opendir` or of `scanfile`. -/
inductive Visit
  | opened (dirname : Bytes)
  | scanned (path : Bytes)
  deriving DecidableEq

/-- The visits in a call. -/
def Call.visits : Call → List Visit
  | .opendir dirname => [.opened dirname]
  | .scanfile path => [.scanned path]
  | _ => []

/-- The visits of a process in something that has happened. -/
def Event.visits (pid : ℕ) : Event → List Visit
  | .exec pid' o _ _ => if pid' = pid then o.visits else []
  | _ => []

/-- The visits of a process in a run. -/
def visitsOf (tr : List Event) (pid : ℕ) : List Visit := tr.flatMap (Event.visits pid)

/-- The path of a file that is scanned. -/
def Visit.scanned? : Visit → Option Bytes
  | .opened _ => none
  | .scanned path => some path

/-- The file that is scanned, if something that has happened is the beginning of `scanfile`. -/
def Event.scan : Event → Option Bytes
  | .exec _ (.scanfile path) _ _ => some path
  | _ => none

/-- The files that are scanned in a run, by whichever process. -/
def scansOf (tr : List Event) : List Bytes := tr.filterMap Event.scan

/-- The visit of a directory: it is opened, and the regular files that are directly in it are scanned. -/
def directoryVisit (root : Bytes) (d : List Bytes × Entries) : List Visit :=
  .opened (pathOf root d.1) :: d.2.regularNames.map fun name => .scanned (pathOf root (d.1 ++ [name]))

/-- A process cannot be forked, or a directory cannot be opened; `popen` forks as well. -/
def fails : Event → Bool
  | .exec _ (.opendir _) (r : Option ℕ) _ => r.isNone
  | .exec _ (.popen _) (r : Option ℕ) _ => r.isNone
  | .forkFails _ => true
  | _ => false

/-- Something is written outside of an array. -/
def overflows : Event → Bool
  | .exec _ .overflow _ _ => true
  | _ => false

/-- A `SIGINT` is taken. -/
def takesSigInt : Event → Bool
  | .take _ sig _ => sig = .int
  | .interrupt _ sig _ _ _ => sig = .int
  | _ => false

/-- What `opendir` and `popen` return when they do not fail. -/
theorem ne_none_of_isNone {r : Option ℕ} (h : r.isNone = false) : r ≠ none := by
  rintro rfl
  nomatch h

/-! ## The account -/

section

variable (world : World) (args : ForensicArgs) (entries : Entries)

/-- What a call may return and leave of `receivedSigInt`, when nothing fails and nothing is written outside of
an array. -/
def visitStep : (o : Call) → Bool → o.Res → Bool → Prop
  | .receivedSigInt, x, r, x' => r = x ∧ x' = x
  | .opendir _, x, r, x' => r ≠ (none : Option ℕ) ∧ x' = x
  | .popen _, x, r, x' => r ≠ (none : Option ℕ) ∧ x' = x
  | .setReceivedSigInt, _, _, _ => True
  | .overflow, _, _, _ => False
  | _, x, _, x' => x' = x

/-- The account of the calls of `opendir` and `scanfile`. -/
def visitAccount : Account (forensic world args entries) Bool Visit where
  view l := l.receivedSigInt
  Admits e := fails e = false ∧ takesSigInt e = false ∧ overflows e = false
  acts o _ := o.visits
  step := visitStep
  broken o x _ x' := waits o = true ∧ x' = x
  Quiet sig _ := sig ≠ .int
  Ends o := o.ends = true
  Over l := l.ended = true
  stops := not_acts_of_ended
  exec_sound {pid o r l s l' s'} he hsem := by
    have hleaves := sem_leaves hsem
    refine ⟨?_, fun hover => hleaves.ended.symm.trans hover⟩
    cases o with
    | receivedSigInt =>
        obtain ⟨-, h | h⟩ := hsem
        · cases h
          exact ⟨rfl, rfl⟩
        · exact h.elim
    | opendir | popen => exact ⟨ne_none_of_isNone he.1, hleaves.receivedSigInt nofun⟩
    | setReceivedSigInt => trivial
    | overflow => cases he.2.2
    | _ => exact hleaves.receivedSigInt nofun
  fork_sound {pid n l s child l' s'} hfork := by
    obtain ⟨⟨hended, -⟩, h⟩ := hfork
    cases h
    exact ⟨rfl, rfl, not_ended hended, not_ended hended⟩
  forkFails_sound h := nomatch h.1
  take_sound {pid sig l s l' s'} he htake := by
    obtain ⟨⟨hended, -⟩, h⟩ := htake
    cases h
    exact ⟨of_decide_eq_false he.2.1, rfl, not_ended hended⟩
  interrupt_sound {pid sig o r l s l' s'} he hinterrupt := by
    obtain ⟨⟨hended, -⟩, -, hint⟩ := hinterrupt
    obtain ⟨hwaits, hsigInt, hended', -⟩ := interrupted_leaves hint
    exact ⟨of_decide_eq_false he.2.1, ⟨hwaits, hsigInt⟩, not_ended (hended'.trans hended)⟩

variable {world args entries}

/-- The rule of a call that is no visit. -/
theorem rule_unvisited {o : Call} {g : Load Bool Visit} {Φ : o.Res → Load Bool Visit → Prop}
    (hacts : o.visits = []) (hends : o.ends = false) (hkeeps : ∀ x r x', visitStep o x r x' → x' = x)
    (hstep : ∀ r, visitStep o g.view r g.view → Φ r g) (hbroken : waits o = true → ∀ r, Φ r g) :
    (visitAccount world args entries).protocol.rule g (.call o) Φ := by
  refine Account.rule_of_acts_eq_nil hacts (fun he => ?_) (fun r x' h => ?_) ?_
  · change o.ends = true at he
    rw [hends] at he
    nomatch he
  · obtain rfl := hkeeps _ _ _ h
    exact hstep r h
  · rintro r x' ⟨hwaits, rfl⟩
    exact hbroken hwaits r

/-- The calls of `scanfile` are no visits, but for the first one. -/
theorem allowance_visits (g₀ : Load Bool Visit) :
    Allowance args True (visitAccount world args entries).protocol fun _ g => g = g₀ where
  weaken _ h := h
  call {o n g Φ} ho hg h := by
    refine rule_unvisited ?_ ?_ ?_ (fun r _ => h r g hg) fun _ r => h r g hg
    · cases o with
      | scanfile | opendir => nomatch ho
      | _ => rfl
    · cases o with
      | exit | crash => nomatch ho
      | _ => rfl
    · intro x r x' hstep
      cases o with
      | receivedSigInt => exact hstep.2
      | setReceivedSigInt | opendir | popen | overflow => nomatch ho
      | _ => exact hstep
  kill _ hg h := rule_unvisited rfl rfl (fun _ _ _ h => h) (fun r _ => h r _ hg) nofun
  popen hg h := rule_unvisited rfl rfl (fun _ _ _ h => h.2) (fun r hr => h r _ (fun _ => hr.1) hg) nofun
  overflow _ _ := ⟨fun _ _ h => h.elim, fun _ _ h => nomatch h.1⟩
  crash h := (h trivial).elim

/-- The visits of a run as an account of what there is to do in a tree. -/
def visitor (world : World) (args : ForensicArgs) (entries : Entries) :
    Visitor world args entries Bool Visit where
  account := visitAccount world args entries
  directory dirname := [.opened dirname]
  file path := [.scanned path]
  Fits x := x = false
  Stream _ := True
  Known _ := True
  acts_opendir _ _ := rfl
  opendir {dirname x r x'} hx hstep := by
    obtain ⟨hr, rfl⟩ := hstep
    obtain ⟨dir, hdir⟩ := Option.ne_none_iff_exists'.mp hr
    exact ⟨hx, dir, hdir, trivial⟩
  receivedSigInt hx hstep := hstep.1.trans hx
  overflow h := h
  acts_between {o x} ho := by
    cases o with
    | scanfile | opendir => exact ho.elim
    | _ => rfl
  between {o x r x'} ho hx hstep := by
    cases o with
    | kill | addLog | wait | errno | exit | closedir => exact Eq.trans hstep hx
    | receivedSigInt => exact hstep.2.trans hx
    | _ => exact ho.elim
  broken h := ⟨h.1, fun hx => h.2.trans hx⟩
  ends {o} h := by
    cases o with
    | exit status => exact .inr ⟨status, rfl⟩
    | crash => exact .inl rfl
    | _ => nomatch h
  scanfile {path todo rest x} _ hx := by
    refine (allowance_visits ⟨x, todo, rest⟩).wp_scanfile (n := 0) (fun Ψ hΨ => ?_) ?_
    · refine ⟨fun r x' hstep => ⟨todo, rfl, nofun, ?_⟩, fun r x' h => nomatch h.1⟩
      obtain rfl : x' = x := hstep
      exact hΨ _ rfl
    · rintro r g rfl
      exact ⟨hx, rfl, rfl⟩
  handler sig g hquiet := by
    refine ForkProg.Calls.wp (fun o Φ ho h => ?_) (calls_handler_of_ne_int hquiet) fun _ => rfl
    refine rule_unvisited ?_ ?_ ?_ (fun r _ => h r) fun _ => h <;> cases o <;>
      first | rfl | exact fun _ _ _ hstep => hstep | nomatch ho

/-! ## Runs -/

variable {errno : Errno} {tr : List Event} {c : Family Call Call.Res Local Shared Ctl}

/-- What is done by the account is what is visited. -/
theorem done_eq_visitsOf (pid : ℕ) : (visitAccount world args entries).done tr pid = visitsOf tr pid := by
  refine congrArg (tr.flatMap ·) (funext fun e => ?_)
  cases e <;> rfl

/-- There is one visit for each directory. -/
theorem visits_visitor : (visitor world args entries).visits
    = ↑((scannedDirectories args entries).map (directoryVisit (args.path.getD []))) := by
  refine congrArg Multiset.ofList (List.map_congr_left fun d _ => ?_)
  simp only [visit, visitor, directoryVisit, pathOf_concat, List.singleton_append]
  rw [List.map_eq_flatMap]

/-- **What is visited.** -/
theorem balanced_visits (hdir : args.isDir = true)
    (hadmits : ∀ e ∈ tr, fails e = false ∧ takesSigInt e = false ∧ overflows e = false)
    (h : ForensicRun world args entries errno tr c) : (visitAccount world args entries).Balanced
      ↑((scannedDirectories args entries).map (directoryVisit (args.path.getD []))) tr c := by
  rw [← @visits_visitor world]
  exact (visitor world args entries).balanced hdir (fun _ _ => trivial) nofun rfl hadmits h

/-- The files that are scanned are among what is visited. -/
theorem scansOf_eq : scansOf tr
    = (tr.flatMap (visitAccount world args entries).allActsOf).filterMap Visit.scanned? := by
  rw [scansOf, List.filterMap_flatMap, List.filterMap_eq_flatMap_toList]
  refine congrArg (tr.flatMap ·) (funext fun e => ?_)
  cases e with
  | exec pid o r pre => cases o <;> rfl
  | _ => rfl

/-- The files in the directories that are visited. -/
theorem filterMap_directoryVisit (root : Bytes) (ds : List (List Bytes × Entries)) :
    (ds.flatMap (directoryVisit root)).filterMap Visit.scanned?
      = ds.flatMap fun d => d.2.regularNames.map fun name => pathOf root (d.1 ++ [name]) := by
  rw [List.filterMap_flatMap]
  refine congrArg (ds.flatMap ·) (funext fun d => ?_)
  rw [directoryVisit, List.filterMap_cons_none rfl, List.filterMap_map]
  exact congrFun List.filterMap_eq_map _

/-- **What is scanned.** When all processes have ended, these are all regular files. -/
theorem scansOf_perm (hdir : args.isDir = true)
    (hadmits : ∀ e ∈ tr, fails e = false ∧ takesSigInt e = false ∧ overflows e = false)
    (h : ForensicRun world args entries errno tr c) (hover : ∀ member ∈ c.members, member.loc.ended = true) :
    (scansOf tr).Perm (scannedPaths args entries (args.path.getD [])) := by
  have hall := (balanced_visits hdir hadmits h).all_eq hover h.pid_lt
  rw [Multiset.map_coe, Multiset.sum_coe, List.map_map] at hall
  have hsum : ∀ ds : List (List Bytes × Entries),
      (ds.map (Multiset.ofList ∘ directoryVisit (args.path.getD []))).sum
        = ↑(ds.flatMap (directoryVisit (args.path.getD []))) := by
    intro ds
    induction ds with
    | nil => rfl
    | cons d ds ih => rw [List.map_cons, List.sum_cons, ih, List.flatMap_cons, ← Multiset.coe_add]; rfl
  rw [hsum, Multiset.coe_eq_coe] at hall
  rw [@scansOf_eq world args entries, scannedPaths,
    ← filterMap_directoryVisit]
  exact hall.filterMap _

end

end Sope.Forensic
