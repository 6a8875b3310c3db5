import Sope.Forensic.Kinship
import Sope.Forensic.Play
import Sope.Forensic.Redirection
import Sope.Forensic.Visits

/-! # Waiting for all children

`waitForChildren` goes on waiting until `wait` returns `-1`. With `-o` the processes send signals to the
original one, and a `wait` that a handler interrupts returns `-1`, too: then the process goes on to its end
with children left.

* `Knowledge` — what a process knows of `errno` and of its children.
* `outliving` — the proof about it, for runs in which no `wait` is interrupted.
* `outlives_children` — a process that has waited has no child left. -/

namespace Sope.Forensic

open Concurrency

/-- A `wait` is interrupted by the handler of a signal. -/
def interruptsWait : Event → Bool
  | .interrupt _ _ .wait _ _ => true
  | _ => false

/-! ## What a process knows -/

/-- What a process knows. -/
structure Knowledge where
  /-- `errno` is not `ECHILD`. -/
  fresh : Bool
  /-- There is no child that it has not waited for. -/
  childless : Bool

/-- What it learns. If it is `strict`, then nothing fails, and nothing is written outside of an array. -/
def waitProtocol (strict : Prop) : Protocol (ForkOp Call) (ForkOp.Res Call.Res) Knowledge where
  rule
    | g, .fork, Φ => (∀ pid : ℕ, 0 < pid → Φ (pid : ℤ) ⟨g.fresh, false⟩) ∧ Φ (0 : ℤ) ⟨g.fresh, false⟩ ∧
        (¬ strict → Φ (-1 : ℤ) g)
    | g, .call .wait, Φ => (∀ i : ℕ, Φ (some i) ⟨g.fresh, false⟩) ∧ Φ (none : Option ℕ) ⟨false, true⟩
    | g, .call .errno, Φ => ∀ r : Errno, (g.fresh = true → r ≠ .echild) → Φ r g
    | g, .call (.popen _), Φ => ∀ r : Option ℕ, (strict → r ≠ none) → Φ r ⟨g.fresh, false⟩
    | g, .call (.opendir _), Φ => ∀ r : Option ℕ, (strict → r ≠ none) → Φ r g
    | g, .call .overflow, Φ => ¬ strict → ∀ r : Bool, Φ r g
    | g, .call (.exit _), _ => strict → g.childless = true
    | g, .call .crash, _ => strict → g.childless = true
    | g, .call _, Φ => ∀ r, Φ r g
  mono {g o Φ Ψ} h hrule := by
    cases o with
    | fork => exact ⟨fun pid hpid => h _ _ (hrule.1 pid hpid), h _ _ hrule.2.1, fun hs => h _ _ (hrule.2.2 hs)⟩
    | call o =>
        cases o with
        | wait => exact ⟨fun i => h _ _ (hrule.1 i), h _ _ hrule.2⟩
        | errno | popen | opendir => exact fun r hr => h _ _ (hrule r hr)
        | overflow => exact fun hs r => h _ _ (hrule hs r)
        | exit | crash => exact hrule
        | _ => exact fun r => h _ _ (hrule r)

/-- The other calls teach it nothing. -/
def Call.silent : Call → Bool
  | .wait | .errno | .popen _ | .opendir _ | .overflow | .exit _ | .crash => false
  | _ => true

theorem rule_silent {strict : Prop} {o : Call} {g : Knowledge} {Φ : o.Res → Knowledge → Prop}
    (ho : o.silent = true) : (waitProtocol strict).rule g (.call o) Φ ↔ ∀ r, Φ r g := by
  cases o with
  | wait | errno | popen | opendir | overflow | exit | crash => nomatch ho
  | _ => exact Iff.rfl

/-- What it knows of `errno` it knows up to the loop of `waitForChildren`. -/
theorem dirAllowance_waitProtocol (args : ForensicArgs) (strict : Prop) :
    DirAllowance args strict (waitProtocol strict) fun _ g => g.fresh = true where
  weaken _ h := h
  call {o n g Φ} ho hg h := by
    refine (rule_silent ?_).mpr fun r => h r g hg
    cases o <;> first | rfl | cases ho
  kill hg ho h := fun r => h r _ ho
  popen hg h := fun r hr => h r _ hr hg
  overflow hg h := fun hs r => h hs r _ hg
  crash hs := fun h => (hs h).elim
  scanfile hg h := fun r => h r _ hg
  opendir hg h := fun r hr => h r _ hr hg
  fork hg hparent hchild hfails := ⟨fun pid hpid => hparent pid _ hpid hg, hchild _ hg, fun hs => hfails hs _ hg⟩
  exit hs := fun h => (hs h).elim

/-- What a process knows when it comes back to its loop. -/
def Knowledge.Post (ctl : Ctl) (g : Knowledge) : Prop :=
  match ctl with
  | .main | .waiting _ => g.fresh = true
  | .returning _ => g.childless = true

/-- What it runs. -/
theorem wp_body_waitProtocol {localtime : ℤ → Tm} {args : ForensicArgs} {entries : Entries} {strict : Prop}
    (hdir : args.isDir = true) (ctl : Ctl) {g : Knowledge} (h : Knowledge.Post ctl g) :
    (body localtime args entries ctl).wp (waitProtocol strict) Knowledge.Post g := by
  cases ctl with
  | main =>
      exact (dirAllowance_waitProtocol args strict).wp_main (fun _ => 0) hdir (fun _ _ hg => hg) h
  | waiting frames =>
      have hround : ∀ (waitRet : Option ℕ) (g' : Knowledge), (waitRet = none → g'.childless = true) →
          (waitRet ≠ none → g'.fresh = true) → Prog.wp (waitProtocol strict)
            (do
              let errno : Errno ← call .errno
              if errno ≠ .echild ∧ waitRet ≠ none then return .waiting frames
              else return .returning frames : Proc Ctl) Knowledge.Post g' := by
        intro waitRet g' hnone hsome errno herrno
        refine Prog.wp_ite (fun h => ?_) fun h => ?_
        · exact hsome h.2
        · refine hnone (Classical.byContradiction fun hne => h ⟨herrno (hsome hne), hne⟩)
      exact ⟨fun i => hround (some i) _ nofun fun _ => h, hround none _ (fun _ => rfl) fun h => (h rfl).elim⟩
  | returning frames =>
      cases frames with
      | zero => exact fun _ => h
      | succ frames => exact h

/-! ## The proof -/

section

variable {world : World} {args : ForensicArgs} {entries : Entries} {pid : ℕ} {st st' : State}

/-- What is known is true. -/
structure Knowledge.Holds (g : Knowledge) (pid : ℕ) (st : State) : Prop where
  fresh : g.fresh = true → st.1.errno ≠ .echild
  childless : g.childless = true → st.2.children.any (Child.unreaped pid) = false

/-- What a process learns from a call. -/
theorem Knowledge.Holds.sem {strict : Prop} {g : Knowledge} {o : Call} {r : o.Res}
    {Φ : o.Res → Knowledge → Prop} (h : g.Holds pid st) (hrule : (waitProtocol strict).rule g (.call o) Φ)
    (hsucceeds : strict → fails (.exec pid o r st) = false ∧ overflows (.exec pid o r st) = false)
    (hsem : o.Sem world pid st r st')
    (hends : o.ends = false) : ∃ g' : Knowledge, g'.Holds pid st' ∧ Φ r g' := by
  have hleaves := sem_leaves hsem
  -- no call but `wait` sets `errno` to `ECHILD`
  have hfresh : o ≠ .wait → g.fresh = true → st'.1.errno ≠ .echild := by
    intro ho hg
    rcases hleaves.errno ho with heq | heq <;> rw [heq]
    · exact h.fresh hg
    · nofun
  have hchildless : o.registers = false → g.childless = true →
      st'.2.children.any (Child.unreaped pid) = false := by
    intro ho hg
    rw [hleaves.children ho]
    exact h.childless hg
  cases o with
  | wait =>
      obtain ⟨i, child, rfl, -, -, rfl⟩ | ⟨rfl, hnone, rfl⟩ := sem_wait hsem
      · exact ⟨⟨g.fresh, false⟩, ⟨h.fresh, nofun⟩, hrule.1 i⟩
      · exact ⟨⟨false, true⟩, ⟨nofun, fun _ => hnone⟩, hrule.2⟩
  | errno =>
      refine ⟨g, ⟨hfresh nofun, hchildless rfl⟩, hrule r fun hg => ?_⟩
      obtain ⟨-, h' | h'⟩ := hsem
      · cases h'
        exact h.fresh hg
      · exact h'.elim
  | popen command =>
      exact ⟨⟨g.fresh, false⟩, ⟨hfresh nofun, nofun⟩, hrule r fun hs => ne_none_of_isNone (hsucceeds hs).1⟩
  | opendir dirname =>
      exact ⟨g, ⟨hfresh nofun, hchildless rfl⟩, hrule r fun hs => ne_none_of_isNone (hsucceeds hs).1⟩
  | overflow => exact ⟨g, ⟨hfresh nofun, hchildless rfl⟩, hrule (fun hs => nomatch (hsucceeds hs).2) r⟩
  | exit | crash => nomatch hends
  | _ => exact ⟨g, ⟨hfresh nofun, hchildless rfl⟩, hrule r⟩

/-- The handlers teach a process nothing. -/
theorem wp_handler_waitProtocol {strict : Prop} (sig : Signal) (g : Knowledge) :
    (handler args sig).wp (waitProtocol strict) (fun _ g' => g' = g) g := by
  by_cases hsig : sig = .int
  · subst hsig
    exact fun _ _ => rfl
  · refine ForkProg.Calls.wp (fun o Φ ho h => (rule_silent ?_).mpr h) (calls_handler_of_ne_int hsig) fun _ => rfl
    cases o <;> first | rfl | cases ho

/-- The proof that a process with no child left knows it. -/
def outliving (world : World) (args : ForensicArgs) (entries : Entries) (strict : Prop)
    (hdir : args.isDir = true) : ForkProof (forensic world args entries) (waitProtocol strict) ℕ where
  Admits e := interruptsWait e = false ∧ (strict → fails e = false ∧ overflows e = false)
  Over l := l.ended = true
  post := Knowledge.Post
  Final g := strict → g.childless = true
  Sees pid st g := g.Holds pid st
  Sound _ _ := True
  weight _ _ _ := 0
  Whole _ _ _ := True
  stops := not_acts_of_ended
  stable hpid hacts h := ⟨h.fresh, fun hg => acts_unreaped hpid hacts (h.childless hg)⟩
  stable_env henv h := ⟨h.fresh, fun hg => shellExits_unreaped henv (h.childless hg)⟩
  weight_other _ := rfl
  exec {tr n pid o r l s l' s' g Φ} _ hsees hrule he hsem := by
    have hleaves := sem_leaves hsem
    by_cases hends : o.ends = true
    · have hover : l'.ended = true := hleaves.ended.trans hends
      refine ⟨⟨false, g.childless⟩, ⟨nofun, fun hg => ?_⟩, fun _ => ?_, fun h => (h hover).elim,
        fun _ _ => trivial⟩
      · change s'.children.any (Child.unreaped pid) = false
        rw [ends_children hends hsem, exited_unreaped]
        exact hsees.childless hg
      · cases o with
        | exit | crash => exact hrule
        | _ => nomatch hends
    · rw [Bool.not_eq_true] at hends
      obtain ⟨g', hg', hΦ⟩ := hsees.sem hrule he.2 hsem hends
      exact ⟨g', hg', fun h => (not_ended (hleaves.ended.trans hends) h).elim, fun _ => hΦ, fun _ _ => trivial⟩
  fork {tr n pid l s child l' s' g Φ} _ hsees hrule hn _ _ hfork := by
    obtain ⟨⟨hended, -⟩, hforked⟩ := hfork
    cases hforked
    exact ⟨⟨g.fresh, false⟩, ⟨g.fresh, false⟩, ⟨hsees.fresh, nofun⟩, ⟨hsees.fresh, nofun⟩, not_ended hended,
      not_ended hended, hrule.1 n hn, hrule.2.1, fun _ _ => trivial⟩
  forkFails {tr pid l s l' s' g Φ} hsees hrule he hfails := by
    obtain ⟨⟨hended, -⟩, h⟩ := hfails
    cases h
    exact ⟨g, ⟨fun _ => nofun, hsees.childless⟩, not_ended hended, hrule.2.2 (fun hs => nomatch (he.2 hs).1),
      fun _ _ => trivial⟩
  loop {tr pid l s g x} hsees hpost _ := ⟨g, hsees, wp_body_waitProtocol hdir x hpost, fun _ _ => trivial⟩
  take {tr pid sig l s l' s' g} hsees _ htake := by
    obtain ⟨⟨hended, -⟩, h⟩ := htake
    cases h
    exact ⟨g, ⟨hsees.fresh, hsees.childless⟩, not_ended hended, wp_handler_waitProtocol sig g,
      fun _ _ => trivial⟩
  interrupt {tr pid sig o r l s l' s' g Φ} hsees hrule he hinterrupt := by
    obtain ⟨⟨hended, -⟩, -, hint⟩ := hinterrupt
    obtain ⟨hwaits, -, hended', herrno, -, hshared⟩ := interrupted_leaves hint
    refine ⟨g, g, ⟨fun _ => ?_, fun hg => ?_⟩, not_ended (hended'.trans hended), ?_,
      wp_handler_waitProtocol sig g, fun _ _ => trivial⟩
    · rw [herrno]
      nofun
    · rw [hshared]
      exact hsees.childless hg
    · cases o with
      | wait => nomatch he.1
      | fread | fgets => exact hrule r
      | _ => nomatch hwaits
  env _ _ _ := trivial

/-! ## Runs -/

variable {errno : Errno} {tr : List Event} {c : Family Call Call.Res Local Shared Ctl}

/-- What the processes of a run know, if no `wait` is interrupted. -/
theorem outliving_of_run (strict : Prop) (hdir : args.isDir = true) (herrno : errno ≠ .echild)
    (hwaits : ∀ e ∈ tr, interruptsWait e = false)
    (hsucceeds : strict → ∀ e ∈ tr, fails e = false ∧ overflows e = false)
    (h : ForensicRun world args entries errno tr c) :
    ∃ g, (outliving world args entries strict hdir).Invariant tr c g := by
  have hfirst : Knowledge.Holds ⟨true, false⟩ 0 (firstLocal errno, firstShared) := ⟨fun _ => herrno, nofun⟩
  exact ForkProof.run (F := outliving world args entries strict hdir) (not_ended rfl) hfirst rfl
    trivial (fun _ _ _ _ => trivial) (fun e he => ⟨hwaits e he, fun hs => hsucceeds hs e he⟩) h

/-- When the first process has ended, all have, if those that have ended have no child left. -/
theorem all_ended {hdir : args.isDir = true} {g : ℕ → Knowledge} (hkin : Kinship c)
    (hg : (outliving world args entries True hdir).Invariant tr c g)
    (hfirst : ∀ member : Running Call Call.Res Local Ctl, c.members[0]? = some member →
      member.loc.ended = true) (pid : ℕ) :
    ∀ member : Running Call Call.Res Local Ctl, c.members[pid]? = some member → member.loc.ended = true := by
  induction pid using Nat.strong_induction_on with
  | _ pid ih =>
      intro member hmember
      rcases Nat.eq_zero_or_pos pid with rfl | hpos
      · exact hfirst member hmember
      · obtain ⟨child, hchild, hprocess⟩ := hkin.entry pid hpos (List.getElem?_eq_some_iff.mp hmember).1
        obtain ⟨hparent, hlt⟩ := hkin.older child hchild pid hprocess
        -- the parent has ended, so it has waited for this child
        have hparent' := List.getElem?_eq_getElem (hparent.trans hlt)
        have hover := ih child.parent hparent _ hparent'
        have hholds := hg.holds child.parent _ hparent'
        have hnone := hholds.sees.childless (hholds.final hover trivial)
        rw [List.any_eq_false] at hnone
        have hreaped : child.reaped = true := by
          simpa [Child.unreaped] using hnone child hchild
        exact (hkin.exited child hchild pid member hprocess hmember).mp (hkin.reaped child hchild hreaped)

end

/-- The child sends `SIGUSR1`, which interrupts the original process. -/
def childInterrupts : List (ForkPick Signal ℕ) :=
  childBegins ++ [.run 1, .interrupt 0 .usr1] ++ List.replicate 5 (.run 0)

/-- The original process has returned from `waitForChildren`, with a child left. -/
def returnsEarly (c : Family Call Call.Res Local Shared Ctl) : Bool :=
  match (c.members[0]? : Option (Running Call Call.Res Local Ctl)) with
  | some ⟨l, .ret (.returning 0)⟩ => !l.ended && c.shared.children.any (Child.unreaped 0)
  | _ => false

end Sope.Forensic
