import Sope.Concurrency.ForkProtocol
import Sope.Forensic.Calls
import Sope.Forensic.Effects
import Sope.Forensic.Play
import Sope.Forensic.Redirection

/-! # The counters

With `-o`, every `scanDir` and every `scanfile` announces itself to the original process, which counts: `scanDir`
sends `SIGUSR1` before it opens the directory, `scanfile` sends `SIGUSR2` when it begins. A signal that is sent
while the same one is pending comes to nothing.

* `Merges` — such a signal is sent.
* `Tally` — what a process has still to count, and what it has announced and not begun, or begun and not
  announced.
* `counting` — the proof that nothing else is lost.
* `counts_every_event` — in a run without such signals both counters come out right. -/

namespace Sope.Forensic

open Concurrency

/-! ## What is counted -/

/-- The signal that the call sends. -/
def Call.sends : Call → Option Signal
  | .kill sig => some sig
  | _ => none

/-- The signal that announces what the call is the beginning of: `scanDir` calls `opendir` once. -/
def Call.begins : Call → Option Signal
  | .opendir _ => some .usr1
  | .scanfile _ => some .usr2
  | _ => none

/-- The signal whose counter the call increments. -/
def Call.counts : Call → Option Signal
  | .count .usr1 => some .usr1
  | .count _ => some .usr2
  | _ => none

/-- It is a call of some process for which this is the signal. -/
def callsFor (f : Call → Option Signal) (sig : Signal) : Event → Bool
  | .exec _ o _ _ => f o = some sig
  | _ => false

/-- It increments a counter of the original process. -/
def countsAtFirst (sig : Signal) : Event → Bool
  | .exec pid o _ _ => pid = 0 ∧ o.counts = some sig
  | _ => false

/-- The number of calls of `scanDir`, over all processes. -/
def scanDirCalls (tr : List Event) : ℕ := tr.countP (callsFor Call.begins .usr1)

/-- The number of calls of `scanfile`, over all processes. -/
def scanfileCalls (tr : List Event) : ℕ := tr.countP (callsFor Call.begins .usr2)

/-- A signal is sent while the same one is pending. -/
def merges : Event → Bool
  | .exec _ (.kill sig) _ pre => pre.2.pending sig
  | _ => false

/-- What is left of a program before the process goes round its loop scans nothing and counts nothing. -/
def Settled (p : Proc Ctl) : Prop := p.Calls fun o => o.sends = none ∧ o.begins = none ∧ o.counts = none

/-- One, for this signal. -/
def amount (s : Option Signal) (sig : Signal) : ℕ := if s = some sig then 1 else 0

@[simp] theorem amount_none (sig : Signal) : amount none sig = 0 := rfl

@[simp] theorem amount_self (sig : Signal) : amount (some sig) sig = 1 := if_pos rfl

section

variable {f : Call → Option Signal} {sig : Signal} {tr : List Event} {pid : ℕ} {o : Call} {r : o.Res}
  {pre : State}

theorem countP_callsFor : (tr ++ [Happening.exec pid o r pre]).countP (callsFor f sig) =
    tr.countP (callsFor f sig) + amount (f o) sig := by
  simp [List.countP_append, List.countP_singleton, callsFor, amount]

theorem countP_countsAtFirst : (tr ++ [Happening.exec pid o r pre]).countP (countsAtFirst sig) =
    tr.countP (countsAtFirst sig) + if pid = 0 then amount o.counts sig else 0 := by
  by_cases hpid : pid = 0 <;> simp [List.countP_append, List.countP_singleton, countsAtFirst, amount, hpid]

end

/-! ## The protocol -/

/-- What a process has still to do about the signals. -/
@[ext] structure Tally where
  /-- The increments that the handlers, which it is executing, have still to make. -/
  owed : Signal → ℕ
  /-- The signals that it has sent, less those that announce what it has begun. -/
  debt : Signal → ℤ

/-- Nothing. -/
def Tally.idle : Tally := ⟨fun _ => 0, fun _ => 0⟩

/-- A call is made. -/
def Tally.after (g : Tally) (o : Call) : Tally where
  owed sig := g.owed sig - amount o.counts sig
  debt sig := g.debt sig + amount o.sends sig - amount o.begins sig

/-- The signal that a handler counts. -/
def Signal.counted : Signal → Option Signal
  | .int => none
  | sig => some sig

/-- A signal is taken. -/
def Tally.take (g : Tally) (sig : Signal) : Tally :=
  { g with owed := fun sig' => g.owed sig' + amount sig.counted sig' }

/-- A counter is incremented only by a handler that owes it. A process forks and ends when it owes nothing. -/
def tallyProtocol : Protocol (ForkOp Call) (ForkOp.Res Call.Res) Tally where
  rule
    | g, .fork, Φ => g = .idle ∧ ∀ pid : ℤ, Φ pid .idle
    | g, .call o, Φ =>
        (o.ends = true → g = .idle) ∧ (∀ sig, amount o.counts sig ≤ g.owed sig) ∧ ∀ r, Φ r (g.after o)
  mono {g o Φ Ψ} h hrule := by
    cases o with
    | fork => exact ⟨hrule.1, fun pid => h _ _ (hrule.2 pid)⟩
    | call o => exact ⟨hrule.1, hrule.2.1, fun r => h _ _ (hrule.2.2 r)⟩

/-- The call has nothing to do with the signals. -/
def Call.uncounted (o : Call) : Bool := o.sends.isNone && o.begins.isNone && o.counts.isNone

section

variable {g : Tally} {o : Call} {Φ : o.Res → Tally → Prop}

/-- Such a call leaves what there is to do. -/
theorem Tally.after_of_uncounted (ho : o.uncounted = true) : g.after o = g := by
  simp only [Call.uncounted, Bool.and_eq_true, Option.isNone_iff_eq_none] at ho
  ext sig <;> simp [Tally.after, ho]

/-- The rule of such a call, if it does not end the process. -/
theorem rule_uncounted (ho : o.uncounted = true) (hends : o.ends = false) (h : ∀ r, Φ r g) :
    tallyProtocol.rule g (.call o) Φ := by
  refine ⟨fun h => absurd (hends.symm.trans h) (by decide), fun sig => ?_, fun r => ?_⟩
  · simp only [Call.uncounted, Bool.and_eq_true, Option.isNone_iff_eq_none] at ho
    simp [ho]
  · rw [Tally.after_of_uncounted ho]
    exact h r

/-- The rule of such a call, when nothing is owed. -/
theorem rule_idle {Φ : o.Res → Tally → Prop} (ho : o.uncounted = true) (h : ∀ r, Φ r .idle) :
    tallyProtocol.rule .idle (.call o) Φ := by
  refine ⟨fun _ => rfl, fun sig => ?_, fun r => ?_⟩
  · simp only [Call.uncounted, Bool.and_eq_true, Option.isNone_iff_eq_none] at ho
    simp [ho]
  · rw [Tally.after_of_uncounted ho]
    exact h r

end

/-! ## The programs -/

section

variable {args : ForensicArgs} {localtime : ℤ → Tm} {entries : Entries} {path : Bytes}

theorem wp_within_tally {b : Prop} [Decidable b] {Φ : Unit → Tally → Prop} (h : Φ () .idle) :
    (within b).wp tallyProtocol Φ .idle :=
  Prog.wp_ite (fun _ => h) fun _ => rule_idle rfl fun (_ : Bool) =>
    Prog.wp_ite (fun _ => h) fun _ => rule_idle rfl fun _ => h

theorem wp_logged_tally {type : LogType} {act : Bytes} {Φ : Unit → Tally → Prop} (h : Φ () .idle) :
    (logged args type act).wp tallyProtocol Φ .idle := by
  refine Prog.wp_ite (fun _ => rule_idle rfl fun (stamp : Option Stamp) => ?_) fun _ => h
  cases stamp with
  | none => exact h
  | some stamp => exact wp_within_tally h

/-- A handler logs something short. -/
theorem wp_logged_short_tally {type : LogType} {act : Bytes} {Φ : Unit → Tally → Prop} {g : Tally}
    (hact : act.length ≤ 900) (h : Φ () g) : (logged args type act).wp tallyProtocol Φ g := by
  refine Prog.wp_ite (fun _ => rule_uncounted rfl rfl fun (stamp : Option Stamp) => ?_) fun _ => h
  cases stamp with
  | none => exact h
  | some stamp =>
      change Prog.wp tallyProtocol (within _) Φ g
      rw [within_of (length_logLine_lt hact)]
      exact h

theorem wp_signalled_tally (ho : args.o = true) (sig : Signal) {Φ : Unit → Tally → Prop} {g : Tally}
    (h : Φ () (g.after (.kill sig))) : (signalled args sig).wp tallyProtocol Φ g :=
  Prog.wp_ite (fun _ => ⟨fun h => Bool.noConfusion h, fun _ => Nat.zero_le _, fun _ => h⟩) fun hne => (hne ho).elim

/-- `scanfile` announces itself when it has begun. -/
theorem wp_scanfile_tally (ho : args.o = true) {Φ : ℤ → Tally → Prop} (h : ∀ a, Φ a .idle) :
    (scanfile localtime args path).wp tallyProtocol Φ .idle := by
  have hanalyse : ∀ saved, (analyse localtime args path saved).wp tallyProtocol Φ .idle := by
    intro saved
    refine ForkProg.Calls.wp (fun o Φ ho h => rule_idle ?_ h) (calls_analyse fun _ h => h) h
    cases o <;> first | rfl | cases ho
  refine ⟨fun h => Bool.noConfusion h, fun _ => Nat.zero_le _, fun _ => ?_⟩
  change Prog.wp tallyProtocol (signalled args .usr2 >>= _) Φ _
  rw [Prog.wp_bind]
  refine wp_signalled_tally ho .usr2 ?_
  have hidle : (Tally.idle.after (.scanfile path)).after (.kill .usr2) = .idle := by
    ext sig <;> simp [Tally.after, Tally.idle, Call.sends, Call.begins, Call.counts]
  rw [hidle]
  refine Prog.wp_ite (fun _ => ?_) fun _ => hanalyse _
  refine rule_idle rfl fun saved => rule_idle rfl fun (fdOut : Option ℕ) => ?_
  cases fdOut with
  | none => exact rule_idle rfl fun _ => h 1
  | some fdOut => exact rule_idle rfl fun _ => rule_idle rfl fun _ => hanalyse saved

/-- `scanDir` announces itself, and then it opens the directory. -/
theorem wp_enterDir_tally (ho : args.o = true) {loop : ℕ → Proc Ctl} {Φ : Ctl → Tally → Prop}
    (hcrash : ∀ x, Φ x .idle) (h : ∀ dir, (loop dir).wp tallyProtocol Φ .idle) :
    (enterDir args path loop).wp tallyProtocol Φ .idle := by
  unfold enterDir
  rw [Prog.wp_bind]
  refine wp_signalled_tally ho .usr1 ?_
  refine ⟨fun h => Bool.noConfusion h, fun _ => Nat.zero_le _, fun (dir : Option ℕ) => ?_⟩
  have hidle : (Tally.idle.after (.kill .usr1)).after (.opendir path) = .idle := by
    ext sig <;> simp [Tally.after, Tally.idle, Call.sends, Call.begins, Call.counts]
  rw [hidle]
  cases dir with
  | none => exact rule_idle rfl fun _ => hcrash _
  | some dir => exact h dir

/-- The loop of `scanDir`. -/
theorem wp_scanEntries_tally (ho : args.o = true) {Φ : Ctl → Tally → Prop} (hΦ : ∀ x, Φ x .idle)
    (content : Entries) (dir frames : ℕ) :
    (scanEntries localtime args content path dir frames).wp tallyProtocol Φ .idle := by
  induction content generalizing path dir frames with
  | nil => exact rule_idle rfl fun _ => hΦ _
  | file name regular rest ih =>
      refine rule_idle rfl fun (stop : Bool) => ?_
      refine Prog.wp_ite (fun _ => rule_idle rfl fun _ => hΦ _) fun _ => ?_
      refine Prog.wp_ite (fun _ => ih ..) fun _ => ?_
      refine Prog.wp_ite (fun _ => ?_) fun _ => ih ..
      change Prog.wp tallyProtocol (put (joined path name) >>= fun _ =>
        scanfile localtime args (joined path name) >>= _) Φ .idle
      rw [Prog.wp_bind]
      refine wp_within_tally ?_
      rw [Prog.wp_bind]
      exact wp_scanfile_tally ho fun _ => ih ..
  | directory name content rest ihContent ihRest =>
      refine rule_idle rfl fun (stop : Bool) => ?_
      refine Prog.wp_ite (fun _ => rule_idle rfl fun _ => hΦ _) fun _ => ?_
      refine Prog.wp_ite (fun _ => ihRest ..) fun _ => ?_
      refine Prog.wp_ite (fun _ => ⟨rfl, fun pid => ?_⟩) fun _ => ihRest ..
      refine Prog.wp_ite (fun _ => rule_idle rfl fun _ => rule_idle rfl fun _ => hΦ _) fun _ => ?_
      refine Prog.wp_ite (fun _ => ?_) fun _ => ihRest ..
      rw [Prog.wp_bind]
      exact wp_within_tally (wp_enterDir_tally ho hΦ fun dir' => ihContent ..)

/-- Nothing is to be done when a process comes back to its loop. -/
def AtRest (_ : Ctl) (g : Tally) : Prop := g = .idle

theorem atRest_idle (x : Ctl) : AtRest x .idle := rfl

/-- What a process runs leaves nothing to be done about the signals. -/
theorem wp_body_tally (ho : args.o = true) (x : Ctl) :
    (body localtime args entries x).wp tallyProtocol AtRest .idle := by
  cases x with
  | main =>
      unfold body
      rw [Prog.wp_bind]
      refine wp_within_tally ?_
      rw [Prog.wp_bind]
      refine wp_logged_tally ?_
      refine Prog.wp_ite (fun _ => ?_) fun _ => ?_
      · exact wp_enterDir_tally ho atRest_idle fun dir => wp_scanEntries_tally ho atRest_idle entries dir 0
      · rw [Prog.wp_bind]
        exact wp_scanfile_tally ho fun _ => rfl
  | waiting frames =>
      refine rule_idle rfl fun (waitRet : Option ℕ) => rule_idle rfl fun (errno : Errno) => ?_
      exact Prog.wp_ite (fun _ => rfl) fun _ => rfl
  | returning frames =>
      cases frames with
      | zero => exact rule_idle rfl fun _ => rfl
      | succ frames => rfl

/-- A handler increments its counter once. -/
theorem wp_handler_tally (sig : Signal) (g : Tally) :
    (handler args sig).wp tallyProtocol (fun _ g' => g' = g) (g.take sig) := by
  have husr : ∀ message name, name.length ≤ 900 → sig.counted = some sig →
      (Call.count sig).counts = some sig →
      (sigUsrHandler args sig message name).wp tallyProtocol (fun _ g' => g' = g) (g.take sig) := by
    intro message name hname hcounted hcounts
    refine ⟨fun h => Bool.noConfusion h, fun sig' => ?_, fun _ => ?_⟩
    · rw [hcounts, Tally.take, hcounted]
      exact Nat.le_add_left _ _
    · have hback : (g.take sig).after (.count sig) = g := by
        ext sig' <;> simp [Tally.after, Tally.take, hcounted, hcounts, Call.sends, Call.begins]
      rw [hback]
      refine rule_uncounted rfl rfl fun counters => rule_uncounted rfl rfl fun _ => ?_
      have hlogged : (logged args .sigReceive name).wp tallyProtocol (fun _ g' => g' = g) g :=
        wp_logged_short_tally hname rfl
      change Prog.wp tallyProtocol (logged args .sigReceive name >>= fun _ => call (.sigreturn sig)) _ g
      exact Prog.wp_seq hlogged fun _ g' hg' => rule_uncounted (o := .sigreturn sig) rfl rfl fun _ => hg'
  cases sig with
  | int =>
      have htake : g.take .int = g := by ext sig <;> simp [Tally.take, Signal.counted]
      rw [htake]
      exact rule_uncounted rfl rfl fun _ => rule_uncounted rfl rfl fun _ => rfl
  | usr1 => exact husr _ _ (by decide) rfl rfl
  | usr2 => exact husr _ _ (by decide) rfl rfl

end

/-! ## The proof -/

section

variable {world : World} {args : ForensicArgs} {entries : Entries} {pid : ℕ} {st st' : State}

/-- What a call does to the counters and to the signals that are pending. -/
structure Tallied (o : Call) (st st' : State) : Prop where
  numDirs : st'.1.numDirs = st.1.numDirs + amount o.counts .usr1
  numFiles : st'.1.numFiles = st.1.numFiles + amount o.counts .usr2
  pending : ∀ sig, st'.2.pending sig = (st.2.pending sig || decide (o.sends = some sig))

/-- A call that counts nothing and sends nothing leaves them. -/
theorem tallied_of_eq {o : Call} (hcounts : o.counts = none) (hsends : o.sends = none)
    (hdirs : st'.1.numDirs = st.1.numDirs) (hfiles : st'.1.numFiles = st.1.numFiles)
    (hpending : st'.2.pending = st.2.pending) : Tallied o st st' := by
  refine ⟨?_, ?_, fun sig => ?_⟩
  · rw [hdirs, hcounts]
    rfl
  · rw [hfiles, hcounts]
    rfl
  · rw [hpending, hsends]
    simp

/-- Only `kill` makes a signal pending, and only the handlers' increments move the counters. -/
theorem sem_tallied {o : Call} {r : o.Res} (h : o.Sem world pid st r st') : Tallied o st st' := by
  obtain ⟨-, h | h⟩ := h
  · cases o with
    | kill sig' =>
        cases h
        refine ⟨rfl, rfl, fun sig => ?_⟩
        by_cases hsig : sig = sig'
        · simp [Call.sends, hsig]
        · simp [Call.sends, hsig, Ne.symm hsig]
    | count sig =>
        -- `SIGINT` has no counter
        cases sig <;> cases h <;> exact ⟨rfl, rfl, fun sig => (Bool.or_false _).symm⟩
    | printf text | write _ text =>
        obtain ⟨-, rfl⟩ := Prod.mk.inj (Option.some.inj h)
        unfold State.written
        split <;> exact tallied_of_eq rfl rfl rfl rfl rfl
    | dup fd =>
        rw [perform_dup] at h
        split at h <;> cases h <;> exact tallied_of_eq rfl rfl rfl rfl rfl
    | dup2 fd fd' =>
        rw [perform_dup2] at h
        split at h <;> cases h <;> exact tallied_of_eq rfl rfl rfl rfl rfl
    | close fd => cases fd <;> cases h <;> exact tallied_of_eq rfl rfl rfl rfl rfl
    | fgets stream n =>
        rw [perform_fgets] at h
        split at h <;> cases h <;> exact tallied_of_eq rfl rfl rfl rfl rfl
    | wait =>
        rw [perform_wait] at h
        split at h
        · cases h
          exact tallied_of_eq rfl rfl rfl rfl rfl
        · split at h <;> cases h
          exact tallied_of_eq rfl rfl rfl rfl rfl
    | _ =>
        cases h
        exact tallied_of_eq rfl rfl rfl rfl rfl
  · cases o with
    | dup | openAppend | fopen | popen | opendir =>
        obtain ⟨-, rfl⟩ := h
        exact tallied_of_eq rfl rfl rfl rfl rfl
    | stat | malloc | addLog | overflow =>
        cases h
        exact tallied_of_eq rfl rfl rfl rfl rfl
    | wait =>
        obtain ⟨i, child, -, -, -, rfl⟩ := h
        exact tallied_of_eq rfl rfl rfl rfl rfl
    | _ => exact h.elim

/-- A call that is interrupted leaves them. -/
theorem interrupted_counters {o : Call} {r : o.Res} {sig : Signal} (h : o.Interrupted pid (taken sig st) r st') :
    st'.1.numDirs = st.1.numDirs ∧ st'.1.numFiles = st.1.numFiles := by
  cases o with
  | wait =>
      obtain ⟨-, -, -, rfl⟩ := h
      exact ⟨rfl, rfl⟩
  | fread stream n =>
      obtain ⟨m, -, -, rfl⟩ := h
      exact ⟨rfl, rfl⟩
  | fgets stream n =>
      obtain ⟨-, rfl⟩ := h
      exact ⟨rfl, rfl⟩
  | _ => exact h.elim

/-- The signals that have been sent have been counted, are being counted or are pending, and they are as many as
what they announce. -/
def Counted (tr : List Event) (s : Shared) (m : (Signal → ℕ) × (Signal → ℤ)) : Prop :=
  ∀ sig, sig ≠ .int →
    tr.countP (callsFor Call.sends sig) = tr.countP (countsAtFirst sig) + m.1 sig + (s.pending sig).toNat ∧
    (tr.countP (callsFor Call.sends sig) : ℤ) = tr.countP (callsFor Call.begins sig) + m.2 sig

/-- Something else than a call: nothing is sent, begun or counted. -/
theorem countP_of_not_calls {tr : List Event} {e : Event} (he : ∀ f sig, callsFor f sig e = false)
    (f : Call → Option Signal) (sig : Signal) :
    (tr ++ [e]).countP (callsFor f sig) = tr.countP (callsFor f sig) ∧
      (tr ++ [e]).countP (countsAtFirst sig) = tr.countP (countsAtFirst sig) := by
  have hcounts : countsAtFirst sig e = false := by
    cases e with
    | exec pid o r pre => simpa [callsFor, countsAtFirst] using fun _ => he Call.counts sig
    | _ => rfl
  simp [List.countP_append, he f sig, hcounts]

/-- It leaves the balance. -/
theorem Counted.of_not_calls {tr : List Event} {e : Event} {s s' : Shared} {m m' : (Signal → ℕ) × (Signal → ℤ)}
    (h : Counted tr s m) (he : ∀ f sig, callsFor f sig e = false)
    (howed : ∀ sig, sig ≠ .int → m'.1 sig + (s'.pending sig).toNat = m.1 sig + (s.pending sig).toNat)
    (hdebt : m'.2 = m.2) : Counted (tr ++ [e]) s' m' := by
  intro sig hsig
  obtain ⟨hcounted, hbegun⟩ := h sig hsig
  have howed := howed sig hsig
  rw [(countP_of_not_calls he Call.sends sig).1, (countP_of_not_calls he Call.begins sig).1,
    (countP_of_not_calls he Call.sends sig).2, hdebt]
  exact ⟨by omega, hbegun⟩

/-- A call keeps the balance, if the signal that it sends is not pending. -/
theorem Counted.exec {tr : List Event} {o : Call} {r : o.Res} {g : Tally} {m : (Signal → ℕ) × (Signal → ℤ)}
    (hmerges : merges (.exec pid o r st) = false) (hcounts : ∀ sig, amount o.counts sig ≤ g.owed sig)
    (hfirst : pid ≠ 0 → g.owed = fun _ => 0) (hsem : o.Sem world pid st r st')
    (h : Counted tr st.2 ((g.owed, g.debt) + m)) :
    Counted (tr ++ [.exec pid o r st]) st'.2 (((g.after o).owed, (g.after o).debt) + m) := by
  intro sig hsig
  obtain ⟨hcounted, hbegun⟩ := h sig hsig
  have hle := hcounts sig
  have hpending := (sem_tallied hsem).pending sig
  have hzero : pid ≠ 0 → amount o.counts sig = 0 := by
    intro hpid
    rw [hfirst hpid] at hle
    exact Nat.le_zero.mp hle
  have hsent : (st'.2.pending sig).toNat = (st.2.pending sig).toNat + amount o.sends sig := by
    rw [hpending]
    by_cases hsends : o.sends = some sig
    · -- the signal was not pending
      have hnot : st.2.pending sig = false := by
        cases o with
        | kill sig' =>
            obtain rfl := Option.some.inj hsends
            exact hmerges
        | _ => cases hsends
      simp [hnot, hsends]
    · simp [hsends, amount]
  rw [countP_callsFor, countP_callsFor, countP_countsAtFirst, hsent]
  simp only [Prod.fst_add, Prod.snd_add, Pi.add_apply, Tally.after] at hcounted hbegun ⊢
  split
  · omega
  · next hpid =>
      have hzero := hzero hpid
      omega

/-- A signal that is taken is no longer pending, and has to be counted. -/
theorem Counted.take {tr : List Event} {e : Event} {sig : Signal} {g : Tally}
    {m : (Signal → ℕ) × (Signal → ℤ)} (he : ∀ f sig, callsFor f sig e = false)
    (hmay : MayTake world pid sig st) (h : Counted tr st.2 ((g.owed, g.debt) + m)) :
    Counted (tr ++ [e]) (taken sig st).2 (((g.take sig).owed, (g.take sig).debt) + m) := by
  refine h.of_not_calls he (fun sig' hsig' => ?_) rfl
  simp only [Prod.fst_add, Pi.add_apply, Tally.take, taken]
  by_cases hsig : sig' = sig
  · subst hsig
    obtain ⟨-, -, ⟨hint, -⟩ | ⟨-, -, hpending⟩⟩ := hmay
    · exact (hsig' hint).elim
    · have hcounted : sig'.counted = some sig' := by
        cases sig' with
        | int => exact (hsig' rfl).elim
        | _ => rfl
      rw [Function.update_self, hpending, hcounted, amount_self]
      simp only [Bool.toNat_false, Bool.toNat_true]
      omega
  · have hcounted : amount sig.counted sig' = 0 := by
      refine if_neg fun h => hsig ?_
      cases sig with
      | int => cases h
      | _ => exact (Option.some.inj h).symm
    rw [Function.update_of_ne hsig, hcounted, Nat.add_zero]

/-- Only the original process has something to count. -/
theorem take_owed {sig : Signal} {g : Tally} (hmay : MayTake world pid sig st)
    (h : pid ≠ 0 → g.owed = fun _ => 0) : pid ≠ 0 → (g.take sig).owed = fun _ => 0 := by
  intro hpid
  obtain ⟨-, -, ⟨rfl, -⟩ | ⟨-, hzero, -⟩⟩ := hmay
  · funext sig'
    simp [Tally.take, Signal.counted, h hpid]
  · exact (hpid hzero).elim

/-- The proof that only signals that merge are lost. -/
def counting (world : World) (args : ForensicArgs) (entries : Entries) (ho : args.o = true) :
    ForkProof (forensic world args entries) tallyProtocol ((Signal → ℕ) × (Signal → ℤ)) where
  Admits e := merges e = false
  Over l := l.ended = true
  post := AtRest
  Final g := g = .idle
  Sees pid _ g := pid ≠ 0 → g.owed = fun _ => 0
  Sound _ _ := True
  weight _ _ g := (g.owed, g.debt)
  Whole := Counted
  stops := not_acts_of_ended
  stable _ _ h := h
  stable_env _ h := h
  weight_other _ := rfl
  exec {tr n pid o r l s l' s' g Φ} _ hsees hrule he hsem := by
    obtain ⟨hends, hcounts, hΦ⟩ := hrule
    refine ⟨g.after o, fun hpid => ?_, fun hover => ?_, fun _ => hΦ r, fun m hm => hm.exec he hcounts hsees hsem⟩
    · funext sig
      simp [Tally.after, hsees hpid]
    · have hends' : o.ends = true := (sem_leaves hsem).ended.symm.trans hover
      have huncounted : o.uncounted = true := by
        cases o <;> first | rfl | cases hends'
      rw [Tally.after_of_uncounted huncounted, hends hends']
  fork {tr n pid l s child l' s' g Φ} _ hsees hrule hn _ _ hfork := by
    obtain ⟨⟨hended, -⟩, h⟩ := hfork
    obtain ⟨rfl, hΦ⟩ := hrule
    cases h
    refine ⟨.idle, .idle, fun _ => rfl, fun _ => rfl, not_ended hended, not_ended hended, hΦ n, hΦ 0,
      fun m hm => hm.of_not_calls (fun _ _ => rfl) (fun sig _ => ?_) ?_⟩
    · simp [Tally.idle]
    · funext sig
      simp [Tally.idle]
  forkFails {tr pid l s l' s' g Φ} hsees hrule _ hfails := by
    obtain ⟨⟨hended, -⟩, h⟩ := hfails
    obtain ⟨rfl, hΦ⟩ := hrule
    cases h
    exact ⟨.idle, fun _ => rfl, not_ended hended, hΦ (-1),
      fun m hm => hm.of_not_calls (fun _ _ => rfl) (fun _ _ => rfl) rfl⟩
  loop {tr pid l s g x} hsees hpost _ := by
    obtain rfl : g = .idle := hpost
    exact ⟨.idle, hsees, wp_body_tally ho x, fun m hm => hm.of_not_calls (fun _ _ => rfl) (fun _ _ => rfl) rfl⟩
  take {tr pid sig l s l' s' g} hsees _ htake := by
    obtain ⟨hmay, h⟩ := htake
    obtain ⟨rfl, rfl⟩ := Prod.mk.inj h
    refine ⟨g.take sig, take_owed hmay hsees, not_ended hmay.1, wp_handler_tally sig g, fun m hm => ?_⟩
    exact Counted.take (fun _ _ => rfl) hmay hm
  interrupt {tr pid sig o r l s l' s' g Φ} hsees hrule _ hinterrupt := by
    obtain ⟨-, hmay, hint⟩ := hinterrupt
    obtain ⟨hwaits, -, hended, -, -, hshared⟩ := interrupted_leaves hint
    have huncounted : o.uncounted = true := by
      cases o <;> first | rfl | cases hwaits
    have hΦ := hrule.2.2 r
    rw [Tally.after_of_uncounted huncounted] at hΦ
    refine ⟨g.take sig, g, take_owed hmay hsees, not_ended (hended.trans hmay.1), hΦ, wp_handler_tally sig g,
      fun m hm => ?_⟩
    obtain rfl : s' = (taken sig (l, s)).2 := hshared
    exact Counted.take (fun _ _ => rfl) hmay hm
  env {tr s s' m} henv _ hm := by
    obtain ⟨i, child, -, -, -, hs'⟩ := henv
    have hpending : s'.pending = s.pending := by rw [hs']
    exact hm.of_not_calls (fun _ _ => rfl) (fun _ _ => by rw [hpending]) rfl

/-! ## Runs -/

variable {errno : Errno} {tr : List Event} {c : Family Call Call.Res Local Shared Ctl}

/-- Every call may return something. -/
theorem nonempty_res (o : Call) : Nonempty o.Res := by
  cases o with
  | dup | openAppend | fopen | popen | opendir | wait => exact ⟨(none : Option ℕ)⟩
  | addLog => exact ⟨(none : Option Stamp)⟩
  | stat => exact ⟨Stat.mk 0 0 0 0⟩
  | malloc | fread => exact ⟨([] : Bytes)⟩
  | fgets => exact ⟨(none : Option Bytes)⟩
  | receivedSigInt | overflow => exact ⟨false⟩
  | counters => exact ⟨((0, 0) : ℕ × ℕ)⟩
  | errno => exact ⟨Errno.other⟩
  | _ => exact ⟨()⟩

/-- A program that counts and scans nothing ends with nothing to be done, so nothing has been to do before. -/
theorem idle_of_settled {p : Proc Ctl} {g : Tally} (hp : Settled p) (h : p.wp tallyProtocol AtRest g) :
    g = .idle := by
  induction p generalizing g with
  | ret x => exact h
  | op o k ih =>
      cases o with
      | fork => exact hp.elim
      | call o =>
          obtain ⟨⟨hsends, hbegins, hcounts⟩, hk⟩ := hp
          have huncounted : o.uncounted = true := by simp [Call.uncounted, hsends, hbegins, hcounts]
          obtain ⟨r⟩ := nonempty_res o
          have hΦ := h.2.2 r
          rw [Tally.after_of_uncounted huncounted] at hΦ
          exact ih r (hk r) hΦ

/-- The counters of the original process are what it has counted. -/
def CountersAre (tr : List Event) (c : Family Call Call.Res Local Shared Ctl) : Prop :=
  ∀ first, c.members[0]? = some first → first.loc.numDirs = tr.countP (countsAtFirst .usr1) ∧
    first.loc.numFiles = tr.countP (countsAtFirst .usr2)

/-- A step of one process. -/
theorem CountersAre.member {c : Family Call Call.Res Local Shared Ctl} {e : Event} {s' : Shared}
    {member member' : Running Call Call.Res Local Ctl} (h : CountersAre tr c)
    (hmember : c.members[pid]? = some member)
    (hfirst : pid = 0 →
      member'.loc.numDirs = member.loc.numDirs + (countsAtFirst .usr1 e).toNat ∧
        member'.loc.numFiles = member.loc.numFiles + (countsAtFirst .usr2 e).toNat)
    (hother : pid ≠ 0 → ∀ sig, countsAtFirst sig e = false) :
    CountersAre (tr ++ [e]) ⟨s', c.members.set pid member'⟩ := by
  have hcount : ∀ sig, (tr ++ [e]).countP (countsAtFirst sig) =
      tr.countP (countsAtFirst sig) + (countsAtFirst sig e).toNat := by
    intro sig
    cases hsig : countsAtFirst sig e <;> simp [List.countP_append, hsig]
  intro first hmem
  rw [hcount, hcount]
  by_cases hpid : pid = 0
  · subst hpid
    rw [List.getElem?_set_self (List.getElem?_eq_some_iff.mp hmember).1] at hmem
    obtain rfl := Option.some.inj hmem
    obtain ⟨hdirs, hfiles⟩ := hfirst rfl
    obtain ⟨hdirs', hfiles'⟩ := h member hmember
    omega
  · rw [List.getElem?_set_ne hpid] at hmem
    simpa [hother hpid] using h first hmem

/-- A child is another process. -/
theorem CountersAre.append {s : Shared} {members : List (Running Call Call.Res Local Ctl)}
    {child : Running Call Call.Res Local Ctl} (hlt : 0 < members.length) (h : CountersAre tr ⟨s, members⟩) :
    CountersAre tr ⟨s, members ++ [child]⟩ := by
  intro first hfirst
  rw [List.getElem?_append_left hlt] at hfirst
  exact h first hfirst

/-- They always are. -/
theorem countersAre_of_run (h : ForensicRun world args entries errno tr c) : CountersAre tr c := by
  refine Forking.Run.induction (G := fun _ => True) (I := CountersAre) ?_ ?_ h fun _ _ => trivial
  · intro first hfirst
    obtain rfl := Option.some.inj hfirst
    exact ⟨rfl, rfl⟩
  · intro tr c e c' _ _ ih _ hstep
    cases hstep with
    | @exec pid l l' s' o r k member sem =>
        obtain ⟨hdirs, hfiles, -⟩ := sem_tallied sem
        refine ih.member member (fun hpid => ?_) fun hpid sig => by simp [countsAtFirst, hpid]
        -- the counters are those of the first process
        have hamount : ∀ sig, (countsAtFirst sig (.exec pid o r (l, c.shared))).toNat = amount o.counts sig := by
          intro sig
          by_cases hcounts : o.counts = some sig <;> simp [countsAtFirst, amount, hpid, hcounts]
        rw [hamount, hamount]
        exact ⟨hdirs, hfiles⟩
    | fork member fork =>
        obtain ⟨-, h⟩ := fork
        cases h
        refine CountersAre.append ?_ (ih.member member (fun _ => ⟨rfl, rfl⟩) fun _ _ => rfl)
        rw [List.length_set]
        exact Nat.lt_of_le_of_lt (Nat.zero_le _) (List.getElem?_eq_some_iff.mp member).1
    | forkFails member fails =>
        obtain ⟨-, h⟩ := fails
        cases h
        exact ih.member member (fun _ => ⟨rfl, rfl⟩) fun _ _ => rfl
    | loop member goesOn => exact ih.member member (fun _ => ⟨rfl, rfl⟩) fun _ _ => rfl
    | take member take =>
        obtain ⟨-, h⟩ := take
        cases h
        exact ih.member member (fun _ => ⟨rfl, rfl⟩) fun _ _ => rfl
    | interrupt member interrupt =>
        obtain ⟨hdirs, hfiles⟩ := interrupted_counters interrupt.2.2
        exact ih.member member (fun _ => ⟨hdirs, hfiles⟩) fun _ _ => rfl
    | env env => simpa [CountersAre, List.countP_append, countsAtFirst] using ih

end

/-- The original process takes the signals of its child one by one. -/
def takesEach : List (ForkPick Signal ℕ) :=
  childBegins ++ [.run 1, .take 0 .usr1] ++ List.replicate 4 (.run 0) ++ List.replicate 19 (.run 1) ++ [.env 1] ++
    List.replicate 9 (.run 1) ++ [.take 0 .usr2] ++ List.replicate 11 (.run 0)

/-- A directory with two empty subdirectories `a` and `b`. -/
def twoBelow : Entries := .directory [97] .nil (.directory [98] .nil .nil)

/-- The children for both announce themselves before the original process takes a signal. -/
def takesOnce : List (ForkPick Signal ℕ) :=
  List.replicate 2 (.run 0) ++ [.take 0 .usr1] ++ List.replicate 11 (.run 0) ++ List.replicate 9 (.run 1) ++
    List.replicate 9 (.run 2) ++ [.take 0 .usr1] ++ List.replicate 14 (.run 0)

end Sope.Forensic
