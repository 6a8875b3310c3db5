import Sope.Bank.ProducerConsumer
import Sope.Concurrency.Watching

/-! # Replies and the log

What an office does about the reply to a request, from the moment it has finished the last one. It opens
one FIFO; if it could, it writes the reply once and logs it once, otherwise it writes nothing and logs the
same reply with the return code `USR_DOWN`; then the request is managed. From the opening of the FIFO on
it uses no account and no lock (`replies_logged_once`).

* `Answer` — what it has done about the reply so far.
* `answerMonitor` — what it may do then. -/

namespace Sope

open Concurrency

/-- What an office has done about the reply to the request that it has in hand. -/
structure Answer where
  /-- For each FIFO that it has tried to open, whether it could. -/
  opened : List Bool
  /-- What it has written. -/
  sent : List Bytes
  /-- The replies that it has put into the log. -/
  logged : List TlvReply
  deriving DecidableEq

namespace Answer

/-- Nothing. -/
def nothing : Answer := ⟨[], [], []⟩

/-- The reply has been given: it has reached the user and the log, or the log says that the user is
down. -/
def Gives (x : Answer) (reply : TlvReply) : Prop :=
  x = ⟨[true], [replyBytes reply], [reply]⟩ ∨ x = ⟨[false], [], [reply.withRetCode .usrDown]⟩

/-- The operations that are allowed. -/
def Allows (x : Answer) : ServerOp → Prop
  | .ext (.sys (.openFifo _)) => x = nothing
  | .ext (.sys (.write ..)) => x = ⟨[true], [], []⟩
  | .ext (.sys (.logReply reply)) => x = ⟨[true], [replyBytes reply], []⟩ ∨
      x = ⟨[false], [], []⟩ ∧ reply.value.header.retCode = .usrDown
  | .ext (.mark (.managed _ reply)) => x.Gives reply
  | .ext .queuePop => x = nothing
  | .ext _ => True
  | _ => x = nothing

/-- What has been done after opening a FIFO. -/
def afterOpen (x : Answer) (fd : Int) : Answer := { x with opened := x.opened ++ [fd != -1] }

/-- What has been done after a write, which may fail. -/
def afterWrite (x : Answer) (bytes : Bytes) (result : Int) : Answer :=
  if result = -1 then x else { x with sent := x.sent ++ [bytes] }

/-- What has been done after an operation. -/
def next (x : Answer) : (o : ServerOp) → ServerRes o → Answer
  | .ext (.sys (.openFifo _)), fd => x.afterOpen fd
  | .ext (.sys (.write _ bytes)), result => x.afterWrite bytes result
  | .ext (.sys (.logReply reply)), _ => { x with logged := x.logged ++ [reply] }
  | .ext (.mark (.managed ..)), _ => nothing
  | _, _ => x

end Answer

/-- The monitor of a thread. -/
def answerMonitor : Monitor ServerOp ServerRes Answer where
  start := .nothing
  allows := Answer.Allows
  next := Answer.next

/-- The same as rules. -/
abbrev answering : Protocol ServerOp ServerRes Answer := answerMonitor.protocol

/-- The operations that come before the reply. -/
def isEarly : ServerOp → Bool
  | .ext (.sys (.openFifo _)) | .ext (.sys (.write ..)) | .ext (.sys (.logReply _))
  | .ext (.mark (.managed ..)) => false
  | _ => true

section Programs

variable {α : Type} {Q : α → Answer → Prop} {request : TlvRequest} {setup : Setup}

/-- Nothing has been done about the reply after such an operation. -/
theorem early_of_isEarly {o : ServerOp} (h : isEarly o = true) :
    Answer.nothing.Allows o ∧ ∀ r, Answer.nothing.next o r = .nothing := by
  cases o with
  | ext e =>
      cases e with
      | sys call => cases call <;> first | exact ⟨trivial, fun _ => rfl⟩ | cases h
      | mark m => cases m <;> first | exact ⟨trivial, fun _ => rfl⟩ | cases h
      | queuePop => exact ⟨rfl, fun _ => rfl⟩
      | _ => exact ⟨trivial, fun _ => rfl⟩
  | _ => exact ⟨rfl, fun _ => rfl⟩

/-- One of them, and what follows it. -/
theorem wp_early {o : ServerOp} {k : ServerRes o → Server α}
    (hk : ∀ r, (k r).wp answering Q .nothing) (h : isEarly o = true := by rfl) :
    ((Prog.call o : Server (ServerRes o)) >>= k).wp answering Q .nothing := by
  obtain ⟨hallows, hnext⟩ := early_of_isEarly h
  refine ⟨hallows, fun r => ?_⟩
  show (k r).wp answering Q (Answer.nothing.next o r)
  rw [hnext]
  exact hk r

/-- A program of such operations between a lock and its unlock. -/
theorem wp_early_within {A : TableOp → Prop} {F : Ext → Prop} {p : Server α} (hp : p.Within A F)
    (hF : ∀ e, F e → isEarly (.ext e) = true) (hQ : ∀ a, Q a .nothing) : p.wp answering Q .nothing := by
  induction p with
  | ret a => exact hQ a
  | op o k ih =>
      cases o with
      | lock i => exact hp.elim
      | unlock i => exact hp.elim
      | access a => exact wp_early fun r => ih r (hp.2 r)
      | ext e => exact wp_early (fun r => ih r (hp.2 r)) (hF e hp.1)

/-- A program without locks all of whose operations come before the reply. -/
abbrev Early (p : Server α) : Prop := p.Within (fun _ => True) fun e => isEarly (.ext e) = true

/-- What depends on its arguments alone comes before it. -/
theorem isEarly_of_isDetermined {e : Ext} (he : e.isDetermined = true) : isEarly (.ext e) = true := by
  cases e with
  | sys call => cases call <;> first | rfl | cases he
  | mark m => cases m <;> first | rfl | cases he
  | _ => rfl

theorem Computes.early {H : UInt32 → Prop} {p : Server α} (h : Computes H p) : Early p :=
  h.mono (fun _ _ => trivial) fun _ he => isEarly_of_isDetermined he

theorem early_handleCreateAccountRequest (request : TlvRequest) :
    Early (handleCreateAccountRequest request) := by
  refine within_ext rfl fun _ => ?_
  dsimp only
  split
  · trivial
  · refine (views_getAccount (H := fun _ => True) trivial).computes.early.bind fun account => ?_
    cases account with
    | some _ => trivial
    | none =>
        refine Prog.Within.bind (p := createAccount ..) ?_ fun _ => trivial
        exact within_sys rfl fun salt =>
          within_fillAccount.mono (fun _ _ => trivial) fun _ he => isEarly_of_isDetermined he

theorem early_handleShutdownRequest (setup : Setup) (request : TlvRequest) :
    Early (handleShutdownRequest setup request) := by
  refine within_sys rfl fun _ => ?_
  split
  · exact within_sys rfl fun _ => within_sys rfl fun _ =>
      (within_countActive (fun _ => rfl) _ _).bind fun _ => trivial
  · trivial

/-- The rule of such programs. -/
theorem Early.wp {p : Server α} (hp : Early p) (hQ : ∀ a, Q a .nothing) : p.wp answering Q .nothing :=
  wp_early_within hp (fun _ he => he) hQ

/-- The operation of a request is over before anything is done about the reply. -/
theorem wp_answer_performRequest {Q : TlvReply → Answer → Prop} (hQ : ∀ reply, Q reply .nothing) :
    (performRequest setup request).wp answering Q .nothing := by
  have hhandle : ∀ {handler : Server TlvReply} (id : UInt32), Early handler →
      (handler >>= fun reply => unlockAccount id >>= fun _ => .ret reply).wp answering Q .nothing := by
    intro handler id hhandler
    exact Prog.wp_seq (hhandler.wp (Q := fun _ x => x = .nothing) fun _ => rfl) fun reply x hx => hx ▸
      wp_early fun _ => hQ reply
  unfold performRequest
  split
  · exact wp_early fun _ => wp_early fun _ => hhandle _ (early_handleCreateAccountRequest request)
  · exact wp_early fun _ => wp_early fun _ =>
      hhandle _ (views_handleBalanceRequest (H := fun _ => True) trivial).computes.early
  · have htransfer : Computes (fun _ => True) (handleTransferRequest request) :=
      computes_handleTransferRequest trivial trivial
    by_cases hids : request.value.header.accountId = request.value.transfer.accountId
    · simp only [getDoubleAccountAccess, unlockDoubleAccount, if_pos hids]
      exact wp_early fun _ => wp_early fun _ => hhandle _ htransfer.early
    · simp only [getDoubleAccountAccess, unlockDoubleAccount, if_neg hids]
      refine wp_early fun _ => wp_early fun _ => wp_early fun _ => wp_early fun _ => ?_
      exact Prog.wp_seq (htransfer.early.wp (Q := fun _ x => x = .nothing) fun _ => rfl) fun reply x hx =>
        hx ▸ wp_early fun _ => wp_early fun _ => hQ reply
  · exact (early_handleShutdownRequest setup request).wp hQ
  · exact wp_early fun reply => hQ reply

/-- `sendReply` opens the FIFO and gives the reply, or ends the process. -/
theorem wp_answer_sendReply {Q : Unit → Answer → Prop} (reply : TlvReply) (path : Bytes)
    (hQ : ∀ x : Answer, x.Gives reply → Q () x) :
    (sendReply reply path).wp answering Q .nothing := by
  refine ⟨rfl, fun (fd : Int) => ?_⟩
  show (if fd = -1 then _ else _ : Server Unit).wp answering Q (Answer.nothing.afterOpen fd)
  by_cases hfd : fd = -1
  · subst hfd
    exact ⟨trivial, fun _ => ⟨.inr ⟨rfl, rfl⟩, fun _ => hQ _ (.inr rfl)⟩⟩
  · have hopen : Answer.nothing.afterOpen fd = ⟨[true], [], []⟩ := by simp [Answer.afterOpen, Answer.nothing, hfd]
    rw [if_neg hfd, hopen]
    refine ⟨rfl, fun (written : Int) => ?_⟩
    show (if written = -1 then _ else _ : Server Unit).wp answering Q
      (Answer.afterWrite _ (replyBytes reply) written)
    by_cases hwritten : written = -1
    · rw [if_pos hwritten]
      exact ⟨trivial, fun r : Empty => r.elim⟩
    · rw [if_neg hwritten, Answer.afterWrite, if_neg hwritten]
      exact ⟨trivial, fun _ => ⟨.inl rfl, fun _ => hQ _ (.inl rfl)⟩⟩

/-- `manageRequest` gives the reply that it returns. -/
theorem wp_answer_manageRequest {Q : TlvReply → Answer → Prop}
    (hQ : ∀ reply (x : Answer), x.Gives reply → Q reply x) :
    (manageRequest setup request).wp answering Q .nothing := by
  have hsend : ∀ reply, (sendReply reply (getUserFifoPath request.value.header.pid) >>= fun _ =>
      .ret reply).wp answering Q .nothing := by
    intro reply
    rw [Prog.wp_bind]
    exact wp_answer_sendReply reply _ fun x hx => hQ reply x hx
  refine wp_early fun _ => ?_
  have hlogin : Views (fun _ => True) (validateAccount request) := views_validateAccount trivial
  refine Prog.wp_seq (hlogin.computes.early.wp (Q := fun _ x => x = .nothing) fun _ => rfl) ?_
  rintro invalid _ rfl
  refine wp_early fun _ => ?_
  cases invalid with
  | some reply => exact hsend reply
  | none =>
      refine Prog.wp_seq (wp_answer_performRequest (Q := fun _ x => x = .nothing) fun _ => rfl) ?_
      rintro reply _ rfl
      exact hsend reply

/-- What a thread guarantees when it comes back to its loop: nothing has been done about the next reply,
unless it has ended. -/
def Unanswered (ctl : Ctl) (x : Answer) : Prop := ctl = .ended ∨ x = .nothing

/-- An office. -/
theorem wp_answer_officeBody {office : ℕ} {ctl : Ctl} {x : Answer} (h : Unanswered ctl x) :
    (officeBody setup office ctl).wp answering Unanswered x := by
  rcases h with rfl | rfl
  · exact .inl rfl
  cases ctl with
  | start => exact wp_early fun _ => .inr rfl
  | serve =>
      have hround : (bankOfficeRound setup office).wp answering (fun _ x => x = .nothing) .nothing := by
        refine wp_early fun _ => wp_early fun _ => wp_early fun _ => wp_early fun request =>
          wp_early fun _ => wp_early fun _ => ?_
        refine Prog.wp_seq (wp_answer_manageRequest (Q := fun reply x => x.Gives reply) fun _ _ h => h) ?_
        exact fun reply x hx => ⟨hx, fun _ => ⟨trivial, fun _ => rfl⟩⟩
      exact Prog.wp_seq hround fun _ _ hx => .inr hx
  | _ => exact .inl rfl

/-- The main thread has nothing to do with replies. -/
theorem wp_answer_mainBody {ctl : Ctl} {x : Answer} (h : Unanswered ctl x) :
    (mainBody setup ctl).wp answering Unanswered x := by
  rcases h with rfl | rfl
  · exact .inl rfl
  have hearly : Early (mainBody setup ctl) := by
    cases ctl with
    | read =>
        refine Prog.Within.bind (p := readRequestsRound setup) ?_ fun _ => trivial
        refine within_sys rfl fun request => within_sys rfl fun bytes => ?_
        cases bytes with
        | none => trivial
        | some bytes =>
            refine within_sys rfl fun value => ?_
            cases value with
            | none => trivial
            | some value =>
                dsimp only
                split
                · trivial
                · exact within_ext rfl fun _ => within_ext rfl fun _ => within_ext rfl fun _ =>
                    within_ext rfl fun _ => within_ext (k := fun _ => .ret true) rfl fun _ => trivial
    | waitEmpty =>
        refine Prog.Within.bind (p := queueEmptyRound) ?_ fun _ => trivial
        exact within_ext rfl fun _ => within_ext rfl fun _ => within_ext rfl fun _ => trivial
    | waitIdle => exact (within_countActive (fun _ => rfl) _ _).bind fun _ => trivial
    | destroy i =>
        rw [mainBody]
        split
        · exact within_ext rfl fun _ => within_ext rfl fun _ => trivial
        · trivial
    | _ => trivial
  exact hearly.wp fun _ => .inr rfl

end Programs

/-! ## Runs -/

section Runs

variable {n : ℕ} {W : World (Thread n)} {serverFifoFD shutdownFD : Int} {tr : List (ServerEvent n W)}
  {c : Config (Thread n) ServerOp ServerRes (ServerState n W) Ctl}

/-- What a thread has done about the reply since it has finished the last request. -/
def answerOf (t : Thread n) (tr : List (ServerEvent n W)) : Answer := answerMonitor.after t tr

/-- All threads of the server keep to the monitor. -/
theorem watched_server : Watched (server n W serverFifoFD shutdownFD) (fun _ => answerMonitor)
    fun _ => Unanswered where
  start _ := .inr rfl
  body t ctl x h := by
    cases t with
    | main => exact wp_answer_mainBody h
    | office i => exact wp_answer_officeBody h
  divert t o s ctl s' x h := .inl (frame_of_divert h).1

/-- What an operation says of the answer of its office, when that allows it. -/
theorem answer_of_allows {x : Answer} {o : ServerOp} (h : answerMonitor.allows x o) :
    (∀ request reply, o = .ext (.mark (.managed request reply)) → x.Gives reply) ∧
      (∀ reply, o = .ext (.sys (.logReply reply)) → x.logged = []) ∧
      ((∀ op, o ≠ .ext op) ∨ o = .ext .queuePop → x = .nothing) := by
  refine ⟨?_, ?_, ?_⟩
  · rintro request reply rfl
    exact h
  · rintro reply rfl
    rcases h with hx | ⟨hx, -⟩
    · exact congrArg Answer.logged hx
    · exact congrArg Answer.logged hx
  · rintro (ho | rfl)
    · cases o with
      | ext op => exact absurd rfl (ho op)
      | _ => exact h
    · exact h

/-- **Every request is answered and logged once.** In every run, in every world: when an office has
managed a request, it has opened one FIFO since the last one. If it could, it has written the reply once
and logged it once; if not, it has written nothing and logged once the same reply with the return code
`USR_DOWN`. It never logs a second reply before that; and whenever it uses an account or a lock or takes
a request, it has not done anything about a reply yet. -/
theorem replies_logged_once (h : (server n W serverFifoFD shutdownFD).Run tr c) :
    Always (fun tr e =>
      (∀ request reply, e.op = .ext (.mark (.managed request reply)) →
        (answerOf e.tid tr).Gives reply) ∧
      (∀ reply, e.op = .ext (.sys (.logReply reply)) → (answerOf e.tid tr).logged = []) ∧
      ((∀ op, e.op ≠ .ext op) ∨ e.op = .ext .queuePop → answerOf e.tid tr = .nothing)) tr := by
  intro tr₁ e tr₂ htr
  exact answer_of_allows (watched_server.always h tr₁ e tr₂ htr)

end Runs

/-! ## An example -/

/-- A run in which a request has been managed. -/
theorem exists_run_managed :
    ∃ tr c, (server 1 (servingScript _ (readsOf balanceRequest)).world 3 4).Run tr c ∧
      (tr.any fun e => (managedBy e).isSome) = true :=
  System.exists_run_of_play (serverPlayer _ 3 4)
    (List.replicate 11 (.run .main) ++ List.replicate 24 (.run (.office 0)))
    (initial_firstConfig (servingScript _ (readsOf balanceRequest)) [9] [7] (fun _ => 1) 3 4)
    (fun tr _ => tr.any fun e => (managedBy e).isSome) (by decide +kernel)

/-- Its reply has been given. -/
theorem replies_logged_once_managed :
    ∃ tr c, (server 1 (servingScript _ (readsOf balanceRequest)).world 3 4).Run tr c ∧
      ∃ tr₁ e tr₂ request reply, tr = tr₁ ++ e :: tr₂ ∧
        e.op = .ext (.mark (.managed request reply)) ∧ (answerOf e.tid tr₁).Gives reply := by
  obtain ⟨tr, c, h, hc⟩ := exists_run_managed
  obtain ⟨e, he, hmanaged⟩ := List.any_eq_true.mp hc
  obtain ⟨tr₁, tr₂, rfl⟩ := List.append_of_mem he
  obtain ⟨t, o, r, s⟩ := e
  have hop : ∃ request reply, o = .ext (.mark (.managed request reply)) := by
    cases o with
    | ext op =>
        cases op with
        | mark m =>
            cases m with
            | managed request reply => exact ⟨request, reply, rfl⟩
            | _ => cases hmanaged
        | _ => cases hmanaged
    | _ => cases hmanaged
  obtain ⟨request, reply, rfl⟩ := hop
  exact ⟨_, c, h, tr₁, _, tr₂, request, reply, rfl, rfl,
    (replies_logged_once h tr₁ _ tr₂ rfl).1 request reply rfl⟩

end Sope
