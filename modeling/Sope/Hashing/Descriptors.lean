import Sope.Concurrency.Protocol
import Sope.Hashing.Processes

/-! # What the parties know about their descriptors

The descriptor table of the server is shared by the offices, but each office uses the descriptors of
its own two pipes only, and each child uses its own table. The rules here say what a party must know
of its descriptors for a system call to return what the program expects; `generateHash` and both
programs of a child follow them. -/

namespace Sope.Hashing

open Concurrency

variable {n : ℕ}

/-- What a party knows. -/
inductive Knows
  /-- An office, with the descriptors that it has opened and not closed, and its pipes from which no
  child reads. -/
  | office (own : ℕ → Option End) (unread : Set ℕ)
  /-- A child, before it is forked. -/
  | unborn
  /-- A child with its descriptors and the pipe from which it reads its input; `eof` if it has read
  to the end. -/
  | child (fds : ℕ → Option End) (input : ℕ) (eof : Bool)
  /-- A child after its end. -/
  | ended

/-- Descriptors with two pipes among them, from which a child reads `input`. -/
structure TwoPipes (fds : ℕ → Option End) (fd1 fd2 : FdPair) (output input : ℕ) : Prop where
  ne : output ≠ input
  fd1Read : fds fd1.pipeRead = some (.readEnd output)
  fd1Write : fds fd1.pipeWrite = some (.writeEnd output)
  fd2Read : fds fd2.pipeRead = some (.readEnd input)
  fd2Write : fds fd2.pipeWrite = some (.writeEnd input)

/-- The four descriptors of two pipes are different. -/
theorem TwoPipes.nodup {fds : ℕ → Option End} {fd1 fd2 : FdPair} {output input : ℕ}
    (h : TwoPipes fds fd1 fd2 output input) :
    [fd1.pipeRead, fd1.pipeWrite, fd2.pipeRead, fd2.pipeWrite].Nodup := by
  have hends : ([fd1.pipeRead, fd1.pipeWrite, fd2.pipeRead, fd2.pipeWrite].map fds).Nodup := by
    simp [h.fd1Read, h.fd1Write, h.fd2Read, h.fd2Write, h.ne]
  exact hends.of_map

/-- What a party must know for a system call, and what it learns from it. -/
def Knows.rule (x : Knows) (o : Syscall) (Φ : o.Res → Knows → Prop) : Prop :=
  match x, o with
  | .office own unread, .pipe => ∀ (fd : FdPair) (p : ℕ), own fd.pipeRead = none →
      own fd.pipeWrite = none → fd.pipeRead ≠ fd.pipeWrite → (∀ fd', own fd' ≠ some (.readEnd p)) →
      Φ fd (.office (Function.update (Function.update own fd.pipeRead (some (.readEnd p)))
        fd.pipeWrite (some (.writeEnd p))) (insert p unread))
  | .office own unread, .fork fd1 fd2 => ∃ output input, TwoPipes own fd1 fd2 output input ∧
      input ∈ unread ∧ ∀ pid, Φ pid (.office own (unread \ {input}))
  | .office own unread, .close fd =>
      own fd ≠ none ∧ Φ (0 : Int) (.office (Function.update own fd none) unread)
  | .office own unread, .write .. => ∀ written, Φ written (.office own unread)
  | .office own unread, .read .. => ∀ bytes, Φ bytes (.office own unread)
  | .unborn, .forked => ∀ (fd1 fd2 : FdPair) (fds : ℕ → Option End) (output input : ℕ),
      TwoPipes fds fd1 fd2 output input → fds stdinFileno = some .file →
      fds stdoutFileno = some .file → Φ (fd1, fd2) (.child fds input false)
  | .child fds input eof, .close fd =>
      (∃ e, fds fd = some e ∧ e ≠ .readEnd input ∧ ∀ p, e = .writeEnd p → p = input) ∧
        Φ (0 : Int) (.child (Function.update fds fd none) input eof)
  | .child fds input eof, .dup2 fd fd' => fds fd' = some .file ∧
      ∃ e, fds fd = some e ∧ Φ (fd' : Int) (.child (Function.update fds fd' (some e)) input eof)
  | .child fds input eof, .execlp => Φ () (.child fds input eof)
  | .child fds input eof, .write .. => ∀ written, Φ written (.child fds input eof)
  | .child fds input eof, .read fd m => 0 < m ∧ fds fd = some (.readEnd input) ∧
      (∀ bytes, bytes ≠ [] → Φ (some bytes) (.child fds input eof)) ∧
      Φ (some []) (.child fds input true)
  | .child _ _ eof, .exit _ => eof = true ∧ Φ () .ended
  | _, _ => False

/-- The rules as a protocol, which is the same for all parties. -/
def descriptors (_ : Party n) : Protocol Syscall Syscall.Res Knows where
  rule := Knows.rule
  mono {x o Φ Ψ} hΦ h := by
    cases x <;> cases o <;> simp only [Knows.rule] at h ⊢ <;> grind

/-- What a party knows when it comes back to its loop. -/
def AtLoop : Party n → Ctl → Knows → Prop
  | .office _, x, g => (∃ number, x = .generateHash number) ∧ ∃ own unread, g = .office own unread
  | .child _, .unborn, g => g = .unborn
  | .child _, .sha256sum _, g => ∃ fds input eof, g = .child fds input eof ∧
      fds stdinFileno = some (.readEnd input)
  | .child _, _, g => g = .ended

/-! ## `generateHash` -/

/-- An office closes one of its descriptors, and tests whether that failed. -/
theorem wp_close_office {α : Type} {i : Fin n} {own : ℕ → Option End} {unread : Set ℕ}
    {fd : ℕ} {p q : Proc α} {Q : α → Knows → Prop} (hfd : own fd ≠ none)
    (h : q.wp (descriptors (.office i)) Q (.office (Function.update own fd none) unread)) :
    (do let closed : Int ← call (.close fd)
        if closed = -1 then p else q : Proc α).wp (descriptors (.office i)) Q
      (.office own unread) := by
  refine ⟨hfd, ?_⟩
  change (if (0 : Int) = -1 then p else q : Proc α).wp _ _ _
  rwa [if_neg (by decide)]

/-- `generateHash` uses the descriptors of its own pipes only. -/
theorem wp_generateHash (i : Fin n) (concatd : Bytes) :
    (generateHash concatd).wp (descriptors (.office i)) (fun _ g => ∃ own unread, g = .office own unread)
      (.office (fun _ => none) ∅) := by
  intro fd1 output _ _ hne₁ _ fd2 input hr₂ hw₂ hne₂ hfresh
  have hne : output ≠ input := by
    rintro rfl
    exact hfresh fd1.pipeRead (by simp [hne₁])
  -- the second pipe has other descriptors than the first one
  have hread : fd1.pipeRead ≠ fd2.pipeRead ∧ fd1.pipeWrite ≠ fd2.pipeRead := by
    constructor <;> intro h <;> simp [← h, hne₁] at hr₂
  have hwrite : fd1.pipeRead ≠ fd2.pipeWrite ∧ fd1.pipeWrite ≠ fd2.pipeWrite := by
    constructor <;> intro h <;> simp [← h, hne₁] at hw₂
  generalize hown : Function.update (Function.update (Function.update (Function.update
    (fun _ => none) fd1.pipeRead _) fd1.pipeWrite _) fd2.pipeRead _) fd2.pipeWrite _ = own
  have htwo : TwoPipes own fd1 fd2 output input := by
    subst hown
    constructor <;> simp [hne, hne₁, hne₂, hread, hwrite]
  refine ⟨output, input, htwo, Set.mem_insert _ _, fun _ => ?_⟩
  refine wp_close_office (by simp [htwo.fd2Read]) (wp_close_office ?_ fun (written : Int) => ?_)
  · simp [htwo.fd1Write, hread]
  change (if written ≠ (concatd.length : Int) then _ else _ : Proc _).wp _ _ _
  split
  · exact ⟨_, _, rfl⟩
  refine wp_close_office ?_ fun hash => ?_
  · simp [htwo.fd2Write, hne₂.symm, hwrite.2.symm]
  cases hash with
  | none => exact ⟨_, _, rfl⟩
  | some hash =>
      change (if hash.length ≠ hashLen then _ else _ : Proc _).wp _ _ _
      split
      · exact ⟨_, _, rfl⟩
      · refine wp_close_office ?_ ⟨_, _, rfl⟩
        simp [htwo.fd1Read, hne₁, hread, hwrite]

/-- An office comes back to its loop after every call of `generateHash`. -/
theorem wp_officeBody (i : Fin n) (concatd : ℕ → Bytes) (number : ℕ) :
    (officeBody concatd (.generateHash number)).wp (descriptors (.office i)) (AtLoop (.office i))
      (.office (fun _ => none) ∅) :=
  Prog.wp_seq (wp_generateHash i (concatd number)) fun _ _ h => ⟨⟨_, rfl⟩, h⟩

/-! ## The children -/

/-- A child closes a descriptor, and tests whether that failed. -/
theorem wp_close_child {α : Type} {k : ℕ} {fds : ℕ → Option End} {input fd : ℕ} {eof : Bool} {e : End}
    {p q : Proc α} {Q : α → Knows → Prop} (hfd : fds fd = some e) (hread : e ≠ .readEnd input)
    (hwrite : ∀ p, e = .writeEnd p → p = input)
    (h : q.wp (descriptors (n := n) (.child k)) Q (.child (Function.update fds fd none) input eof)) :
    (do let closed : Int ← call (.close fd)
        if closed = -1 then p else q : Proc α).wp (descriptors (n := n) (.child k)) Q
      (.child fds input eof) := by
  refine ⟨⟨e, hfd, hread, hwrite⟩, ?_⟩
  change (if (0 : Int) = -1 then p else q : Proc α).wp _ _ _
  rwa [if_neg (by decide)]

/-- A child duplicates a descriptor, and tests whether that failed. -/
theorem wp_dup2 {α : Type} {k : ℕ} {fds : ℕ → Option End} {input fd fd' : ℕ} {eof : Bool} {e : End}
    {p q : Proc α} {Q : α → Knows → Prop} (hfd : fds fd = some e) (hfd' : fds fd' = some .file)
    (h : q.wp (descriptors (n := n) (.child k)) Q
      (.child (Function.update fds fd' (some e)) input eof)) :
    (do let duplicated : Int ← call (.dup2 fd fd')
        if duplicated = -1 then p else q : Proc α).wp (descriptors (n := n) (.child k)) Q
      (.child fds input eof) := by
  refine ⟨hfd', e, hfd, ?_⟩
  change (if (fd' : Int) = -1 then p else q : Proc α).wp _ _ _
  rwa [if_neg (by omega)]

/-- A child closes and duplicates its own descriptors only, and ends up with its input pipe as its
standard input. -/
theorem wp_coprocess (k : ℕ) :
    coprocess.wp (descriptors (n := n) (.child k)) (AtLoop (n := n) (.child k)) .unborn := by
  intro fd1 fd2 fds output input h h0 h1
  have hne : ∀ {fd fd' e}, fds fd = some e → fds fd' = some .file → e ≠ .file → fd ≠ fd' := by
    rintro fd fd' e hfd hfd' he rfl
    exact he (Option.some.inj (hfd.symm.trans hfd'))
  obtain ⟨hrr, hrw⟩ : (fd1.pipeRead ≠ fd2.pipeRead ∧ fd1.pipeRead ≠ fd2.pipeWrite) ∧
      fd1.pipeWrite ≠ fd1.pipeRead ∧ fd1.pipeWrite ≠ fd2.pipeWrite ∧ fd2.pipeWrite ≠ fd2.pipeRead := by
    have := h.nodup
    simp only [List.nodup_cons, List.mem_cons] at this
    tauto
  refine wp_close_child h.fd1Read (by simp [h.ne]) (by simp) ?_
  refine wp_close_child (e := .writeEnd input) ?_ (by simp) (by simp) ?_
  · simp [h.fd2Write, hrr.2.symm]
  refine wp_dup2 (e := .writeEnd output) ?_ ?_ ?_
  · simp [h.fd1Write, hrw]
  · simp [h1, (hne h.fd1Read h1 (by simp)).symm, (hne h.fd2Write h1 (by simp)).symm]
  refine wp_dup2 (e := .readEnd input) ?_ ?_ ?_
  · simp [h.fd2Read, hne h.fd2Read h1 (by simp), hrr.1.symm, hrw.2.2.symm]
  · have hstd : stdinFileno ≠ stdoutFileno := by decide
    simp [h0, hstd, (hne h.fd1Read h0 (by simp)).symm, (hne h.fd2Write h0 (by simp)).symm]
  exact ⟨_, input, false, rfl, by simp⟩

/-- `sha256sum` ends when it has read its input to the end. -/
theorem wp_sha256sum (k : ℕ) (digest : Bytes → Bytes) (bytes : Bytes) {fds : ℕ → Option End}
    {input : ℕ} (h : fds stdinFileno = some (.readEnd input)) (eof : Bool) :
    (sha256sum digest bytes).wp (descriptors (n := n) (.child k)) (AtLoop (n := n) (.child k))
      (.child fds input eof) := by
  refine ⟨by decide, h, ?_, ?_⟩
  · intro more hmore
    cases more with
    | nil => exact absurd rfl hmore
    | cons b more => exact ⟨fds, input, eof, rfl, h⟩
  · intro _
    exact ⟨rfl, rfl⟩

/-- A child comes back to its loop after every program. -/
theorem wp_childBody (k : ℕ) (digest : Bytes → Bytes) {x : Ctl} {g : Knows}
    (h : AtLoop (n := n) (.child k) x g) :
    (childBody digest x).wp (descriptors (n := n) (.child k)) (AtLoop (n := n) (.child k)) g := by
  cases x with
  | unborn =>
      obtain rfl : g = .unborn := h
      exact wp_coprocess k
  | sha256sum bytes =>
      obtain ⟨fds, input, eof, rfl, hin⟩ := h
      exact wp_sha256sum k digest bytes hin eof
  | generateHash number => exact h
  | ended => exact h

end Sope.Hashing
