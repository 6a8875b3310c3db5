import Sope.Hashing.Inheritance

/-! # Hashing as a conversation

In a call of `generateHash`, an office and its child talk through two pipes: the office writes a
string into the one, the child reads it to its end and writes the digest into the other, and the office
reads it. The rules here follow the string and the digest; the programs of all parties keep to them.

* `Role` — what a party knows of its own pipes, and how far it is.
* `conversation` — the rules, as a protocol. -/

namespace Sope.Hashing

open Concurrency

variable {n : ℕ}

/-! ## What the parties know -/

/-- How far an office is with a call of `generateHash`. -/
inductive Stage
  /-- It has not forked yet. -/
  | calling
  /-- It has forked the child with number `k` and not written the string. -/
  | forked (k output input : ℕ)
  /-- It has written the string. -/
  | sent (k output : ℕ)
  /-- It has read the hash. -/
  | finished

/-- How far a child is. -/
inductive Progress
  /-- It has read `got`. -/
  | reading (got : Bytes)
  /-- It has read `got`, up to the end. -/
  | atEnd (got : Bytes)
  /-- It has written the digest. -/
  | printed

/-- What a party knows. -/
inductive Role
  /-- An office with the descriptors that it has opened and not closed, and the number of hashes that
  it has read. -/
  | office (own : ℕ → Option End) (hashed : ℕ) (stage : Stage)
  /-- A child, before it is forked. -/
  | unborn
  /-- A child with its descriptors and its two pipes. -/
  | child (fds : ℕ → Option End) (input output : ℕ) (progress : Progress)
  /-- A child after its end. -/
  | ended

/-- What a party must know for a system call, and what it learns from it; `texts` are the strings that
an office hashes. -/
def Role.rule (texts : ℕ → Bytes) (digest : Bytes → Bytes) (x : Role) (o : Syscall)
    (Φ : o.Res → Role → Prop) : Prop :=
  match x, o with
  | .office own hashed .calling, .pipe => ∀ (fd : FdPair) (p : ℕ), own fd.pipeRead = none →
      own fd.pipeWrite = none → fd.pipeRead ≠ fd.pipeWrite → (∀ fd', own fd' ≠ some (.readEnd p)) →
      Φ fd (.office (Function.update (Function.update own fd.pipeRead (some (.readEnd p)))
        fd.pipeWrite (some (.writeEnd p))) hashed .calling)
  | .office own hashed .calling, .fork fd1 fd2 => ∃ output input,
      TwoPipes own fd1 fd2 output input ∧
        ∀ pid k, Φ pid (.office own hashed (.forked k output input))
  | .office own hashed stage, .close fd => own fd ≠ none ∧
      (∀ k output input, stage = .forked k output input → own fd ≠ some (.writeEnd input)) ∧
      Φ (0 : Int) (.office (Function.update own fd none) hashed stage)
  | .office own hashed (.forked k output input), .write fd bytes =>
      own fd = some (.writeEnd input) ∧ bytes = texts hashed ∧
        Φ (bytes.length : Int) (.office own hashed (.sent k output))
  | .office own hashed (.sent _ output), .read fd m => own fd = some (.readEnd output) ∧
      m = hashLen ∧ Φ (some ((digest (texts hashed)).take m)) (.office own (hashed + 1) .finished)
  | .unborn, .forked => ∀ (fd1 fd2 : FdPair) (fds : ℕ → Option End) (output input : ℕ),
      TwoPipes fds fd1 fd2 output input → fds stdinFileno = some .file →
      fds stdoutFileno = some .file → Φ (fd1, fd2) (.child fds input output (.reading []))
  | .child fds input output progress, .close fd =>
      (∃ e, fds fd = some e ∧ e ≠ .writeEnd output) ∧
        Φ (0 : Int) (.child (Function.update fds fd none) input output progress)
  | .child fds input output progress, .dup2 fd fd' => fds fd' = some .file ∧
      ∃ e, fds fd = some e ∧
        Φ (fd' : Int) (.child (Function.update fds fd' (some e)) input output progress)
  | .child fds input output progress, .execlp => Φ () (.child fds input output progress)
  | .child fds input output (.reading got), .read fd m => 0 < m ∧ fds fd = some (.readEnd input) ∧
      (∀ bytes, bytes ≠ [] → Φ (some bytes) (.child fds input output (.reading (got ++ bytes)))) ∧
      Φ (some []) (.child fds input output (.atEnd got))
  | .child fds input output (.atEnd got), .write fd bytes => fds fd = some (.writeEnd output) ∧
      bytes = digest got ∧ Φ (bytes.length : Int) (.child fds input output .printed)
  | .child _ _ _ .printed, .exit _ => Φ () .ended
  | _, _ => False

/-- The strings that a party hashes. -/
def textsOf (concatd : Fin n → ℕ → Bytes) : Party n → ℕ → Bytes
  | .office i => concatd i
  | .child _ => fun _ => []

/-- The rules as a protocol. -/
def conversation (concatd : Fin n → ℕ → Bytes) (digest : Bytes → Bytes) (t : Party n) :
    Protocol Syscall Syscall.Res Role where
  rule := Role.rule (textsOf concatd t) digest
  mono {x o Φ Ψ} hΦ h := by
    cases x with
    | office own hashed stage =>
        cases stage <;> cases o <;> simp only [Role.rule] at h ⊢ <;> grind
    | child fds input output progress =>
        cases progress <;> cases o <;> simp only [Role.rule] at h ⊢ <;> grind
    | unborn =>
        cases o <;> simp only [Role.rule] at h ⊢
        grind
    | ended => cases o <;> exact h.elim

/-- What a party knows when it comes back to its loop. -/
def AtTurn : Party n → Ctl → Role → Prop
  | .office _, x, g => ∃ number own, x = .generateHash number ∧ g = .office own number .finished
  | .child _, .unborn, g => g = .unborn
  | .child _, .sha256sum got, g => ∃ fds input output, g = .child fds input output (.reading got) ∧
      fds stdinFileno = some (.readEnd input) ∧ fds stdoutFileno = some (.writeEnd output)
  | .child _, _, g => g = .ended

section Programs

variable {concatd : Fin n → ℕ → Bytes} {digest : Bytes → Bytes}

/-- An office closes one of its descriptors, and tests whether that failed. -/
theorem Role.wp_close_office {α : Type} {i : Fin n} {own : ℕ → Option End} {hashed fd : ℕ}
    {stage : Stage} {p q : Proc α} {Q : α → Role → Prop} (hfd : own fd ≠ none)
    (hstage : ∀ k output input, stage = .forked k output input → own fd ≠ some (.writeEnd input))
    (h : q.wp (conversation concatd digest (.office i)) Q
      (.office (Function.update own fd none) hashed stage)) :
    (do let closed : Int ← call (.close fd)
        if closed = -1 then p else q : Proc α).wp (conversation concatd digest (.office i)) Q
      (.office own hashed stage) := by
  have hrule : (do let closed : Int ← call (.close fd)
                   if closed = -1 then p else q : Proc α).wp (conversation concatd digest (.office i))
      Q (.office own hashed stage) ↔ own fd ≠ none ∧
        (∀ k output input, stage = .forked k output input → own fd ≠ some (.writeEnd input)) ∧
        (if (0 : Int) = -1 then p else q : Proc α).wp (conversation concatd digest (.office i)) Q
          (.office (Function.update own fd none) hashed stage) := by
    cases stage <;> rfl
  rw [hrule, if_neg (by decide)]
  exact ⟨hfd, hstage, h⟩

/-- `generateHash` hands its string to the child and reads the digest of this string. -/
theorem Role.wp_generateHash (i : Fin n) (number : ℕ) :
    (generateHash (concatd i number)).wp (conversation concatd digest (.office i))
      (fun _ g => ∃ own, g = .office own (number + 1) .finished)
      (.office (fun _ => none) number .calling) := by
  intro fd1 output _ _ hne₁ _ fd2 input hr₂ hw₂ hne₂ hfresh
  have hne : output ≠ input := by
    rintro rfl
    exact hfresh fd1.pipeRead (by simp [hne₁])
  -- the second pipe has other descriptors than the first one
  have hread : fd1.pipeRead ≠ fd2.pipeRead ∧ fd1.pipeWrite ≠ fd2.pipeRead := by
    constructor <;> intro h <;> simp [← h, hne₁] at hr₂
  have hwrite : fd1.pipeRead ≠ fd2.pipeWrite ∧ fd1.pipeWrite ≠ fd2.pipeWrite := by
    constructor <;> intro h <;> simp [← h, hne₁] at hw₂
  generalize hown : Function.update (Function.update (Function.update (Function.update
    (fun _ => none) fd1.pipeRead _) fd1.pipeWrite _) fd2.pipeRead _) fd2.pipeWrite _ = own
  have htwo : TwoPipes own fd1 fd2 output input := by
    subst hown
    constructor <;> simp [hne, hne₁, hne₂, hread, hwrite]
  refine ⟨output, input, htwo, fun _ k => ?_⟩
  refine Role.wp_close_office (by simp [htwo.fd2Read]) (fun _ _ input' h => ?_)
    (Role.wp_close_office ?_ (fun _ _ input' h => ?_) ⟨?_, rfl, ?_⟩)
  · cases h
    simp [htwo.fd2Read]
  · simp [htwo.fd1Write, hread]
  · cases h
    simp [htwo.fd1Write, hread, hne]
  · simp [htwo.fd2Write, hne₂.symm, hwrite.2.symm]
  change (if ((concatd i number).length : Int) ≠ _ then _ else _ : Proc _).wp _ _ _
  rw [if_neg (by simp)]
  refine Role.wp_close_office ?_ (fun _ _ _ h => nomatch h) ⟨?_, rfl, ?_⟩
  · simp [htwo.fd2Write, hne₂.symm, hwrite.2.symm]
  · simp [htwo.fd1Read, hne₁, hread, hwrite]
  change (if List.length _ ≠ hashLen then _ else _ : Proc _).wp _ _ _
  split
  · exact ⟨_, rfl⟩
  · refine Role.wp_close_office ?_ (fun _ _ _ h => nomatch h) ⟨_, rfl⟩
    simp [htwo.fd1Read, hne₁, hread, hwrite]

/-- An office comes back to its loop after every call of `generateHash`. -/
theorem Role.wp_officeBody (i : Fin n) (number : ℕ) :
    (officeBody (concatd i) (.generateHash number)).wp (conversation concatd digest (.office i))
      (AtTurn (.office i)) (.office (fun _ => none) number .calling) :=
  Prog.wp_seq (Role.wp_generateHash i number) fun _ _ ⟨own, h⟩ => ⟨number + 1, own, rfl, h⟩

/-- A child closes a descriptor, and tests whether that failed. -/
theorem Role.wp_close_child {α : Type} {k : ℕ} {fds : ℕ → Option End} {input output fd : ℕ}
    {progress : Progress} {e : End} {p q : Proc α} {Q : α → Role → Prop} (hfd : fds fd = some e)
    (he : e ≠ .writeEnd output)
    (h : q.wp (conversation concatd digest (.child k)) Q
      (.child (Function.update fds fd none) input output progress)) :
    (do let closed : Int ← call (.close fd)
        if closed = -1 then p else q : Proc α).wp (conversation concatd digest (.child k)) Q
      (.child fds input output progress) := by
  have hrule : (do let closed : Int ← call (.close fd)
                   if closed = -1 then p else q : Proc α).wp (conversation concatd digest (.child k))
      Q (.child fds input output progress) ↔ (∃ e, fds fd = some e ∧ e ≠ .writeEnd output) ∧
        (if (0 : Int) = -1 then p else q : Proc α).wp (conversation concatd digest (.child k)) Q
          (.child (Function.update fds fd none) input output progress) := by
    cases progress <;> rfl
  rw [hrule, if_neg (by decide)]
  exact ⟨⟨e, hfd, he⟩, h⟩

/-- A child duplicates a descriptor, and tests whether that failed. -/
theorem Role.wp_dup2 {α : Type} {k : ℕ} {fds : ℕ → Option End} {input output fd fd' : ℕ}
    {progress : Progress} {e : End} {p q : Proc α} {Q : α → Role → Prop} (hfd : fds fd = some e)
    (hfd' : fds fd' = some .file)
    (h : q.wp (conversation concatd digest (.child k)) Q
      (.child (Function.update fds fd' (some e)) input output progress)) :
    (do let duplicated : Int ← call (.dup2 fd fd')
        if duplicated = -1 then p else q : Proc α).wp (conversation concatd digest (.child k)) Q
      (.child fds input output progress) := by
  have hrule : (do let duplicated : Int ← call (.dup2 fd fd')
                   if duplicated = -1 then p else q : Proc α).wp
      (conversation concatd digest (.child k)) Q (.child fds input output progress) ↔
        fds fd' = some .file ∧ ∃ e, fds fd = some e ∧
          (if (fd' : Int) = -1 then p else q : Proc α).wp (conversation concatd digest (.child k)) Q
            (.child (Function.update fds fd' (some e)) input output progress) := by
    cases progress <;> rfl
  rw [hrule, if_neg (by omega)]
  exact ⟨hfd', e, hfd, h⟩

/-- A child ends up with its two pipes as its standard input and output. -/
theorem Role.wp_coprocess (k : ℕ) :
    coprocess.wp (conversation concatd digest (.child k)) (AtTurn (n := n) (.child k)) .unborn := by
  intro fd1 fd2 fds output input h h0 h1
  have hne : ∀ {fd fd' e}, fds fd = some e → fds fd' = some .file → e ≠ .file → fd ≠ fd' := by
    rintro fd fd' e hfd hfd' he rfl
    exact he (Option.some.inj (hfd.symm.trans hfd'))
  obtain ⟨hrr, hrw⟩ : (fd1.pipeRead ≠ fd2.pipeRead ∧ fd1.pipeRead ≠ fd2.pipeWrite) ∧
      fd1.pipeWrite ≠ fd1.pipeRead ∧ fd1.pipeWrite ≠ fd2.pipeWrite ∧ fd2.pipeWrite ≠ fd2.pipeRead := by
    have := h.nodup
    simp only [List.nodup_cons, List.mem_cons] at this
    tauto
  have hstd : stdinFileno ≠ stdoutFileno := by decide
  refine Role.wp_close_child h.fd1Read (by simp) ?_
  refine Role.wp_close_child (e := .writeEnd input) ?_ (by simpa using h.ne.symm) ?_
  · simp [h.fd2Write, hrr.2.symm]
  refine Role.wp_dup2 (e := .writeEnd output) ?_ ?_ ?_
  · simp [h.fd1Write, hrw]
  · simp [h1, (hne h.fd1Read h1 (by simp)).symm, (hne h.fd2Write h1 (by simp)).symm]
  refine Role.wp_dup2 (e := .readEnd input) ?_ ?_ ?_
  · simp [h.fd2Read, hne h.fd2Read h1 (by simp), hrr.1.symm, hrw.2.2.symm]
  · simp [h0, hstd, (hne h.fd1Read h0 (by simp)).symm, (hne h.fd2Write h0 (by simp)).symm]
  exact ⟨_, input, output, rfl, by simp, by simp [hstd.symm]⟩

/-- `sha256sum` prints the digest of all that it has read. -/
theorem Role.wp_sha256sum (k : ℕ) (got : Bytes) {fds : ℕ → Option End} {input output : ℕ}
    (hin : fds stdinFileno = some (.readEnd input))
    (hout : fds stdoutFileno = some (.writeEnd output)) :
    (sha256sum digest got).wp (conversation concatd digest (.child k)) (AtTurn (n := n) (.child k))
      (.child fds input output (.reading got)) := by
  refine ⟨by decide, hin, fun bytes hbytes => ?_, hout, rfl, rfl⟩
  cases bytes with
  | nil => exact absurd rfl hbytes
  | cons b bytes => exact ⟨fds, input, output, rfl, hin, hout⟩

/-- A child comes back to its loop after every program. -/
theorem Role.wp_childBody (k : ℕ) {x : Ctl} {g : Role} (h : AtTurn (n := n) (.child k) x g) :
    (childBody digest x).wp (conversation concatd digest (.child k)) (AtTurn (n := n) (.child k))
      g := by
  cases x with
  | unborn =>
      obtain rfl : g = .unborn := h
      exact Role.wp_coprocess k
  | sha256sum got =>
      obtain ⟨fds, input, output, rfl, hin, hout⟩ := h
      exact Role.wp_sha256sum k got hin hout
  | generateHash number => exact h
  | ended => exact h

end Programs

end Sope.Hashing
