import Sope.Concurrency.LockedMemory

/-! # Monitors

A `Monitor` watches the operations of one thread: it is a deterministic automaton whose state is moved
by every operation and its result, and which allows some operations in each state. Its state after a
run is a function of the run (`Monitor.after`), so that what a proof by a monitor shows is a property
of runs: no operation is performed in a state that does not allow it.

* `Occurs`, `Always` — some or all operations of a run are as described, with what came before them.
* `Monitor.protocol`, `Monitor.Accepts` — a monitor as a protocol, and the programs that keep to it.
* `Monitor.rules` — a monitor as rules of a protocol over a locked memory.
* `Monitor.wp_within` — a program whose operations all leave the state of the monitor alone. -/

namespace Concurrency

/-! ## Operations of a run, with what came before them -/

section Occurs

variable {α : Type} {Q : List α → α → Prop} {l l' : List α} {a : α}

/-- Some element of the list is as described by `Q`, of what comes before it and itself. -/
def Occurs (Q : List α → α → Prop) (l : List α) : Prop := ∃ l₁ a l₂, l = l₁ ++ a :: l₂ ∧ Q l₁ a

/-- Every element is. -/
def Always (Q : List α → α → Prop) (l : List α) : Prop := ∀ l₁ a l₂, l = l₁ ++ a :: l₂ → Q l₁ a

@[simp] theorem not_occurs_nil : ¬ Occurs Q [] := by
  rintro ⟨l₁, a, l₂, h, -⟩
  simp at h

/-- What has occurred has still occurred later. -/
theorem Occurs.append (h : Occurs Q l) (l' : List α) : Occurs Q (l ++ l') := by
  obtain ⟨l₁, a, l₂, rfl, hQ⟩ := h
  exact ⟨l₁, a, l₂ ++ l', by simp, hQ⟩

/-- One more element. -/
theorem occurs_concat : Occurs Q (l ++ [a]) ↔ Occurs Q l ∨ Q l a := by
  constructor
  · rintro ⟨l₁, b, l₂, h, hQ⟩
    rcases List.eq_nil_or_concat l₂ with rfl | ⟨l₂, c, rfl⟩
    · obtain ⟨rfl, hb⟩ := List.append_inj' h rfl
      obtain rfl := List.singleton_inj.mp hb
      exact .inr hQ
    · rw [List.concat_eq_append, ← List.cons_append, ← List.append_assoc] at h
      exact .inl ⟨l₁, b, l₂, (List.append_inj' h rfl).1, hQ⟩
  · rintro (h | hQ)
    · exact h.append [a]
    · exact ⟨l, a, [], rfl, hQ⟩

/-- What is so of all elements is so of those of a beginning. -/
theorem Always.left (h : Always Q (l ++ l')) : Always Q l := by
  intro l₁ a l₂ hl
  exact h l₁ a (l₂ ++ l') (by rw [hl]; simp)

/-- And of the last one. -/
theorem Always.last (h : Always Q (l ++ [a])) : Q l a := h l a [] rfl

end Occurs

/-! ## Monitors -/

/-- A deterministic automaton that watches operations `Op` with results `Res`, with states in `X`. -/
structure Monitor (Op : Type) (Res : Op → Type) (X : Type) where
  /-- The state before any operation. -/
  start : X
  /-- The operations that a state allows. -/
  allows : X → Op → Prop
  /-- The state after an operation with a given result. -/
  next : X → (o : Op) → Res o → X

namespace Monitor

section After

variable {Tid Op X σ : Type} {Res : Op → Type} [DecidableEq Tid] (M : Monitor Op Res X)

/-- The state of the monitor of thread `t` after one more operation of some thread. -/
def watch (t : Tid) (x : X) (e : Event Tid Op Res σ) : X :=
  if e.tid = t then M.next x e.op e.res else x

/-- The state of the monitor of thread `t` after the operations of a run. -/
def after (t : Tid) (tr : List (Event Tid Op Res σ)) : X := tr.foldl (M.watch t) M.start

variable {M} {t u : Tid} {tr : List (Event Tid Op Res σ)} {o : Op} {r : Res o} {s : σ}

@[simp] theorem after_nil : M.after t ([] : List (Event Tid Op Res σ)) = M.start := rfl

/-- One more operation. -/
theorem after_append (e : Event Tid Op Res σ) : M.after t (tr ++ [e]) = M.watch t (M.after t tr) e := by
  simp [after]

/-- An operation of the thread itself. -/
@[simp] theorem after_append_self :
    M.after t (tr ++ [⟨t, o, r, s⟩]) = M.next (M.after t tr) o r := by
  rw [after_append, watch, if_pos rfl]

/-- An operation of another thread. -/
theorem after_append_of_ne (h : u ≠ t) : M.after t (tr ++ [⟨u, o, r, s⟩]) = M.after t tr := by
  rw [after_append, watch, if_neg h]

/-- The states of all monitors, one for each thread, after an operation of thread `t`. -/
theorem after_append_eq_update {M : Tid → Monitor Op Res X} :
    (fun u => (M u).after u (tr ++ [⟨t, o, r, s⟩])) =
      Function.update (fun u => (M u).after u tr) t ((M t).next ((M t).after t tr) o r) := by
  funext u
  by_cases hu : u = t
  · subst hu
    simp
  · rw [Function.update_of_ne hu, after_append_of_ne (Ne.symm hu)]

end After

section Protocol

variable {Op X α β : Type} {Res : Op → Type}

/-- A monitor as a protocol: an operation must be allowed, and moves the monitor. -/
def protocol (M : Monitor Op Res X) : Protocol Op Res X where
  rule x o Φ := M.allows x o ∧ ∀ r, Φ r (M.next x o r)
  mono h hr := ⟨hr.1, fun r => h _ _ (hr.2 r)⟩

/-- The program performs only operations that the monitor allows, from the state `x` on. -/
def Accepts (M : Monitor Op Res X) (x : X) (p : Prog Op Res α) : Prop :=
  p.wp M.protocol (fun _ _ => True) x

variable {M : Monitor Op Res X} {x : X}

/-- An operation, and what follows it. -/
theorem accepts_op {o : Op} {k : Res o → Prog Op Res α} (ho : M.allows x o)
    (hk : ∀ r, M.Accepts (M.next x o r) (k r)) : M.Accepts x (.op o k) := ⟨ho, hk⟩

/-- The next operation of an accepted program is allowed, and the rest is accepted. -/
theorem Accepts.op {o : Op} {k : Res o → Prog Op Res α} (h : M.Accepts x (.op o k)) :
    M.allows x o ∧ ∀ r, M.Accepts (M.next x o r) (k r) := h

end Protocol

section Rules

variable {Id Cell Acc Ext X α : Type} {ARes : Acc → Type} {ERes : Ext → Type} [DecidableEq Id]

/-- A monitor as rules: an operation must be allowed, and moves the monitor. -/
def rules (M : Monitor (MemOp Id Acc Ext) (MemOp.Res ARes ERes) X) :
    Extra Id Cell Acc Ext ARes ERes X where
  pre x _ o := M.allows x o
  rule x _ o r _ Φ := Φ (M.next x o r)
  mono h hr := h _ hr

variable {M : Monitor (MemOp Id Acc Ext) (MemOp.Res ARes ERes) X} {C : Cells Id Cell Acc ARes}
  {L : CellSpec Id Cell} {x : X} {b : Hold Id Cell} {Q : α → Hold Id Cell × X → Prop}

/-- An external operation. -/
theorem wp_ext {e : Ext} {k : ERes e → Prog (MemOp Id Acc Ext) (MemOp.Res ARes ERes) α}
    (hpre : M.allows x (.ext e))
    (hk : ∀ r, (k r).wp (M.rules.protocol C L) Q (b, M.next x (.ext e) r)) :
    (Prog.op (MemOp.ext e) k).wp (M.rules.protocol C L) Q (b, x) := ⟨hpre, hk⟩

/-- A program on held cells whose operations the monitor allows in state `x` and does not notice. -/
theorem wp_within {A : Acc → Prop} {F : Ext → Prop} {J : Hold Id Cell → Prop}
    {p : Prog (MemOp Id Acc Ext) (MemOp.Res ARes ERes) α} (hp : p.Within A F)
    (hacc : ∀ a b, A a → J b → C.loc a ∈ b.held ∧
      L.le (b.cur (C.loc a)) (C.run a (b.cur (C.loc a))).2 ∧
      J (b.write (C.loc a) (C.run a (b.cur (C.loc a))).2))
    (hnotice : ∀ a, A a → M.allows x (.access a) ∧ ∀ r, M.next x (.access a) r = x)
    (hext : ∀ e, F e → M.allows x (.ext e) ∧ ∀ r, M.next x (.ext e) r = x)
    (hJ : J b) (hQ : ∀ a b', J b' → Q a (b', x)) : p.wp (M.rules.protocol C L) Q (b, x) := by
  refine hp.wp_keep (J := J) (fun a b ha hb => ?_) (fun e b he _ => ?_) hJ hQ
  · obtain ⟨hheld, hle, hJ'⟩ := hacc a b ha hb
    refine ⟨(hnotice a ha).1, hheld, hle, hJ', ?_⟩
    intro r b' Φ hΦ
    show Φ (M.next x (.access a) r)
    rwa [(hnotice a ha).2]
  · refine ⟨(hext e he).1, ?_⟩
    intro r b' Φ hΦ
    show Φ (M.next x (.ext e) r)
    rwa [(hext e he).2]

end Rules

end Monitor

end Concurrency
