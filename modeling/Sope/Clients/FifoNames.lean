import Mathlib.Data.Nat.Digits.Lemmas
import Sope.Clients.Arguments
import Sope.Memory.Buffer

/-! # The names of the users' FIFOs

Server and user compute the name of a user's FIFO from its process number. Two processes never get the
same name (`getUserFifoPath_injective`): the number can be read from the name again. The two arrays in
which the name is put together are large enough exactly for the numbers of at most five digits
(`userFifoName_iff`). -/

namespace Sope

open Memory

/-- The value of decimal digits, the least significant one first. -/
theorem digitsValue_reverse {ds : List ℕ} (h : ∀ d ∈ ds, d < 10) :
    digitsValue (ds.reverse.map fun d => UInt8.ofNat (48 + d)) = Nat.ofDigits 10 ds := by
  induction ds with
  | nil => rfl
  | cons d ds ih =>
      have hd : d < 10 := h d List.mem_cons_self
      have ih := ih fun d' hd' => h d' (List.mem_cons_of_mem d hd')
      unfold digitsValue at ih ⊢
      rw [List.reverse_cons, List.map_append, List.foldl_append, ih, Nat.ofDigits_cons]
      simp only [List.map_cons, List.map_nil, List.foldl_cons, List.foldl_nil, toNat_digit hd]
      omega

/-- The digits of a number have the value of the number. -/
theorem digitsValue_decimal (n : ℕ) : digitsValue (decimal n) = n := by
  unfold decimal
  split
  · next h =>
      subst h
      rfl
  · rw [digitsValue_reverse fun d hd => Nat.digits_lt_base (by decide) hd, Nat.ofDigits_digits]

/-- Zeros in front do not change the value. -/
theorem digitsValue_zeroPadded (width n : ℕ) : digitsValue (zeroPadded width n) = n := by
  have hzeros : ∀ k, (List.replicate k (48 : UInt8)).foldl
      (fun v d => 10 * v + (d.toNat - 48)) 0 = 0 := by
    intro k
    induction k with
    | zero => rfl
    | succ k ih =>
        rw [List.replicate_succ, List.foldl_cons]
        exact ih
  rw [zeroPadded, digitsValue, List.foldl_append, hzeros]
  exact digitsValue_decimal n

/-- Different processes have different numbers when they are written out. -/
theorem formatPid_injective : Function.Injective formatPid := by
  intro pid pid' h
  have hlt := pid.toNat_lt
  have hlt' := pid'.toNat_lt
  have hsign : ∀ {width n s}, zeroPadded width n ≠ 45 :: s := by
    intro width n s h
    have := digit_of_mem_zeroPadded  (by rw [h]; exact .head s)
    exact absurd this (by decide)
  simp only [formatPid] at h
  split_ifs at h with hp hp' hp'
  · have := congrArg digitsValue h
    rw [digitsValue_zeroPadded, digitsValue_zeroPadded] at this
    exact UInt32.toNat_inj.mp this
  · exact absurd h hsign
  · exact absurd h.symm hsign
  · have := congrArg digitsValue (List.cons.inj h).2
    rw [digitsValue_zeroPadded, digitsValue_zeroPadded] at this
    exact UInt32.toNat_inj.mp (by omega)

/-- **The names of two users' FIFOs are different.** -/
theorem getUserFifoPath_injective : Function.Injective getUserFifoPath := fun _ _ h =>
  formatPid_injective (List.append_cancel_left h)

/-! ## The two arrays -/

/-- `WIDTH_ID`. -/
def widthId : ℕ := 5

/-- `USER_FIFO_PATH_LEN`: `sizeof` counts the NUL of the prefix. -/
def userFifoPathLen : ℕ := (userFifoPathPrefix.length + 1) + widthId + 1

/-- `getUserFifoPath` in memory: the arrays `userFifoPath`, which it returns, and `userPID`. They lie where
memory has held anything. -/
def getUserFifoPathIn (heap stack : Bytes) (pid : UInt32) : Buffer × Buffer :=
  let userFifoPath := Buffer.fresh heap
  let userPID := Buffer.fresh stack
  -- sprintf(userPID, "%05d", pid)
  let userPID := userPID.strcpy (formatPid pid)
  let userFifoPath := userFifoPath.strcpy userFifoPathPrefix
  let userFifoPath := userFifoPath.strcat userPID.string
  (userFifoPath, userPID)

/-- A number that Linux gives to a process. -/
def Assignable (pid : UInt32) : Prop := 1 ≤ pid.toNat ∧ pid.toNat ≤ 4194303

/-- The name made from a process number stays within the two arrays, is the same for whoever computes it,
and is no other process's. -/
structure NameIsSafe (pid : UInt32) : Prop where
  userPID : ∀ heap stack, (getUserFifoPathIn heap stack pid).2.reach ≤ widthId + 1
  userFifoPath : ∀ heap stack, (getUserFifoPathIn heap stack pid).1.reach ≤ userFifoPathLen + 1
  same : ∀ heap stack heap' stack', (getUserFifoPathIn heap stack pid).1.string =
    (getUserFifoPathIn heap' stack' pid).1.string
  unique : ∀ pid', Assignable pid' → pid' ≠ pid → ∀ heap stack heap' stack',
    (getUserFifoPathIn heap stack pid).1.string ≠ (getUserFifoPathIn heap' stack' pid').1.string

/-- A number below a power of ten has at most that many digits. -/
theorem length_decimal_le {n k : ℕ} (hk : 0 < k) : (decimal n).length ≤ k ↔ n < 10 ^ k := by
  unfold decimal
  split
  · next h =>
      subst h
      simp
      omega
  · rw [List.length_map, List.length_reverse, Nat.digits_length_le_iff (by decide)]

@[simp] theorem length_zeroPadded (width n : ℕ) : (zeroPadded width n).length = max width (decimal n).length := by
  simp only [zeroPadded, List.length_append, List.length_replicate]
  omega

theorem zero_notMem_formatPid (pid : UInt32) : 0 ∉ formatPid pid := by
  have hdigits : ∀ {width n}, 0 ∉ zeroPadded width n := by
    intro width n h
    have hdigit := digit_of_mem_zeroPadded h
    simp at hdigit
  unfold formatPid
  split
  · exact hdigits
  · simp [hdigits]

section

variable (heap stack : Bytes) (pid : UInt32)

/-- The string that is returned does not depend on the memory. -/
theorem string_getUserFifoPathIn : (getUserFifoPathIn heap stack pid).1.string = getUserFifoPath pid := by
  have hzero := zero_notMem_formatPid pid
  have hprefix : 0 ∉ userFifoPathPrefix := by simp [userFifoPathPrefix]
  simp only [getUserFifoPathIn]
  rw [Buffer.string_strcpy _ hzero, Buffer.string_strcat _ hzero, Buffer.string_strcpy _ hprefix, getUserFifoPath]

theorem reach_userPID : (getUserFifoPathIn heap stack pid).2.reach = (formatPid pid).length + 1 := by
  simp [getUserFifoPathIn]

theorem reach_userFifoPath :
    (getUserFifoPathIn heap stack pid).1.reach = userFifoPathPrefix.length + (formatPid pid).length + 1 := by
  have hprefix : 0 ∉ userFifoPathPrefix := by simp [userFifoPathPrefix]
  simp only [getUserFifoPathIn]
  rw [Buffer.string_strcpy _ (zero_notMem_formatPid pid), Buffer.reach_strcat, Buffer.reach_strcpy,
    Buffer.string_strcpy _ hprefix, Buffer.reach_fresh]
  omega

end

/-- The width of the format is a minimum: it is the length for numbers of at most so many digits. -/
theorem length_formatPid_le {pid : UInt32} (h : Assignable pid) {k : ℕ} (hk : widthId ≤ k) :
    (formatPid pid).length ≤ k ↔ pid.toNat < 10 ^ k := by
  have hpositive : pid.toNat < 2 ^ 31 := by
    have := h.2
    omega
  have hlt : 0 < k := Nat.lt_of_lt_of_le (by decide) hk
  rw [formatPid, if_pos hpositive, length_zeroPadded, ← length_decimal_le hlt]
  unfold widthId at hk
  omega

/-- The longer array is large enough for every process. -/
theorem reach_userFifoPath_le {pid : UInt32} (h : Assignable pid) (heap stack : Bytes) :
    (getUserFifoPathIn heap stack pid).1.reach ≤ userFifoPathLen + 1 := by
  have hdigits : (formatPid pid).length ≤ 7 := by
    rw [length_formatPid_le h (by decide)]
    have := h.2
    omega
  have hprefix : userFifoPathPrefix.length = 12 := rfl
  rw [reach_userFifoPath, userFifoPathLen, widthId, hprefix]
  omega

/-- **The name of a FIFO is safe exactly for process numbers of at most five digits.** -/
theorem userFifoName_iff (pid : UInt32) (h : Assignable pid) : NameIsSafe pid ↔ pid.toNat ≤ 99999 := by
  have hfive : (formatPid pid).length ≤ widthId ↔ pid.toNat ≤ 99999 := by
    rw [length_formatPid_le h le_rfl, widthId]
    omega
  constructor
  · intro hsafe
    have huserPID := hsafe.userPID [] []
    rw [reach_userPID] at huserPID
    exact hfive.mp (by omega)
  · intro hpid
    refine ⟨fun heap stack => ?_, reach_userFifoPath_le h, fun heap stack heap' stack' => ?_,
      fun pid' _ hne heap stack heap' stack' heq => hne ?_⟩
    · rw [reach_userPID]
      exact Nat.succ_le_succ (hfive.mpr hpid)
    · rw [string_getUserFifoPathIn, string_getUserFifoPathIn]
    · rw [string_getUserFifoPathIn, string_getUserFifoPathIn] at heq
      exact getUserFifoPath_injective heq.symm

/-- Five digits fit. -/
theorem userFifoName_iff_fiveDigits : NameIsSafe 99999 :=
  (userFifoName_iff 99999 ⟨by decide, by decide⟩).mpr (by decide)

/-- The six digits of 100000 and the NUL are seven bytes in an array of six. -/
theorem not_nameIsSafe_sixDigits : Assignable 100000 ∧ ¬ NameIsSafe 100000 := by
  refine ⟨⟨by decide, by decide⟩, fun hsafe => ?_⟩
  have huserPID := hsafe.userPID [] []
  rw [reach_userPID] at huserPID
  exact absurd huserPID (by decide)

end Sope
