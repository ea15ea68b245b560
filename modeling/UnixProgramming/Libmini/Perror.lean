import UnixProgramming.Libmini.SignalMask
import UnixProgramming.Machine.Traces
import UnixProgramming.Text.CString

/-!
# `perror`

The message is that of the `errno` there was on entry, which `perror` keeps in
`backup`; whether there is a message is asked of `errno` itself, which the
writes in between have changed.

* `write`, `errmsg`, `perror` — the calls and the table.
* `report` — what is to be written.
* `writes_writeMessage_iff` — when the writes after the prefix are right.
* `perror_reports_iff` — they are the right ones exactly when there is no prefix,
  or `errno` after it is in the range of the table if it was before.
-/

namespace Libmini

open CString Requests

/-! ## The code -/

/-- A `write` system call: the descriptor and the characters. -/
structure Write where
  fd : Nat
  text : Str
  deriving DecidableEq

/-- A read of `errmsg` outside its entries. -/
inductive Stray where
  | errmsg (index : Int)
  deriving DecidableEq

/-- Code that writes; the answer is what the system call returns. -/
abbrev Writing := Prog Write (fun _ => Int) Stray

/-- `write(fd, buf, count)`. -/
def write (fd : Nat) (buf : Str) (count : Nat) (p : Process) : Writing (Int × Process) := do
  let ret ← Prog.ask ⟨fd, buf.take count⟩
  return wrapperRetval ret p

/-- `strlen`; a string stands for its characters before the NUL. -/
def strlen (s : Str) : Nat := s.length

/-- `PERRMSG_MIN`. -/
def perrmsgMin : Int := 0

/-- `PERRMSG_MAX`. -/
def perrmsgMax : Int := 34

/-- The messages. -/
def errmsg : List Str :=
  ["Success".toList,
    "Operation not permitted".toList,
    "No such file or directory".toList,
    "No such process".toList,
    "Interrupted system call".toList,
    "I/O error".toList,
    "No such device or address".toList,
    "Argument list too long".toList,
    "Exec format error".toList,
    "Bad file number".toList,
    "No child processes".toList,
    "Try again".toList,
    "Out of memory".toList,
    "Permission denied".toList,
    "Bad address".toList,
    "Block device required".toList,
    "Device or resource busy".toList,
    "File exists".toList,
    "Cross-device link".toList,
    "No such device".toList,
    "Not a directory".toList,
    "Is a directory".toList,
    "Invalid argument".toList,
    "File table overflow".toList,
    "Too many open files".toList,
    "Not a typewriter".toList,
    "Text file busy".toList,
    "File too large".toList,
    "No space left on device".toList,
    "Illegal seek".toList,
    "Read-only file system".toList,
    "Too many links".toList,
    "Broken pipe".toList,
    "Math argument out of domain of func".toList,
    "Math result not representable".toList]

/-- `"Unknown"`. -/
def unknown : Str := "Unknown".toList

/-- `": "`. -/
def colon : Str := ": ".toList

/-- `"\n"`. -/
def newline : Str := "\n".toList

/-- `errmsg[index]`. -/
def errmsgAt (index : Int) : Writing Str :=
  if index < 0 then .fault (.errmsg index)
  else
    match errmsg[index.toNat]? with
    | some s => .done s
    | none => .fault (.errmsg index)

/-- The prefix and the colon, if there is a prefix. -/
def writePrefix (pre : Option Str) (p : Process) : Writing Process :=
  match pre with
  | some pre => do
      let (_, p) ← write 2 pre (strlen pre) p
      let (_, p) ← write 2 colon 2 p
      return p
  | none => return p

/-- The test of `errno`, and the writes after it. -/
def writeMessage (backup : Int) (p : Process) : Writing Process := do
  let (_, p) ←
    if p.errno < perrmsgMin ∨ p.errno > perrmsgMax then write 2 unknown (strlen unknown) p
    else do
      let s ← errmsgAt backup
      write 2 s (strlen s) p
  let (_, p) ← write 2 newline 1 p
  return p

/-- `perror(prefix)`. -/
def perror (pre : Option Str) (p : Process) : Writing Process := do
  let backup := p.errno
  let p ← writePrefix pre p
  writeMessage backup p

/-! ## What is to be written -/

/-- `errno` has a message. -/
def InRange (e : Int) : Prop := 0 ≤ e ∧ e ≤ 34

instance (e : Int) : Decidable (InRange e) := inferInstanceAs (Decidable (_ ∧ _))

/-- The message of an error. -/
def message (e : Int) : Str := if InRange e then errmsg.getD e.toNat [] else unknown

/-- The writes that report the error `e`. -/
def report (pre : Option Str) (e : Int) : List Write :=
  (match pre with
    | some pre => [⟨2, pre⟩, ⟨2, colon⟩]
    | none => []) ++ [⟨2, message e⟩, ⟨2, newline⟩]

/-- The system calls answer what `rets` says, one after another. -/
def answering (rets : Nat → Int) (_ : Write) (n : Nat) : Int × Nat := (rets n, n + 1)

/-- The writes of a run, the first being answered by `rets n`, and how it ends. -/
def writes (rets : Nat → Int) (n : Nat) (c : Writing Process) : List Write × Result Stray Process :=
  let run := c.eval (answering rets) n
  (run.1.map Event.request, run.2.1)

/-- A run ends, and has written `texts`. -/
def Writes (rets : Nat → Int) (n : Nat) (c : Writing Process) (texts : List Write) : Prop :=
  (writes rets n c).1 = texts ∧ ∃ q, (writes rets n c).2 = .done q

/-- `perror` ends, and has written what reports the `errno` it was called with. -/
def Reports (rets : Nat → Int) (pre : Option Str) (p : Process) : Prop :=
  Writes rets 0 (perror pre p) (report pre p.errno)

/-! ## The writes -/

theorem length_errmsg : errmsg.length = 35 := rfl

/-- No error is unknown that has a message. -/
theorem unknown_notMem_errmsg : unknown ∉ errmsg := by decide +kernel

theorem errmsgAt_of_inRange {e : Int} (h : InRange e) : errmsgAt e = .done (message e) := by
  obtain ⟨h0, h34⟩ := h
  have hlt : e.toNat < errmsg.length := by
    rw [length_errmsg]
    omega
  rw [errmsgAt, if_neg (by omega), List.getElem?_eq_getElem hlt, message, if_pos ⟨h0, h34⟩,
    List.getD_eq_getElem _ _ hlt]

theorem errmsgAt_of_not_inRange {e : Int} (h : ¬ InRange e) :
    errmsgAt e = .fault (.errmsg e) := by
  rw [errmsgAt]
  by_cases hneg : e < 0
  · rw [if_pos hneg]
  · have hge : errmsg.length ≤ e.toNat := by
      rw [length_errmsg]
      rw [InRange, not_and] at h
      omega
    rw [if_neg hneg, List.getElem?_eq_none hge]

theorem message_ne_unknown {e : Int} (h : InRange e) : message e ≠ unknown := by
  intro heq
  have hlt : e.toNat < errmsg.length := by
    rw [length_errmsg]
    have := h.2
    omega
  rw [message, if_pos h, List.getD_eq_getElem _ _ hlt] at heq
  exact unknown_notMem_errmsg (heq ▸ List.getElem_mem hlt)

variable {rets : Nat → Int} {n : Nat}

/-- A call of `write` is one write, and `errno` says what came of it. -/
theorem writes_write {fd count : Nat} {buf : Str} {p : Process} {w : Write} {texts : List Write}
    {c : Int × Process → Writing Process} :
    Writes rets n (write fd buf count p >>= c) (w :: texts) ↔
      ⟨fd, buf.take count⟩ = w ∧ Writes rets (n + 1) (c (wrapperRetval (rets n) p)) texts := by
  have hwrites : writes rets n (write fd buf count p >>= c) =
      (⟨fd, buf.take count⟩ :: (writes rets (n + 1) (c (wrapperRetval (rets n) p))).1,
        (writes rets (n + 1) (c (wrapperRetval (rets n) p))).2) := rfl
  rw [Writes, Writes, hwrites, List.cons.injEq, and_assoc]

theorem writes_done (p : Process) : Writes rets n (.done p) [] := ⟨rfl, p, rfl⟩

theorem not_writes_fault {e : Stray} {texts : List Write} : ¬ Writes rets n (.fault e) texts := by
  rintro ⟨-, q, hq⟩
  cases hq

/-- What follows the prefix is right exactly when `errno` and the `errno` there was
on entry are both in the range or both out of it. -/
theorem writes_writeMessage_iff {backup : Int} {p : Process} :
    Writes rets n (writeMessage backup p) [⟨2, message backup⟩, ⟨2, newline⟩] ↔
      (InRange backup ↔ InRange p.errno) := by
  have htail : ∀ q : Process, Writes rets (n + 1)
      (write 2 newline 1 q >>= fun r => Prog.done r.2) [⟨2, newline⟩] := fun q =>
    writes_write.2 ⟨rfl, writes_done _⟩
  by_cases he : InRange p.errno
  · have htest : ¬ (p.errno < perrmsgMin ∨ p.errno > perrmsgMax) := by
      obtain ⟨h0, h34⟩ := he
      simp only [perrmsgMin, perrmsgMax]
      omega
    rw [writeMessage, if_neg htest]
    by_cases hbackup : InRange backup
    · rw [errmsgAt_of_inRange hbackup]
      refine iff_of_true (writes_write.2 ⟨?_, htail _⟩) (iff_of_true hbackup he)
      rw [strlen, List.take_length]
    · rw [errmsgAt_of_not_inRange hbackup]
      refine iff_of_false not_writes_fault fun h => hbackup (h.2 he)
  · have htest : p.errno < perrmsgMin ∨ p.errno > perrmsgMax := by
      rw [InRange] at he
      simp only [perrmsgMin, perrmsgMax]
      omega
    rw [writeMessage, if_pos htest]
    have hunknown : unknown.take (strlen unknown) = unknown := List.take_length
    by_cases hbackup : InRange backup
    · refine iff_of_false (fun h => ?_) fun h => he (h.1 hbackup)
      have htext := (writes_write.1 h).1
      rw [hunknown] at htext
      exact message_ne_unknown hbackup (Write.mk.inj htext).2.symm
    · refine iff_of_true (writes_write.2 ⟨?_, htail _⟩) (iff_of_false hbackup he)
      rw [hunknown, message, if_neg hbackup]

/-- After a `write` the errno is in the range unless the call failed with more. -/
theorem inRange_errno_write {ret : Int} {p : Process} :
    InRange (wrapperRetval ret p).2.errno ↔ -34 ≤ ret := by
  rw [wrapperRetval, InRange]
  split <;> simp <;> omega

/-- The process after the two writes of a prefix. -/
def afterPrefix (rets : Nat → Int) (p : Process) : Process :=
  (wrapperRetval (rets 1) (wrapperRetval (rets 0) p).2).2

theorem writes_writePrefix {pre : Str} {p : Process} {texts : List Write}
    {c : Process → Writing Process} :
    Writes rets 0 (writePrefix (some pre) p >>= c) (⟨2, pre⟩ :: ⟨2, colon⟩ :: texts) ↔
      Writes rets 2 (c (afterPrefix rets p)) texts := by
  have htwo : writePrefix (some pre) p >>= c = write 2 pre (strlen pre) p >>= fun r =>
      write 2 colon 2 r.2 >>= fun r => c r.2 := rfl
  have hpre : pre.take (strlen pre) = pre := List.take_length
  have hcolon : colon.take 2 = colon := rfl
  rw [htwo, writes_write, writes_write, hpre, hcolon]
  simp [afterPrefix]

/-- `perror` reports the `errno` it was called with, and reads no message that is
not there, exactly when there is no prefix, or the `errno` of the second write is
in the range of the messages if and only if that on entry is. -/
theorem perror_reports_iff (rets : Nat → Int) (pre : Option Str) (p : Process) :
    Reports rets pre p ↔ pre = none ∨ (InRange p.errno ↔ -34 ≤ rets 1) := by
  cases pre with
  | none => exact iff_of_true (writes_writeMessage_iff.2 Iff.rfl) (Or.inl rfl)
  | some pre =>
      have hsplit : Reports rets (some pre) p ↔
          Writes rets 2 (writeMessage p.errno (afterPrefix rets p))
            [⟨2, message p.errno⟩, ⟨2, newline⟩] := writes_writePrefix
      rw [hsplit, writes_writeMessage_iff, afterPrefix, inRange_errno_write]
      simp

/-- `errno` is `ENOSYS`, and both writes of the prefix succeed: the message read
is the 39th of 35. -/
theorem perror_strays :
    ¬ Reports (fun _ => 1) (some "sleep".toList) { Sample.unblocked with errno := 38 } := by
  rintro ⟨-, q, hq⟩
  cases hq

end Libmini
