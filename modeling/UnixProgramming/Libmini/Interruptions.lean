import UnixProgramming.Libmini.Sleep

/-!
# Sleeping on after a signal

`sleep` returns the whole seconds that remained when a signal cut it short, and a caller that
still has to wait calls it again with these.  What is left of a second is dropped at each
signal; nothing else of the time is lost.  The kernel is left open: it can wake the process
late, and the handler of the signal runs before the call returns.

* `KeepsTime` — what is asked of the kernel and its clock.
* `Sleeps`, `Sleeps.outcome` — one call of the assembly, and what can come of it.
* `SleepsOn` — a number of calls, each with what the call before returned.
* `SleepsOn.add`, `sleepsOn_lasts` — every second that is gone from what is left has passed, save
  for less than a second at each of the calls.
-/

namespace Libmini

open ByteMemory X86 Requests

/-! ## The clock -/

/-- The nanoseconds of a second. -/
def second : Nat := 1000000000

/-- How a request of `sec` seconds is answered: it was slept through, or a signal ended it
(`EINTR`) and the time that remained was stored.  That is fixed when the signal comes; the call
returns later. -/
inductive Woken (now : Nat) (sec : Word) (x : Slept) (now' : Nat) : Prop where
  | slept (ret : x.ret = 0) (lasted : now + sec.toNat * second ≤ now')
  | cut {rem : Word} {nsec : Word} (ret : x.ret = -4) (stored : x.rem = some (rem, nsec))
      (whole : rem.toNat ≤ sec.toNat) (part : nsec.toNat < second)
      (lasted : now + sec.toNat * second ≤ now' + rem.toNat * second + nsec.toNat)

/-- What is asked of the kernel, `now` being the time by its clock. -/
structure KeepsTime {W : Type} (K : Kernel Nanosleep (fun _ => Slept) W) (now : W → Nat) :
    Prop where
  forward : ∀ w req x w', K w req x w' → now w ≤ now w'
  woken : ∀ w sec x w', K w ⟨sec, 0⟩ x w' → Woken (now w) sec x (now w')

section Calls

variable {W : Type} (K : Kernel Nanosleep (fun _ => Slept) W) (now : W → Nat)

/-- `sleep(n)` returns `left`. -/
def Sleeps (n : BitVec 32) (w : W) (left : BitVec 32) (w' : W) : Prop :=
  ∃ link s r, s.cpu.regs .rdi = n.setWidth 64 ∧
    Runs K (runLines sleepCalls none (sleep link) s) w (.done r) w' ∧ eax r.2.cpu = left

/-- `k` calls of `sleep`, the first with `n` and each other one, some time later, with what was
returned before it; the last returns `left`. -/
def SleepsOn : Nat → BitVec 32 → W → BitVec 32 → W → Prop
  | 0, n, w, left, w' => left = n ∧ now w ≤ now w'
  | k + 1, n, w, left, w' => ∃ mid w₁ w₂, Sleeps K n w mid w₁ ∧ now w₁ ≤ now w₂ ∧
      SleepsOn k mid w₂ left w'

end Calls

section Sleeps

variable {W : Type} {K : Kernel Nanosleep (fun _ => Slept) W} {now : W → Nat}
  {n left : BitVec 32} {w w' : W} {k : Nat}

/-! ## One call -/

theorem toNat_setWidth_word (v : BitVec 32) : (v.setWidth 64).toNat = v.toNat := by
  rw [BitVec.toNat_setWidth]
  exact Nat.mod_eq_of_lt (v.isLt.trans (by norm_num))

/-- A call ends as its request is answered. -/
theorem runs_sleep (link : Word) {s : State} (hrdi : s.cpu.regs .rdi = n.setWidth 64) :
    (∃ r, Runs K (runLines sleepCalls none (sleep link) s) w (.done r) w' ∧
        eax r.2.cpu = left) ↔
      ∃ x, K w ⟨n.setWidth 64, 0⟩ x w' ∧
        (sleepValue x.ret (x.rem.getD (remBefore s)).1).setWidth 32 = left := by
  rw [runLines_sleep, hrdi]
  constructor
  · rintro ⟨r, ⟨x, w₁, hx, hrest⟩, hleft⟩
    obtain ⟨u, hu, -, hrax⟩ := runLines_afterCall link s x
    simp only [hu, runs_done, Result.done.injEq] at hrest
    obtain ⟨rfl, rfl⟩ := hrest
    exact ⟨x, hx, by rw [← hrax, ← hleft, eax]⟩
  · rintro ⟨x, hx, hleft⟩
    obtain ⟨u, hu, -, hrax⟩ := runLines_afterCall link s x
    refine ⟨u, ⟨x, w', hx, ?_⟩, by rw [eax, hrax, hleft]⟩
    simp only [hu, runs_done, and_self]

/-- What can come of a call: the time is over, or no more seconds are left than there were, and
of the time that remains less than a second is not told. -/
theorem Sleeps.outcome (hK : KeepsTime K now) (h : Sleeps K n w left w') :
    (left = 0 ∧ now w + n.toNat * second ≤ now w') ∨
      left.toNat ≤ n.toNat ∧ now w ≤ now w' ∧ ∃ nsec < second,
        now w + n.toNat * second ≤ now w' + left.toNat * second + nsec := by
  obtain ⟨link, s, r, hrdi, hrun, hleft⟩ := h
  obtain ⟨x, hx, rfl⟩ := (runs_sleep link hrdi).1 ⟨r, hrun, hleft⟩
  have hforward := hK.forward _ _ _ _ hx
  cases hK.woken _ _ _ _ hx with
  | slept hret hslept =>
      rw [toNat_setWidth_word] at hslept
      rw [hret]
      exact Or.inl ⟨rfl, hslept⟩
  | @cut rem nsec hret hstored hwhole hpart hslept =>
      rw [toNat_setWidth_word] at hwhole hslept
      have hvalue : sleepValue x.ret (x.rem.getD (remBefore s)).1 = rem := by
        rw [hret, hstored]
        rfl
      have hrem : (rem.setWidth 32).toNat = rem.toNat := by
        rw [BitVec.toNat_setWidth]
        exact Nat.mod_eq_of_lt (hwhole.trans_lt n.isLt)
      rw [hvalue, hrem]
      exact Or.inr ⟨hwhole, hforward, nsec.toNat, hpart, hslept⟩

/-! ## One call after the other -/

/-- One more call: of the seconds it takes off, less than one is dropped, and none where it
takes off none. -/
theorem Sleeps.add {mid : BitVec 32} {w₁ w₂ : W} (hK : KeepsTime K now)
    (hcall : Sleeps K n w mid w₁) (hlater : now w₁ ≤ now w₂) {gone : Nat}
    (hmid : mid.toNat = left.toNat + gone)
    (hrest : now w₂ + gone * second ≤ now w' + min k gone * (second - 1)) :
    ∃ off, n.toNat = left.toNat + off ∧
      now w + off * second ≤ now w' + min (k + 1) off * (second - 1) := by
  rcases hcall.outcome hK with ⟨rfl, hslept⟩ | ⟨hle, hforward, nsec, hpart, hslept⟩
  · -- the call was over: nothing is left, and what follows only takes time
    have hzero : 0 = left.toNat + gone := hmid
    obtain rfl : gone = 0 := (Nat.eq_zero_of_add_eq_zero hzero.symm).2
    rw [Nat.min_zero, Nat.zero_mul, Nat.zero_mul] at hrest
    refine ⟨n.toNat, by omega, ?_⟩
    omega
  · -- a signal ended it
    obtain ⟨off, hoff⟩ := Nat.exists_eq_add_of_le hle
    refine ⟨off + gone, by omega, ?_⟩
    rw [hoff, Nat.add_mul] at hslept
    rw [Nat.add_mul]
    rcases Nat.eq_zero_or_pos off with rfl | hpos
    · have hmono : min k gone * (second - 1) ≤ min (k + 1) (0 + gone) * (second - 1) :=
        Nat.mul_le_mul_right _ (by omega)
      omega
    · have hmono : (min k gone + 1) * (second - 1) ≤ min (k + 1) (off + gone) * (second - 1) :=
        Nat.mul_le_mul_right _ (by omega)
      rw [Nat.succ_mul] at hmono
      omega

/-- **Sleeping on after signals.**  `sleep` is called with `n` seconds and then again with what
it returned, `k` times in all, signals ending any of the calls at any time.  Then as many seconds
have passed as are gone from what is left, but for less than one at each call and at most one
call for each of them. -/
theorem sleepsOn_lasts (hK : KeepsTime K now) (h : SleepsOn K now k n w left w') :
    ∃ gone, n.toNat = left.toNat + gone ∧
      now w + gone * second ≤ now w' + min k gone * (second - 1) := by
  induction k generalizing n w with
  | zero =>
      obtain ⟨rfl, hforward⟩ := h
      exact ⟨0, rfl, by simpa using hforward⟩
  | succ k ih =>
      obtain ⟨mid, w₁, w₂, hcall, hlater, hrest⟩ := h
      obtain ⟨gone, hmid, hgone⟩ := ih hrest
      exact hcall.add hK hlater hmid hgone

end Sleeps

/-! ## A sample -/

namespace Sample

/-- A kernel whose world is the time: a signal comes at two seconds and its handler runs for
one; all that is asked later is slept through. -/
def alarmClock : Kernel Nanosleep (fun _ => Slept) Nat := fun t req x t' =>
  if t = 0 ∧ req = ⟨5, 0⟩ then x = ⟨-4, some (3, 0), 0, 0⟩ ∧ t' = 3 * second
  else x = ⟨0, none, 0, 0⟩ ∧ t' = t + req.sec.toNat * second

theorem keepsTime_alarmClock : KeepsTime alarmClock id where
  forward := by
    intro t req x t' h
    unfold alarmClock at h
    split at h
    · next hfirst =>
        obtain ⟨rfl, -⟩ := hfirst
        exact Nat.zero_le _
    · obtain ⟨-, rfl⟩ := h
      rw [id_eq, id_eq]
      exact Nat.le_add_right t _
  woken := by
    intro t sec x t' h
    unfold alarmClock at h
    split at h
    · next hfirst =>
        obtain ⟨rfl, hreq⟩ := hfirst
        obtain ⟨rfl, -⟩ := Nanosleep.mk.inj hreq
        obtain ⟨rfl, rfl⟩ := h
        have hasked : (5 : Word).toNat = 5 := rfl
        have hrem : (3 : Word).toNat = 3 := rfl
        have hpart : (0 : Word).toNat = 0 := rfl
        refine .cut rfl rfl (by decide) (by rw [hpart]; norm_num [second]) ?_
        rw [hasked, hrem, hpart, id_eq, id_eq]
        omega
    · obtain ⟨rfl, rfl⟩ := h
      refine .slept rfl ?_
      rw [id_eq, id_eq]

/-- A call is one answer of the kernel. -/
theorem sleeps_alarmClock {n left : BitVec 32} {t t' : Nat} (x : Slept)
    (hx : alarmClock t ⟨n.setWidth 64, 0⟩ x t')
    (hleft : ∀ rem, (sleepValue x.ret (x.rem.getD rem).1).setWidth 32 = left) :
    Sleeps alarmClock n t left t' := by
  obtain ⟨r, hrun, hr⟩ := (runs_sleep 0
    (s := ⟨⟨fun _ => n.setWidth 64, fun _ => 0⟩, ⟨false, false⟩⟩) rfl).2 ⟨x, hx, hleft _⟩
  exact ⟨0, _, r, rfl, hrun, hr⟩

/-- Asked for five seconds: three are left after three, and then these are slept. -/
theorem sleepsOn_alarmClock : SleepsOn alarmClock id 2 5 0 0 (6 * second) := by
  have hfirst : alarmClock 0 ⟨5, 0⟩ ⟨-4, some (3, 0), 0, 0⟩ (3 * second) := by
    rw [alarmClock, if_pos ⟨rfl, rfl⟩]
    exact ⟨rfl, rfl⟩
  have hsecond : alarmClock (3 * second) ⟨3, 0⟩ ⟨0, none, 0, 0⟩ (6 * second) := by
    have hthree : ((3 : Word)).toNat = 3 := rfl
    rw [alarmClock, if_neg fun h => absurd h.1 (by norm_num [second]), hthree, ← Nat.add_mul]
    exact ⟨rfl, rfl⟩
  refine ⟨3, 3 * second, 3 * second, ?_, le_rfl, 0, 6 * second, 6 * second, ?_, le_rfl, rfl, le_rfl⟩
  · exact sleeps_alarmClock ⟨-4, some (3, 0), 0, 0⟩ hfirst fun _ => rfl
  · exact sleeps_alarmClock ⟨0, none, 0, 0⟩ hsecond fun _ => rfl

end Sample

/-- Of those five seconds none is left after six. -/
theorem sleepsOn_lasts_alarmClock :
    ∃ gone, (5 : BitVec 32).toNat = (0 : BitVec 32).toNat + gone ∧
      0 + gone * second ≤ 6 * second + min 2 gone * (second - 1) :=
  sleepsOn_lasts Sample.keepsTime_alarmClock Sample.sleepsOn_alarmClock

end Libmini
