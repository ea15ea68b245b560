import UnixProgramming.Sdb.Command

/-!
# The system under the debugger

What the debugger's system calls do: the kernel keeps a tracee and answers
requests about it while it is stopped.  What the code does not decide is left to
an `Env`: which requests may be refused, how a process starts, what a tracee
that is let run may do before the next stop, and what files hold.

* `kernel` — the answers and effects of every request.
* `Reachable` — a line of input after another, from the debugger's
  start, under a condition on the lines.
-/

namespace Sdb

open ByteMemory CString Requests

/-- The registers and the memory of a tracee. -/
structure Tracee where
  regs : UserRegs
  mem : Memory

/-- How a tracee was let run. -/
inductive Resume where
  | singlestep
  | cont
  deriving DecidableEq

/-- The child of the debugger, as the kernel sees it. -/
inductive Child where
  /-- There is none, or it has terminated and has been waited for. -/
  | absent
  /-- It has been forked and its first status has not been waited for. -/
  | starting (pid : Int)
  /-- It is traced and stopped. -/
  | stopped (pid : Int) (t : Tracee)
  /-- It was let run and its next status has not been waited for. -/
  | resumed (pid : Int) (how : Resume) (t : Tracee)

/-- The world of one debugger process. -/
structure World where
  /-- This process was forked by a debugger. -/
  forked : Bool
  child : Child

/-- What the code does not decide. -/
structure Env where
  /-- May this request fail? -/
  mayFail : Req → Prop
  /-- What a started process may look like at its first stop. -/
  boots : Tracee → Prop
  /-- What a tracee let run may have done by its next status, and that status. -/
  stops : Resume → Tracee → WaitStatus → Tracee → Prop
  /-- The first status of a child that does not stop. -/
  startEnds : WaitStatus → Prop
  /-- What a file may hold; `none` when it cannot be opened. -/
  file : Str → Option (List Byte) → Prop

/-- A request about a child that is stopped under this number. -/
def Child.at (c : Child) (pid : Int) (P : Tracee → Prop) : Prop :=
  match c with
  | .stopped p t => p = pid ∧ P t
  | _ => False

theorem Child.at_iff {c : Child} {pid : Int} {P : Tracee → Prop} :
    c.at pid P ↔ ∃ t, c = .stopped pid t ∧ P t := by
  cases c with
  | stopped p t =>
      constructor
      · rintro ⟨rfl, h⟩
        exact ⟨t, rfl, h⟩
      · rintro ⟨t', heq, h⟩
        cases heq
        exact ⟨rfl, h⟩
  | _ => simp [Child.at]

/-- What a status leaves of a child: it is stopped, or it is gone. -/
def Child.after (pid : Int) (t : Tracee) : WaitStatus → Child
  | .stopped _ => .stopped pid t
  | .exited _ => .absent
  | .signaled _ => .absent

/-- The request has no effect: the child is not stopped under this number, or
the request is refused. -/
def Refused (env : Env) (w : World) (pid : Int) (r : Req) (w' : World) : Prop :=
  (env.mayFail r ∨ ¬ w.child.at pid fun _ => True) ∧ w' = w

/-- What `waitpid` answers.  A child that is stopped and has been waited for has
nothing to report, and the call does not return. -/
def waits (env : Env) (w : World) (pid : Int) (x : Option WaitStatus) (w' : World) : Prop :=
  match w.child with
  | .absent => x = none ∧ w' = w
  | .stopped _ _ => False
  | .starting p =>
      if p = pid then
        (∃ sig t, x = some (.stopped sig) ∧ env.boots t ∧ w' = { w with child := .stopped p t }) ∨
          ∃ st, x = some st ∧ (∀ sig, st ≠ .stopped sig) ∧ env.startEnds st ∧
            w' = { w with child := .absent }
      else x = none ∧ w' = w
  | .resumed p how t =>
      if p = pid then
        ∃ st t', x = some st ∧ env.stops how t st t' ∧ w' = { w with child := .after p t' st }
      else x = none ∧ w' = w

/-- The answers and effects of the system calls. -/
def kernel (env : Env) : Kernel Req Ans World := fun w r =>
  match r with
  | .fork => fun x w' =>
      (x = -1 ∧ env.mayFail .fork ∧ w' = w) ∨ (x = 0 ∧ w' = ⟨true, .absent⟩) ∨
        (0 < x ∧ w' = { w with child := .starting x })
  | .traceme => fun x w' => (x = true ∨ env.mayFail .traceme) ∧ w' = w
  | .execvp path => fun _ w' => env.mayFail (.execvp path) ∧ w' = w
  | .waitpid pid => fun x w' => waits env w pid x w'
  | .setoptions _ => fun _ w' => w' = w
  | .peektext pid addr => fun x w' =>
      (w.child.at pid (fun t => x = readWord t.mem addr) ∧ w' = w) ∨
        (x = -1 ∧ Refused env w pid (.peektext pid addr) w')
  | .poketext pid addr data => fun x w' =>
      (x = true ∧ w.child.at pid fun t =>
        w' = { w with child := .stopped pid { t with mem := writeWord t.mem addr data } }) ∨
        (x = false ∧ Refused env w pid (.poketext pid addr data) w')
  | .singlestep pid => fun x w' =>
      (x = true ∧ w.child.at pid fun t => w' = { w with child := .resumed pid .singlestep t }) ∨
        (x = false ∧ Refused env w pid (.singlestep pid) w')
  | .cont pid => fun x w' =>
      (x = true ∧ w.child.at pid fun t => w' = { w with child := .resumed pid .cont t }) ∨
        (x = false ∧ Refused env w pid (.cont pid) w')
  | .getregs pid => fun x w' =>
      (w.child.at pid (fun t => x = some t.regs) ∧ w' = w) ∨
        (x = none ∧ Refused env w pid (.getregs pid) w')
  | .setregs pid regs => fun x w' =>
      (x = true ∧ w.child.at pid fun t =>
        w' = { w with child := .stopped pid { t with regs := regs } }) ∨
        (x = false ∧ Refused env w pid (.setregs pid regs) w')
  | .readFile path => fun x w' => env.file path x ∧ w' = w
  | .readMaps _ => fun _ w' => w' = w

/-! ## Requests about a stopped child -/

section Stopped

variable {env : Env} {f : Bool} {p : Int} {t : Tracee} {w' : World}

@[simp] theorem kernel_peektext {addr x : Word} :
    kernel env ⟨f, .stopped p t⟩ (.peektext p addr) x w' ↔
      (x = readWord t.mem addr ∧ w' = ⟨f, .stopped p t⟩) ∨
        (x = -1 ∧ env.mayFail (.peektext p addr) ∧ w' = ⟨f, .stopped p t⟩) := by
  simp [kernel, Child.at, Refused]

@[simp] theorem kernel_poketext {addr data : Word} {x : Bool} :
    kernel env ⟨f, .stopped p t⟩ (.poketext p addr data) x w' ↔
      (x = true ∧ w' = ⟨f, .stopped p { t with mem := writeWord t.mem addr data }⟩) ∨
        (x = false ∧ env.mayFail (.poketext p addr data) ∧ w' = ⟨f, .stopped p t⟩) := by
  simp [kernel, Child.at, Refused]

@[simp] theorem kernel_singlestep {x : Bool} :
    kernel env ⟨f, .stopped p t⟩ (.singlestep p) x w' ↔
      (x = true ∧ w' = ⟨f, .resumed p .singlestep t⟩) ∨
        (x = false ∧ env.mayFail (.singlestep p) ∧ w' = ⟨f, .stopped p t⟩) := by
  simp [kernel, Child.at, Refused]

@[simp] theorem kernel_cont {x : Bool} :
    kernel env ⟨f, .stopped p t⟩ (.cont p) x w' ↔
      (x = true ∧ w' = ⟨f, .resumed p .cont t⟩) ∨
        (x = false ∧ env.mayFail (.cont p) ∧ w' = ⟨f, .stopped p t⟩) := by
  simp [kernel, Child.at, Refused]

@[simp] theorem kernel_getregs {x : Option UserRegs} :
    kernel env ⟨f, .stopped p t⟩ (.getregs p) x w' ↔
      (x = some t.regs ∧ w' = ⟨f, .stopped p t⟩) ∨
        (x = none ∧ env.mayFail (.getregs p) ∧ w' = ⟨f, .stopped p t⟩) := by
  simp [kernel, Child.at, Refused]

@[simp] theorem kernel_setregs {regs : UserRegs} {x : Bool} :
    kernel env ⟨f, .stopped p t⟩ (.setregs p regs) x w' ↔
      (x = true ∧ w' = ⟨f, .stopped p { t with regs := regs }⟩) ∨
        (x = false ∧ env.mayFail (.setregs p regs) ∧ w' = ⟨f, .stopped p t⟩) := by
  simp [kernel, Child.at, Refused]

@[simp] theorem kernel_waitpid_resumed {how : Resume} {x : Option WaitStatus} :
    kernel env ⟨f, .resumed p how t⟩ (.waitpid p) x w' ↔
      ∃ st t', x = some st ∧ env.stops how t st t' ∧ w' = ⟨f, .after p t' st⟩ := by
  simp [kernel, waits]

@[simp] theorem kernel_waitpid_starting {x : Option WaitStatus} :
    kernel env ⟨f, .starting p⟩ (.waitpid p) x w' ↔
      (∃ sig t, x = some (.stopped sig) ∧ env.boots t ∧ w' = ⟨f, .stopped p t⟩) ∨
        ∃ st, x = some st ∧ (∀ sig, st ≠ .stopped sig) ∧ env.startEnds st ∧
          w' = ⟨f, .absent⟩ := by
  simp [kernel, waits]

end Stopped

/-! ## Sessions -/

/-- The states a debugger gets to from its start by one line of input after
another, as long as the condition `G` holds of each line when it is read. -/
inductive Reachable (cs : Capstone) (env : Env) (G : Str → Debugger → Prop) :
    Debugger → World → Prop where
  | init : Reachable cs env G .init ⟨false, .absent⟩
  | step {d d' : Debugger} {w w' : World} {line : Str} : Reachable cs env G d w → G line d →
      Runs (kernel env) (commandLoop cs line d) w (.done (.next d')) w' → Reachable cs env G d' w'

/-- A line of input runs the command its words name. -/
theorem runs_commandLoop {cs : Capstone} {W : Type} {K : Kernel Req Ans W} {line : Str}
    {d d' : Debugger} {w w' : W} :
    Runs K (commandLoop cs line d) w (.done (.next d')) w' ↔
      ∃ c args, dbgcmdParser line ' ' = c :: args ∧ ¬ (c = "exit".toList ∨ c = "q".toList) ∧
        Runs K (dispatch cs line (c :: args) c d) w (.done d') w' := by
  unfold commandLoop
  cases hwords : dbgcmdParser line ' ' with
  | nil => simp
  | cons c args =>
      by_cases hquit : c = "exit".toList ∨ c = "q".toList
      · simp only [if_pos hquit, Prog.pure_eq, runs_done]
        constructor
        · rintro ⟨h, -⟩
          cases h
        · rintro ⟨c', args', heq, hno, -⟩
          cases heq
          exact absurd hquit hno
      · simp only [if_neg hquit, runs_bind, Prog.pure_eq, runs_done, List.cons.injEq]
        constructor
        · rintro (⟨d₁, w₁, hr, heq, rfl⟩ | ⟨e, -, he⟩)
          · cases heq
            exact ⟨c, args, ⟨rfl, rfl⟩, hquit, hr⟩
          · cases he
        · rintro ⟨c', args', ⟨rfl, rfl⟩, -, hr⟩
          exact Or.inl ⟨d', w', hr, rfl, rfl⟩

/-! ## A small program -/

namespace Sample

/-- A program file whose only section is both the table of section names and
`.text`, the eight bytes from `0x1000` on. -/
def file : List Byte :=
  elfmag ++ List.replicate 36 0 ++ bytesOf 64 ++ List.replicate 10 0 ++ [64, 0, 1, 0, 0, 0] ++
    List.replicate 16 0 ++ bytesOf 0x1000 ++ bytesOf 128 ++ bytesOf 8 ++ List.replicate 24 0 ++
    textName ++ [0, 0, 0]

/-- The registers at the first stop: the program begins at `0x1000`. -/
def regs : UserRegs :=
  ⟨0, 0, 0, 0, 0, 0, 0, 0, 0, 0, 0, 0, 0, 0, 0, 0x1000, 0, 0⟩

/-- The process at its first stop: `nop` everywhere. -/
def tracee : Tracee := ⟨regs, fun _ => 0x90⟩

/-- A system that has the one program. -/
def env (mayFail : Req → Prop) (stops : Resume → Tracee → WaitStatus → Tracee → Prop) :
    Env where
  mayFail := mayFail
  boots t := t = tracee
  stops := stops
  startEnds _ := False
  file path x := x = if path = "a".toList then some file else none

/-- A system that refuses nothing and whose tracee never changes. -/
def quiet : Env := env (fun _ => False) fun _ t _ t' => t' = t

/-- The debugger after `load a`. -/
def loaded : Debugger :=
  { Debugger.init with
    progPath := "a".toList, entryPoint := 0, textBegin := 0x1000, textEnd := 0x1007
    state := .loaded, out := [.programLoaded "a".toList 0] }

/-- The debugger after `start`. -/
def started : Debugger :=
  { loaded with
    pid := 1, state := .running
    out := loaded.out ++ [.info "** hit no breakpoint\n", .pid 1] }

/-- The debugger after `b 0x1000`. -/
def planted : Debugger :=
  { started with bptab := ⟨[⟨0x9090909090909090, 0x1000⟩]⟩ }

/-- The process after `b 0x1000`. -/
def trapped : Tracee := { tracee with mem := writeWord tracee.mem 0x1000 0x90909090909090cc }

/-- A disassembler that knows `nop`. -/
def capstone : Capstone where
  csOpen := true
  csDisasm bytes _ := if bytes.head? = some 0x90 then some ⟨1, "nop".toList, []⟩ else none

variable (cs : Capstone) (mayFail : Req → Prop)
  (stops : Resume → Tracee → WaitStatus → Tracee → Prop)

theorem runs_load :
    Runs (kernel (env mayFail stops)) (commandLoop cs "load a".toList .init) ⟨false, .absent⟩
      (.done (.next loaded)) ⟨false, .absent⟩ := by
  refine runs_commandLoop.2 ⟨"load".toList, ["a".toList], ?_, by decide, ?_⟩
  · rw [dbgcmdParser_eq]
    rfl
  · exact ⟨some file, ⟨false, .absent⟩, ⟨rfl, rfl⟩, rfl, rfl⟩

theorem runs_start :
    Runs (kernel (env mayFail stops)) (commandLoop cs "start".toList loaded) ⟨false, .absent⟩
      (.done (.next started)) ⟨false, .stopped 1 tracee⟩ := by
  refine runs_commandLoop.2 ⟨"start".toList, [], ?_, by decide, ?_⟩
  · rw [dbgcmdParser_eq]
    rfl
  · refine ⟨1, ⟨false, .starting 1⟩, Or.inr (Or.inr ⟨by decide, rfl⟩), ?_⟩
    refine ⟨some (.stopped sigtrap), ⟨false, .stopped 1 tracee⟩, ?_, ?_⟩
    · exact kernel_waitpid_starting.2 (Or.inl ⟨sigtrap, tracee, rfl, rfl, rfl⟩)
    · refine ⟨(), _, rfl, some regs, _, kernel_getregs.2 (Or.inl ⟨rfl, rfl⟩), rfl, rfl⟩

theorem runs_break :
    Runs (kernel (env mayFail stops)) (commandLoop cs "b 0x1000".toList started)
      ⟨false, .stopped 1 tracee⟩ (.done (.next planted)) ⟨false, .stopped 1 trapped⟩ := by
  refine runs_commandLoop.2 ⟨"b".toList, ["0x1000".toList], ?_, by decide, ?_⟩
  · rw [dbgcmdParser_eq]
    rfl
  · refine ⟨_, _, kernel_peektext.2 (Or.inl ⟨rfl, rfl⟩), ?_⟩
    exact ⟨true, _, kernel_poketext.2 (Or.inl ⟨rfl, rfl⟩), rfl, rfl⟩

/-- The session `load a`, `start`. -/
theorem reachable_started {G : Str → Debugger → Prop} (hload : G "load a".toList .init)
    (hstart : G "start".toList loaded) :
    Reachable cs (env mayFail stops) G started ⟨false, .stopped 1 tracee⟩ :=
  (Reachable.init.step hload (runs_load cs mayFail stops)).step hstart (runs_start cs mayFail stops)

/-- The session `load a`, `start`, `b 0x1000`. -/
theorem reachable_planted {G : Str → Debugger → Prop} (hload : G "load a".toList .init)
    (hstart : G "start".toList loaded) (hbreak : G "b 0x1000".toList started) :
    Reachable cs (env mayFail stops) G planted ⟨false, .stopped 1 trapped⟩ :=
  (reachable_started cs mayFail stops hload hstart).step hbreak (runs_break cs mayFail stops)

end Sample

end Sdb
