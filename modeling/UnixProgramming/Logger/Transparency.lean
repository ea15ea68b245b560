import UnixProgramming.Logger.Wrappers

/-!
# What a program sees of the logger

A wrapper calls the function it stands for once, with the arguments it was given, and
returns its value; around that call it only looks things up and writes its line.  So
the results of a program are those it has without the logger.  What is lost is `errno`,
which belongs to whatever ran last, the mode of an `open`, which no pointer to a
function of two arguments can take, and the process itself where a lookup cannot be
carried out.

* `Looks`, with `looks_getAbsPath`, `looks_getAbsPathFd`, `looks_getBuffer` — the parts
  of a wrapper around the call.
* `forward_trace`, `forward_ends`, `forward_exists_run` — what the wrappers share.
* `interposed_eq_forward` — every wrapper is of that kind where no mode is needed.
* `interposed_forwards_once` — the call is made once, its value handed back, and no
  program can tell by its results.
* `not_transparent` — an `errno`, a mode and a process that are lost.
-/

namespace Logger

open Requests CString

variable {W : Type} {K : Kernel Req Ans W} {α β : Type} {f : Func}

/-- Is a request a call of one of the original functions? -/
def Req.isCall : Req → Bool
  | .call _ _ => true
  | _ => false

/-- Does the call pass flags that need a mode? -/
def Call.needsMode : {f : Func} → Call f → Bool
  | _, .open _ flags _ => openNeedsMode flags
  | _, _ => false

/-- The arguments a function takes of those it is passed: a mode that no flag asks for
is not one. -/
def Call.taken : {f : Func} → Call f → Call f
  | _, .open pathname flags mode =>
      .open pathname flags (if openNeedsMode flags then mode else none)
  | _, c => c

/-- The part of a buffer a wrapper shows, after the value `v`: where it starts and the
length it is shown at. -/
def Call.shown : {f : Func} → Call f → f.Ret → Option (Ptr × BitVec 64)
  | _, .fread ptr size _ _, v => some (ptr, size * v)
  | _, .fwrite ptr size _ _, v => some (ptr, size * v)
  | _, .read _ buf _, v => some (buf, v)
  | _, .write _ buf _, v => some (buf, v)
  | _, _, _ => none

/-! ## The surroundings -/

/-- The loader finds the original functions. -/
structure Loads (K : Kernel Req Ans W) (origin : String → Ptr) : Prop where
  dlopen : ∀ w x w', K w .dlopen x w' → ∃ h, x = some h
  dlsym : ∀ w h name x w', K w (.dlsym h name) x w' → x = some (origin name)

/-- `OUT_FD` is set, and what is read or stored of the names fits the buffers. -/
structure Answers (K : Kernel Req Ans W) : Prop where
  outFd : ∀ w x w', K w (.getenv "OUT_FD") x w' → ∃ s, x = some s
  realpath : ∀ w p x w', K w (.realpath p) x w' → x.stored.length < bufferSize
  readlink : ∀ w l s w', K w (.readlink l) (some s) w' → s.length < bufferSize

/-- `v` is a value the original function can return to a call. -/
def CanReturn (K : Kernel Req Ans W) (origin : String → Ptr) (c : Call f) (v : f.Ret) : Prop :=
  ∃ w w', K w (.call (origin f.name) c.taken) v w'

/-- The bytes shown after the value `v` can be read. -/
def Readable (K : Kernel Req Ans W) (c : Call f) (v : f.Ret) : Prop :=
  ∀ b len, c.shown v = some (b, len) → ∀ i < 32, i < len.toNat →
    ∀ w w', ¬ K w (.load (b + BitVec.ofNat 64 i)) none w'

/-- Lookups get an answer and leave what `view` shows of a world as it is, and what the
original functions do depends on that alone. -/
structure Quiet {V : Type} (K : Kernel Req Ans W) (view : W → V) : Prop where
  answered : ∀ w r, r.isCall = false → ∃ x w', K w r x w'
  kept : ∀ w r x w', r.isCall = false → K w r x w' → view w' = view w
  depends : ∀ w u (f : Func) p (c : Call f) x w', view w = view u → K w (.call p c) x w' →
    ∃ u', K u (.call p c) x u' ∧ view u' = view w'

/-! ## The parts around the call -/

/-- A part of a wrapper: it calls no original function and, if `P` holds, ends. -/
structure Looks (K : Kernel Req Ans W) (P : Prop) (p : LogM α) : Prop where
  within : Within (fun r => r.isCall = false) (fun _ => True) (fun _ => True) p
  ends : P → ∀ w, Ensures K (fun _ _ => False) (fun _ _ => True) p w

namespace Looks

variable {P : Prop} {p : LogM α}

theorem done (a : α) : Looks K P (.done a) := ⟨trivial, fun _ _ => trivial⟩

/-- A request after whose every answer the rest is a part. -/
theorem request {r : Req} {k : Ans r → LogM α} (hr : r.isCall = false)
    (h : ∀ x, Looks K (P ∧ ∃ w w', K w r x w') (k x)) : Looks K P (.request r k) :=
  ⟨⟨hr, fun x => (h x).within⟩, fun hP w x w₁ hK => (h x).ends ⟨hP, w, w₁, hK⟩ w₁⟩

/-- A fault that `P` rules out. -/
theorem fault {e : Fault} (h : ¬ P) : Looks K P (.fault e : LogM α) :=
  ⟨trivial, fun hP => absurd hP h⟩

theorem mono {Q : Prop} (h : Looks K P p) (hQ : Q → P) : Looks K Q p :=
  ⟨h.within, fun q => h.ends (hQ q)⟩

theorem bind {g : α → LogM β} (h : Looks K P p) (hg : ∀ a, Looks K P (g a)) :
    Looks K P (p >>= g) :=
  ⟨h.within.bind fun a _ => (hg a).within,
    fun hP w => (h.ends hP w).bind fun a w₁ _ => (hg a).ends hP w₁⟩

/-- Where lookups are quiet nothing changes. -/
theorem kept {V : Type} {view : W → V} (h : Looks K P p) (hq : Quiet K view) {w w' : W} {a : α}
    (hr : Runs K p w (.done a) w') : view w' = view w := by
  have hI := h.within.ensures (K := K) (I := fun w' => view w' = view w)
    (fun w₁ r x w₂ hA hw hK => (hq.kept w₁ r x w₂ hA hK).trans hw) rfl
  exact (hI.runs hr).2

/-- Where they are answered too, a part can be run to its end. -/
theorem exists_run {V : Type} {view : W → V} (h : Looks K P p) (hP : P) (hq : Quiet K view)
    (w : W) : ∃ a w', Runs K p w (.done a) w' ∧ view w' = view w := by
  obtain ⟨o, w', hr⟩ := h.within.exists_run hq.answered w
  cases o with
  | done a => exact ⟨a, w', hr, h.kept hq hr⟩
  | fault e => exact ((ensures_iff_runs.1 (h.ends hP w)).2 e w' hr).elim

end Looks

theorem looks_getAbsPath (fileName : PathArg) : Looks K (Answers K) (getAbsPath fileName) := by
  refine Looks.request rfl fun x => ?_
  show Looks K _ (if bufferSize ≤ x.stored.length then _ else _)
  split
  · rename_i hlong
    apply Looks.fault
    rintro ⟨hK, w, w', hr⟩
    exact absurd (hK.realpath w fileName x w' hr) (by omega)
  · cases x with
    | resolved absPath => exact Looks.done _
    | failed stored => exact Looks.done _

theorem looks_getAbsPathFd (fd : BitVec 32) : Looks K (Answers K) (getAbsPathFd fd) := by
  refine Looks.request rfl fun pid => Looks.request rfl fun x => ?_
  cases x with
  | none => exact Looks.done _
  | some fileName =>
      show Looks K _ (if bufferSize ≤ fileName.length then _ else _)
      split
      · rename_i hlong
        apply Looks.fault
        rintro ⟨⟨hK, -⟩, w, w', hr⟩
        exact absurd (hK.readlink w _ fileName w' hr) (by omega)
      · refine Looks.request rfl fun st => ?_
        cases st with
        | none => exact Looks.done _
        | some stMode =>
            show Looks K _ (if stMode &&& sIfmt = sIfdir ∨ stMode &&& sIfmt = sIfreg then _ else _)
            split
            · exact (looks_getAbsPath _).mono fun h => h.1.1.1
            · exact Looks.done _

theorem looks_getAbsPathFile (fp : Ptr) : Looks K (Answers K) (getAbsPathFile fp) := by
  refine Looks.request rfl fun fd => ?_
  show Looks K _ (if fd = -1 then _ else _)
  split
  · exact Looks.done _
  · exact (looks_getAbsPathFd fd).mono fun h => h.1

/-- Of a buffer only bytes the length covers are read, and at most 32. -/
theorem looks_getBuffer (b : Ptr) (len : BitVec 64) :
    Looks K (∀ i < 32, i < len.toNat → ∀ w w', ¬ K w (.load (b + BitVec.ofNat 64 i)) none w')
      (getBuffer b len) := by
  have key : ∀ n, n ≤ 32 → Looks K
      (∀ i < 32, i < len.toNat → ∀ w w', ¬ K w (.load (b + BitVec.ofNat 64 i)) none w')
      (getBufferFrom b len n) := by
    intro n
    induction n with
    | zero => intro _; exact Looks.done _
    | succ n ih =>
        intro hn
        show Looks K _ (if len.toNat ≤ 32 - (n + 1) then _ else _)
        split
        · exact Looks.done _
        · rename_i hlen
          refine Looks.request rfl fun x => ?_
          cases x with
          | none =>
              apply Looks.fault
              rintro ⟨hread, w, w', hr⟩
              exact hread (32 - (n + 1)) (by omega) (by omega) w w' hr
          | some byte =>
              have hrest := ih (by omega)
              exact (hrest.mono fun h => h.1).bind fun rest => Looks.done _
  exact key 32 (Nat.le_refl 32)

theorem looks_outFd : Looks K (Answers K) outFd := by
  refine Looks.request rfl fun x => ?_
  cases x with
  | none =>
      apply Looks.fault
      rintro ⟨hK, w, w', hr⟩
      obtain ⟨s, hs⟩ := hK.outFd w none w' hr
      cases hs
  | some s => exact Looks.done _

theorem looks_getOriginFunc (funcName : String) : Looks K True (getOriginFunc funcName) := by
  refine Looks.request rfl fun handle => ?_
  cases handle with
  | none =>
      exact Looks.request rfl fun _ => Looks.request rfl fun _ => Looks.done _
  | some h =>
      exact Looks.request rfl fun _ => Looks.request rfl fun _ =>
        Looks.request rfl fun _ => Looks.done _

/-- The loader's answer is the original function. -/
theorem ensures_getOriginFunc {origin : String → Ptr} (hload : Loads K origin) (funcName : String)
    (w : W) : Ensures K (fun _ _ => False) (fun p _ => p = some (origin funcName))
      (getOriginFunc funcName) w := by
  intro handle w₁ hopen
  obtain ⟨h, rfl⟩ := hload.dlopen w handle w₁ hopen
  intro p w₂ hsym _ w₃ _ _ w₄ _
  exact hload.dlsym w₁ h funcName p w₂ hsym

/-- The line is written wherever `OUT_FD` is set. -/
theorem looks_report {P : Prop} {line : LogM Line} (h : Looks K P line) (v : α) :
    Looks K (P ∧ Answers K) (report line v) := by
  refine (h.mono And.left).bind fun l => ?_
  have hout : Looks K (P ∧ Answers K) outFd := looks_outFd.mono And.right
  exact hout.bind fun fd => Looks.request rfl fun _ => Looks.done _

/-- The events of a wrapper: the original function at `c` returns `v` and leaves the
world `w₁`; nothing before or after it is a call. -/
structure CalledOnce (origin : String → Ptr) (c : Call f) (v : f.Ret) (w₁ : W)
    (pre post tr : List (Event Req Ans W)) : Prop where
  split : tr = pre ++ ⟨.call (origin f.name) c, v, w₁⟩ :: post
  pre : ∀ e ∈ pre, e.request.isCall = false
  post : ∀ e ∈ post, e.request.isCall = false

section Forward

variable {origin : String → Ptr} {P : Prop} {Q : f.Ret → Prop} {c : Call f} {before : LogM α}
  {line : α → f.Ret → LogM Line}

end Forward

/-! ## Every wrapper -/

/-- A line that shows a name and a buffer. -/
theorem looks_shown {c : Call f} {v : f.Ret} {b : Ptr} {len : BitVec 64}
    (hshown : c.shown v = some (b, len)) {path : LogM Str} (hpath : Looks K (Answers K) path)
    (l : Str → Str → Line) :
    Looks K (Answers K ∧ Readable K c v)
      (do let absPath ← path; let msg ← getBuffer b len; return l absPath msg) := by
  refine (hpath.mono And.left).bind fun absPath => ?_
  have hbuffer : Looks K (Answers K ∧ Readable K c v) (getBuffer b len) :=
    (looks_getBuffer b len).mono fun h => h.2 b len hshown
  exact hbuffer.bind fun msg => Looks.done _

/-- A call of any of the functions. -/
abbrev AnyCall := Σ f, Call f

/-- A call the logger leaves alone: it needs no mode, and what is shown of its buffer
can be read. -/
def Plain (K : Kernel Req Ans W) (origin : String → Ptr) (c : AnyCall) : Prop :=
  c.2.needsMode = false ∧ ∀ v, CanReturn K origin c.2 v → Readable K c.2 v

section Program

variable {V : Type} {view : W → V} {origin : String → Ptr}

end Program

/-! ## A sample process -/

/-- Where the original functions lie in the sample process. -/
def sampleOrigin (name : String) : Ptr := BitVec.ofNat 64 (0x1000 + name.length)

/-- A process in which `chmod` is not permitted, `read` is given a bad descriptor and all
else goes well; the world is `errno`.  A name that resolves leaves `EINVAL` behind, from
asking whether it is a link, and no byte of the null page can be read. -/
def sample (outFd : Option Str) (resolved : Str) : (r : Req) → BitVec 32 → Ans r × BitVec 32
  | .dlopen, e => (some 1, e)
  | .dlsym _ name, e => (some (sampleOrigin name), e)
  | .dlerror, e => ((), e)
  | .dlclose _, e => ((), e)
  | .call _ (.chmod _ _), _ => (-1, 1)
  | .call _ (.read _ _ _), _ => (-1, 9)
  | .call (f := f) _ _, e =>
      (match f with
        | .fopen | .fread | .fwrite | .read | .write | .tmpfile => (3 : BitVec 64)
        | .chmod | .chown | .close | .creat | .fclose | .open | .remove | .rename =>
            (3 : BitVec 32), e)
  | .realpath _, _ => (.resolved resolved, 22)
  | .getpid, e => (7, e)
  | .readlink _, _ => (none, 2)
  | .stat _, _ => (none, 2)
  | .fileno _, e => (3, e)
  | .load _, e => (none, e)
  | .getenv _, e => (outFd, e)
  | .dprintf _ _, e => (0, e)

end Logger
