import UnixProgramming.Logger.Transparency

/-!
# The data a line of the log shows

`read`, `write`, `fread` and `fwrite` show what went through their buffer.  How much
that was they take from the value the original function returned, as an unsigned
number of 64 bits.

* `getBuffer_trace` — the loads of `getBuffer` and the text it makes of them.
* `Call.transferred`, `RightLog` — what is to be shown, and that a run shows it.
* `rightLog_iff_min` — a run does exactly when the lengths agree up to 32.
* `logged_iff` — which they do when nothing failed and the product fits.
-/

namespace Logger

open Requests CString

variable {W : Type} {K : Kernel Req Ans W} {α : Type} {f : Func}

/-! ## What is to be shown -/

/-- A byte as the log shows it. -/
def shownByte (b : BitVec 8) : Char := if isprint b then Char.ofNat b.toNat else '.'

/-- The buffer of a call, and how many of its bytes were transferred if the original
function returned `r`. -/
def Call.transferred : {f : Func} → Call f → f.Ret → Option (Ptr × Nat)
  | _, .fread ptr size _ _, r => some (ptr, size.toNat * r.toNat)
  | _, .fwrite ptr size _ _, r => some (ptr, size.toNat * r.toNat)
  | _, .read _ buf _, r => some (buf, (max r.toInt 0).toNat)
  | _, .write _ buf _, r => some (buf, (max r.toInt 0).toNat)
  | _, _, _ => none

/-- Which argument of its line shows the buffer. -/
def Call.messageArg : {f : Func} → Call f → Nat
  | _, .read _ _ _ => 1
  | _, .write _ _ _ => 1
  | _, _ => 0

/-- A byte a run reads of the caller's memory, with the answer. -/
def load? : Event Req Ans W → Option (Ptr × Option (BitVec 8))
  | ⟨.load a, x, _⟩ => some (a, x)
  | _ => none

/-- A line a run writes. -/
def line? : Event Req Ans W → Option Line
  | ⟨.dprintf _ l, _, _⟩ => some l
  | _ => none

/-- The loads of consecutive bytes, from index `i` on. -/
def loadsAt (b : Ptr) : Nat → List (BitVec 8) → List (Ptr × Option (BitVec 8))
  | _, [] => []
  | i, x :: xs => (b + BitVec.ofNat 64 i, some x) :: loadsAt b (i + 1) xs

/-- A run returns, has read the first bytes of those transferred, at most 32, and
nothing else, and has written one line, which shows these bytes. -/
structure RightLog (c : Call f) (r : f.Ret) (tr : List (Event Req Ans W))
    (o : Result Fault f.Ret) : Prop where
  returns : o = .done r
  shows : ∀ b n, c.transferred r = some (b, n) → ∃ bytes : List (BitVec 8),
    bytes.length = min 32 n ∧ tr.filterMap load? = loadsAt b 0 bytes ∧
      ∃ l, tr.filterMap line? = [l] ∧ l.args[c.messageArg]? = some (.text (bytes.map shownByte))

/-- What the value has to be for the length taken from it to be right: no failure, and
a product that fits, or whose rest still fills the 32 bytes. -/
def Call.Counts : {f : Func} → Call f → f.Ret → Prop
  | _, .fread _ size _ _, r =>
      size.toNat * r.toNat < 2 ^ 64 ∨ 32 ≤ size.toNat * r.toNat % 2 ^ 64
  | _, .fwrite _ size _ _, r =>
      size.toNat * r.toNat < 2 ^ 64 ∨ 32 ≤ size.toNat * r.toNat % 2 ^ 64
  | _, .read _ _ _, r => 0 ≤ r.toInt
  | _, .write _ _ _, r => 0 ≤ r.toInt
  | _, _, _ => True

/-- The bytes to be shown can be read. -/
def TransferReadable (K : Kernel Req Ans W) (c : Call f) (r : f.Ret) : Prop :=
  ∀ b n, c.transferred r = some (b, n) → ∀ i < min 32 n,
    ∀ u u', ¬ K u (.load (b + BitVec.ofNat 64 i)) none u'

/-- Does a call have a buffer? -/
def Call.hasBuffer : {f : Func} → Call f → Bool
  | _, .fread _ _ _ _ => true
  | _, .fwrite _ _ _ _ => true
  | _, .read _ _ _ => true
  | _, .write _ _ _ => true
  | _, _ => false

theorem length_loadsAt (b : Ptr) (i : Nat) (xs : List (BitVec 8)) :
    (loadsAt b i xs).length = xs.length := by
  induction xs generalizing i with
  | nil => rfl
  | cons x xs ih => rw [loadsAt, List.length_cons, List.length_cons, ih]

/-! ## The loads of `getBuffer` -/

/-- From index `i` on, `getBuffer` reads up to the length and at most 32 bytes, and shows
them; or one of these cannot be read. -/
theorem getBufferFrom_trace {b : Ptr} {len : BitVec 64} {n : Nat} (hn : n ≤ 32) {w w' : W}
    {tr : List (Event Req Ans W)} {o : Result Fault Str}
    (h : Traces K (getBufferFrom b len n) w tr o w') :
    (∃ bytes, o = .done (bytes.map shownByte) ∧ tr.filterMap load? = loadsAt b (32 - n) bytes ∧
      bytes.length = min 32 len.toNat - (32 - n) ∧ tr.filterMap line? = []) ∨
      (∃ e, o = .fault e) ∧
        ∃ i, i < min 32 len.toNat ∧ ∃ u u', K u (.load (b + BitVec.ofNat 64 i)) none u' := by
  induction n generalizing w tr o with
  | zero =>
      obtain ⟨rfl, rfl, rfl⟩ := h
      exact Or.inl ⟨[], rfl, rfl, by simp, rfl⟩
  | succ n ih =>
      change Traces K (if len.toNat ≤ 32 - (n + 1) then _ else _) w tr o w' at h
      by_cases hlen : len.toNat ≤ 32 - (n + 1)
      · rw [if_pos hlen] at h
        obtain ⟨rfl, rfl, rfl⟩ := h
        exact Or.inl ⟨[], rfl, rfl, by simp; omega, rfl⟩
      · rw [if_neg hlen] at h
        obtain ⟨x, w₁, rest, rfl, hK, hrest⟩ := h
        cases x with
        | none =>
            obtain ⟨rfl, rfl, rfl⟩ := hrest
            exact Or.inr ⟨⟨_, rfl⟩, 32 - (n + 1), by omega, w, _, hK⟩
        | some byte =>
            change Traces K (getBufferFrom b len n >>= fun msg => .done (shownByte byte :: msg))
              w₁ rest o w' at hrest
            rcases traces_bind_cases hrest with ⟨msg, w₂, front, back, rfl, hp, hdone⟩ | ⟨e, hp, rfl⟩
            · obtain ⟨rfl, rfl, rfl⟩ := hdone
              rcases ih (by omega) hp with ⟨bytes, hmsg, hloads, hlength, hlines⟩ | hfault
              · cases hmsg
                refine Or.inl ⟨byte :: bytes, rfl, ?_, ?_, ?_⟩
                · rw [List.append_nil, loadsAt, show 32 - (n + 1) + 1 = 32 - n by omega, ← hloads]
                  rfl
                · rw [List.length_cons, hlength]
                  omega
                · rw [List.append_nil, ← hlines]
                  rfl
              · obtain ⟨e, he⟩ := hfault.1
                cases he
            · rcases ih (by omega) hp with ⟨bytes, hmsg, -⟩ | hfault
              · cases hmsg
              · exact Or.inr ⟨⟨e, rfl⟩, hfault.2⟩

theorem getBuffer_trace {b : Ptr} {len : BitVec 64} {w w' : W} {tr : List (Event Req Ans W)}
    {o : Result Fault Str} (h : Traces K (getBuffer b len) w tr o w') :
    (∃ bytes, o = .done (bytes.map shownByte) ∧ tr.filterMap load? = loadsAt b 0 bytes ∧
      bytes.length = min 32 len.toNat ∧ tr.filterMap line? = []) ∨
      (∃ e, o = .fault e) ∧
        ∃ i, i < min 32 len.toNat ∧ ∃ u u', K u (.load (b + BitVec.ofNat 64 i)) none u' := by
  have h32 := getBufferFrom_trace (Nat.le_refl 32) h
  simpa using h32

/-! ## The other parts -/

/-- Requests that neither read the caller's memory nor write to the log. -/
def Req.isSilent : Req → Bool
  | .load _ => false
  | .dprintf _ _ => false
  | _ => true

theorem load?_of_isSilent (e : Event Req Ans W) (h : e.request.isSilent = true) :
    load? e = none := by
  obtain ⟨r, x, w⟩ := e
  cases r <;> first | rfl | cases h

theorem line?_of_isSilent (e : Event Req Ans W) (h : e.request.isSilent = true) :
    line? e = none := by
  obtain ⟨r, x, w⟩ := e
  cases r <;> first | rfl | cases h

/-- Parts that leave the buffer and the log alone. -/
abbrev Silent (p : LogM α) : Prop :=
  Within (fun r => r.isSilent = true) (fun _ => True) (fun _ => True) p

theorem Silent.filterMap {p : LogM α} (h : Silent p) {w w' : W} {tr : List (Event Req Ans W)}
    {o : Result Fault α} (ht : Traces K p w tr o w') :
    tr.filterMap load? = [] ∧ tr.filterMap line? = [] :=
  ⟨h.filterMap_traces load?_of_isSilent ht, h.filterMap_traces line?_of_isSilent ht⟩

theorem silent_getOriginFunc (funcName : String) : Silent (getOriginFunc funcName) := by
  refine ⟨rfl, fun handle => ?_⟩
  cases handle with
  | none => exact ⟨rfl, fun _ => ⟨rfl, fun _ => trivial⟩⟩
  | some h => exact ⟨rfl, fun _ => ⟨rfl, fun _ => ⟨rfl, fun _ => trivial⟩⟩⟩

theorem silent_getAbsPath (fileName : PathArg) : Silent (getAbsPath fileName) := by
  refine ⟨rfl, fun x => ?_⟩
  show Silent (if bufferSize ≤ x.stored.length then _ else _)
  split
  · trivial
  · cases x with
    | resolved absPath => trivial
    | failed stored => trivial

theorem silent_getAbsPathFd (fd : BitVec 32) : Silent (getAbsPathFd fd) := by
  refine ⟨rfl, fun pid => ⟨rfl, fun x => ?_⟩⟩
  cases x with
  | none => trivial
  | some fileName =>
      show Silent (if bufferSize ≤ fileName.length then _ else _)
      split
      · trivial
      · refine ⟨rfl, fun st => ?_⟩
        cases st with
        | none => trivial
        | some stMode =>
            show Silent (if stMode &&& sIfmt = sIfdir ∨ stMode &&& sIfmt = sIfreg then _ else _)
            split
            · exact silent_getAbsPath _
            · trivial

theorem silent_getAbsPathFile (fp : Ptr) : Silent (getAbsPathFile fp) := by
  refine ⟨rfl, fun fd => ?_⟩
  show Silent (if fd = -1 then _ else _)
  split
  · trivial
  · exact silent_getAbsPathFd fd

theorem silent_outFd : Silent outFd := by
  refine ⟨rfl, fun x => ?_⟩
  cases x with
  | none => trivial
  | some s => trivial

/-- A part that ends does not end with a fault. -/
theorem Looks.not_fault {P : Prop} {p : LogM α} (h : Looks K P p) (hP : P) {w w' : W}
    {tr : List (Event Req Ans W)} {e : Fault} : ¬ Traces K p w tr (.fault e) w' := fun ht =>
  (ensures_iff_runs.1 (h.ends hP w)).2 e w' (runs_iff_traces.2 ⟨tr, ht⟩)

/-- What is written of a line, once it is made. -/
theorem report_done_trace {v : α} {l : Line} (hA : Answers K) {w w' : W}
    {tr : List (Event Req Ans W)} {o : Result Fault α}
    (h : Traces K (report (.done l) v) w tr o w') :
    o = .done v ∧ tr.filterMap load? = [] ∧ tr.filterMap line? = [l] := by
  change Traces K (outFd >>= fun fd => ask (.dprintf fd l) >>= fun _ => .done v) w tr o w' at h
  rcases traces_bind_cases h with ⟨fd, w₁, front, rest, rfl, hfd, hprint⟩ | ⟨e, hfd, -⟩
  · obtain ⟨hloads, hlines⟩ := silent_outFd.filterMap hfd
    obtain ⟨x, w₂, tail, rfl, -, rfl, rfl, rfl⟩ := hprint
    refine ⟨rfl, ?_, ?_⟩
    · rw [List.filterMap_append, hloads]
      rfl
    · rw [List.filterMap_append, hlines]
      rfl
  · exact absurd hfd (looks_outFd.not_fault hA)

/-- A line that shows a buffer, made and written. -/
theorem report_shown_trace {path : LogM Str} (hpath : Looks K (Answers K) path)
    (hsilent : Silent path) (hA : Answers K) {b : Ptr} {len : BitVec 64} {l : Str → Str → Line}
    {v : α} {w w' : W} {tr : List (Event Req Ans W)} {o : Result Fault α}
    (h : Traces K (report (do let absPath ← path; let msg ← getBuffer b len; return l absPath msg) v)
      w tr o w') :
    (∃ absPath bytes, o = .done v ∧ bytes.length = min 32 len.toNat ∧
      tr.filterMap load? = loadsAt b 0 bytes ∧
      tr.filterMap line? = [l absPath (bytes.map shownByte)]) ∨
      (∃ e, o = .fault e) ∧
        ∃ i, i < min 32 len.toNat ∧ ∃ u u', K u (.load (b + BitVec.ofNat 64 i)) none u' := by
  have hparts : report (do let absPath ← path; let msg ← getBuffer b len; return l absPath msg) v =
      path >>= fun absPath => getBuffer b len >>= fun msg => report (.done (l absPath msg)) v := by
    rw [report, Prog.bind_assoc]
    refine congrArg (path >>= ·) (funext fun absPath => ?_)
    rw [Prog.bind_assoc]
    rfl
  rw [hparts] at h
  rcases traces_bind_cases h with ⟨absPath, w₁, tr₁, rest, rfl, h₁, h⟩ | ⟨e, h₁, -⟩
  swap
  · exact absurd h₁ (hpath.not_fault hA)
  obtain ⟨hloads₁, hlines₁⟩ := hsilent.filterMap h₁
  rcases traces_bind_cases h with ⟨msg, w₂, tr₂, rest, rfl, h₂, h⟩ | ⟨e, h₂, ho⟩
  swap
  · rcases getBuffer_trace h₂ with ⟨bytes, hmsg, -⟩ | hfault
    · cases hmsg
    · exact Or.inr ⟨⟨e, ho⟩, hfault.2⟩
  rcases getBuffer_trace h₂ with ⟨bytes, hmsg, hloads₂, hlength, hlines₂⟩ | ⟨⟨e, he⟩, -⟩
  swap
  · cases he
  cases hmsg
  obtain ⟨rfl, hloads₃, hlines₃⟩ := report_done_trace hA h
  refine Or.inl ⟨absPath, bytes, rfl, hlength, ?_, ?_⟩
  · rw [List.filterMap_append, List.filterMap_append, hloads₁, hloads₂, hloads₃,
      List.nil_append, List.append_nil]
  · rw [List.filterMap_append, List.filterMap_append, hlines₁, hlines₂, hlines₃]
    rfl

/-- What the four wrappers share. -/
theorem interposed_eq_shown (K : Kernel Req Ans W) {c : Call f} (hc : c.hasBuffer = true) :
    ∃ (path : LogM Str) (b : Ptr) (len : f.Ret → BitVec 64) (l : f.Ret → Str → Str → Line),
      (interposed c = forward c (pure ()) fun _ v => do
        let absPath ← path
        let msg ← getBuffer b (len v)
        return l v absPath msg) ∧
      Looks K (Answers K) path ∧ Silent path ∧ (∀ v, c.shown v = some (b, len v)) ∧
      ∀ v absPath msg, (l v absPath msg).args[c.messageArg]? = some (.text msg) := by
  cases c with
  | fread ptr size nmemb stream =>
      exact ⟨_, _, _, _, rfl, looks_getAbsPathFile stream, silent_getAbsPathFile stream,
        fun _ => rfl, fun _ _ _ => rfl⟩
  | fwrite ptr size nmemb stream =>
      exact ⟨_, _, _, _, rfl, looks_getAbsPathFile stream, silent_getAbsPathFile stream,
        fun _ => rfl, fun _ _ _ => rfl⟩
  | read fd buf nbyte =>
      exact ⟨_, _, _, _, rfl, looks_getAbsPathFd fd, silent_getAbsPathFd fd,
        fun _ => rfl, fun _ _ _ => rfl⟩
  | write fd buf nbyte =>
      exact ⟨_, _, _, _, rfl, looks_getAbsPathFd fd, silent_getAbsPathFd fd,
        fun _ => rfl, fun _ _ _ => rfl⟩
  | _ => cases hc

/-- What is shown of a buffer stands for what was transferred. -/
theorem exists_transferred {c : Call f} {r : f.Ret} {b : Ptr} {len : BitVec 64}
    (hshown : c.shown r = some (b, len)) : ∃ n, c.transferred r = some (b, n) := by
  cases c with
  | fread ptr size nmemb stream => cases hshown; exact ⟨_, rfl⟩
  | fwrite ptr size nmemb stream => cases hshown; exact ⟨_, rfl⟩
  | read fd buf nbyte => cases hshown; exact ⟨_, rfl⟩
  | write fd buf nbyte => cases hshown; exact ⟨_, rfl⟩
  | _ => cases hshown

/-- The length taken from a value is right up to 32 exactly when the value counts. -/
theorem min_shown_eq_iff {c : Call f} {r : f.Ret} {b b' : Ptr} {len : BitVec 64} {n : Nat}
    (hshown : c.shown r = some (b, len)) (hn : c.transferred r = some (b', n)) :
    b = b' ∧ (min 32 len.toNat = min 32 n ↔ c.Counts r) := by
  have hproduct : ∀ size v : BitVec 64, min 32 (size * v).toNat = min 32 (size.toNat * v.toNat) ↔
      size.toNat * v.toNat < 2 ^ 64 ∨ 32 ≤ size.toNat * v.toNat % 2 ^ 64 := by
    intro size v
    rw [BitVec.toNat_mul]
    omega
  have hsigned : ∀ v : BitVec 64, min 32 v.toNat = min 32 (max v.toInt 0).toNat ↔ 0 ≤ v.toInt := by
    intro v
    rw [BitVec.toInt_eq_toNat_cond]
    split <;> omega
  cases c with
  | fread ptr size nmemb stream =>
      cases hshown
      cases hn
      exact ⟨rfl, hproduct _ _⟩
  | fwrite ptr size nmemb stream =>
      cases hshown
      cases hn
      exact ⟨rfl, hproduct _ _⟩
  | read fd buf nbyte =>
      cases hshown
      cases hn
      exact ⟨rfl, hsigned _⟩
  | write fd buf nbyte =>
      cases hshown
      cases hn
      exact ⟨rfl, hsigned _⟩
  | _ => cases hn

/-! ## The runs -/

/-- A run shows what was transferred exactly when the length it takes is right. -/
theorem report_rightLog_iff {path : LogM Str} (hpath : Looks K (Answers K) path)
    (hsilent : Silent path) (hA : Answers K) {c : Call f} {b : Ptr} {len : f.Ret → BitVec 64}
    {l : f.Ret → Str → Str → Line} {v : f.Ret} (hshown : c.shown v = some (b, len v))
    (hl : ∀ v absPath msg, (l v absPath msg).args[c.messageArg]? = some (.text msg))
    (hread : TransferReadable K c v) {w w' : W}
    {pre post : List (Event Req Ans W)} {o : Result Fault f.Ret}
    (hpre : pre.filterMap load? = [] ∧ pre.filterMap line? = [])
    (h : Traces K (report (do let absPath ← path; let msg ← getBuffer b (len v)
                              return l v absPath msg) v) w post o w') :
    RightLog c v (pre ++ post) o ↔ c.Counts v := by
  obtain ⟨n, hn⟩ := exists_transferred hshown
  rw [← (min_shown_eq_iff hshown hn).2]
  have hloads : (pre ++ post).filterMap load? = post.filterMap load? := by
    rw [List.filterMap_append, hpre.1, List.nil_append]
  have hlines : (pre ++ post).filterMap line? = post.filterMap line? := by
    rw [List.filterMap_append, hpre.2, List.nil_append]
  rcases report_shown_trace hpath hsilent hA h with
    ⟨absPath, bytes, rfl, hlength, hbytes, hline⟩ | ⟨⟨e, rfl⟩, i, hi, u, u', hK⟩
  · constructor
    · rintro ⟨-, hshows⟩
      obtain ⟨bytes', hlength', hbytes', -⟩ := hshows b n hn
      rw [hloads, hbytes] at hbytes'
      have hsame := congrArg List.length hbytes'
      rw [length_loadsAt, length_loadsAt, hlength, hlength'] at hsame
      exact hsame
    · intro hsame
      refine ⟨rfl, fun b' n' hn' => ?_⟩
      rw [hn] at hn'
      cases hn'
      exact ⟨bytes, hlength.trans hsame, hloads.trans hbytes, _, hlines.trans hline, hl v _ _⟩
  · refine iff_of_false (fun h => by cases h.returns) fun hsame => ?_
    rw [hsame] at hi
    exact hread b n hn i hi u u' hK

/-- **What was transferred is what is shown.**  Every run of `read`, `write`, `fread` or
`fwrite` calls the original once.  If the bytes to be shown can be read, the run returns
and has read and shown the first bytes transferred, up to 32, and no other, exactly when
the value returned counts them: when `read` or `write` did not fail, when the size of
all items of `fread` or `fwrite` fits 64 bits, or is at least 32 when reduced to them. -/
theorem logged_iff {origin : String → Ptr} (hload : Loads K origin) (hA : Answers K)
    {c : Call f} (hc : c.hasBuffer = true) {w w' : W} {tr : List (Event Req Ans W)}
    {o : Result Fault f.Ret} (h : Traces K (interposed c) w tr o w') :
    ∃ r u pre post, CalledOnce origin c r u pre post tr ∧
      (TransferReadable K c r → (RightLog c r tr o ↔ c.Counts r)) := by
  obtain ⟨path, b, len, l, heq, hpath, hsilent, hshown, hl⟩ := interposed_eq_shown K hc
  rw [heq] at h
  rcases traces_bind_cases h with ⟨p, w₁, tr₁, rest, rfl, h₁, h⟩ | ⟨e, h₁, -⟩
  swap
  · exact absurd h₁ ((looks_getOriginFunc f.name).not_fault trivial)
  have hp : p = some (origin f.name) :=
    (ensures_getOriginFunc hload f.name w).runs (runs_iff_traces.2 ⟨tr₁, h₁⟩)
  subst hp
  obtain ⟨r, u, post, rfl, -, hreport⟩ := h
  have hsplit : tr₁ ++ ⟨.call (origin f.name) c, r, u⟩ :: post =
      (tr₁ ++ [⟨.call (origin f.name) c, r, u⟩]) ++ post := by simp
  have hbefore := (silent_getOriginFunc f.name).filterMap h₁
  refine ⟨r, u, tr₁, post, ⟨rfl, ?_, ?_⟩, fun hread => ?_⟩
  · exact (looks_getOriginFunc (K := K) f.name).within.traces h₁
  · exact (looks_report (looks_shown (hshown r) hpath (l r)) r).within.traces hreport
  · rw [hsplit]
    refine report_rightLog_iff hpath hsilent hA (hshown r) hl hread ?_ hreport
    rw [List.filterMap_append, List.filterMap_append, hbefore.1, hbefore.2]
    exact ⟨rfl, rfl⟩

/-! ## A sample -/

/-- The sample process, with an `A` at every address. -/
def legible : (r : Req) → BitVec 32 → Ans r × BitVec 32
  | .load _, e => (some 0x41, e)
  | r, e => sample (some "2".toList) "/etc/passwd".toList r e

theorem loads_legible : Loads (kernelOf legible) sampleOrigin := by
  constructor
  · intro w x w' h
    cases h
    exact ⟨1, rfl⟩
  · intro w handle name x w' h
    cases h
    rfl

theorem answers_legible : Answers (kernelOf legible) := by
  refine ⟨?_, ?_, ?_⟩
  · intro w x w' h
    cases h
    exact ⟨_, rfl⟩
  · intro w p x w' h
    cases h
    decide
  · intro w l s w' h
    cases h

/-- A `write` of three bytes in the sample process, whose bytes can all be read. -/
theorem sample_logged :
    ∃ r u pre post, CalledOnce (W := BitVec 32) sampleOrigin (.write 1 0x2000 3) r u pre post
        ((interposed (.write 1 0x2000 3)).eval legible 0).1 ∧
      (RightLog (.write 1 0x2000 3) r ((interposed (.write 1 0x2000 3)).eval legible 0).1
        ((interposed (.write 1 0x2000 3)).eval legible 0).2.1 ↔ 0 ≤ BitVec.toInt r) := by
  have htrace := traces_kernelOf legible (interposed (.write 1 0x2000 3)) 0
  obtain ⟨r, u, pre, post, hcalled, hright⟩ :=
    logged_iff loads_legible answers_legible rfl htrace
  have hread : TransferReadable (kernelOf legible) (.write 1 0x2000 3) r := by
    rintro b n - i - u u' h
    cases h
  exact ⟨r, u, pre, post, hcalled, hright hread⟩

/-- A `read` that fails is logged with 32 bytes it did not read. -/
theorem failed_read_logged :
    (⟨.call (sampleOrigin "read") (.read 5 0x2000 8), -1, 9⟩ : Event Req Ans (BitVec 32)) ∈
        ((interposed (.read 5 0x2000 8)).eval legible 0).1 ∧
      ¬ RightLog (.read 5 0x2000 8) (-1) ((interposed (.read 5 0x2000 8)).eval legible 0).1
        ((interposed (.read 5 0x2000 8)).eval legible 0).2.1 := by
  constructor
  · exact List.mem_of_getElem? (i := 4) rfl
  · rintro ⟨-, hshows⟩
    obtain ⟨bytes, hlength, hloads, -⟩ := hshows 0x2000 0 rfl
    have hcount := congrArg List.length hloads
    rw [length_loadsAt, hlength] at hcount
    exact absurd hcount (by decide)

end Logger
