import UnixProgramming.Sdb.Primitives
import UnixProgramming.Text.Numerals

/-!
# What `dump` shows

The rows of `dump` as text, and what a reader of the text finds in it: the label
in front of the colon, the columns up to the first bar, and the characters
between the bars.

* `rowText` — a row as the format strings of `dump` print it.
* `rowLabel_rowText`, `rowColumns_rowText`, `rowBars_rowText` — it is read back.
* `runs_dumpRows` — the loop prints the rows of `rowsFrom` and changes nothing else.
* `dump_shows_memory` — the text shows the eighty bytes from the given address on.
-/

namespace Sdb

open ByteMemory CString Requests

/-! ## A row as text -/

/-- The values of a row. -/
structure DumpRow where
  address : Word
  bytes : List Byte
  chars : List Char

/-- The columns of a row as text. -/
def columnsText (bytes : List Byte) : Str := bytes.flatMap fun b => numeral 16 2 b.toNat ++ [' ']

namespace DumpRow

/-- The message the row is printed as. -/
def msg (r : DumpRow) : Msg := .dumpRow r.address r.bytes r.chars

/-- The text of a row. -/
def text (r : DumpRow) : Str :=
  ['\t', '0', 'x'] ++ numeral 16 0 r.address.toNat ++ [':', ' '] ++ columnsText r.bytes ++
    ['\t', ' ', '|'] ++ r.chars ++ ['|', '\n']

end DumpRow

/-- What separates the columns. -/
def columnBlank (c : Char) : Bool := decide (c = ' ' ∨ c = '\t')

/-- The label of a row: the number in front of the colon. -/
def rowLabel (s : Str) : Word := strtoul (s.takeWhile (· ≠ ':')) 16

/-- The hexadecimal columns: the numbers between the colon and the first bar. -/
def rowColumns (s : Str) : List Word :=
  (words columnBlank (((s.dropWhile (· ≠ ':')).drop 1).takeWhile (· ≠ '|'))).map (strtoul · 16)

/-- The characters between the bars: the second bar ends the line. -/
def rowBars (s : Str) : Str := (((s.dropWhile (· ≠ '|')).drop 1).dropLast).dropLast

/-! ## Reading it back -/

theorem columnBlank_of_isDigit {c : Char} (h : isDigit 16 c = true) : columnBlank c = false := by
  rw [columnBlank, decide_eq_false_iff_not, not_or]
  exact ⟨ne_of_isDigit rfl h, ne_of_isDigit rfl h⟩

/-- The columns are words, and nothing else is between the colon and the bar. -/
theorem words_columnsText (bytes : List Byte) :
    words columnBlank (columnsText bytes ++ ['\t', ' ']) =
      bytes.map fun b => numeral 16 2 b.toNat := by
  have hcolumn : ∀ w ∈ bytes.map (fun b => numeral 16 2 b.toNat),
      w ≠ [] ∧ ∀ c ∈ w, columnBlank c = false := by
    intro w hw
    obtain ⟨b, -, rfl⟩ := List.mem_map.1 hw
    exact ⟨numeral_ne_nil 16 2 _, fun c hc =>
      columnBlank_of_isDigit (isDigit_numeral_sixteen 2 _ c hc)⟩
  have hwords := words_flatMap_sep (x := ' ') rfl hcolumn ['\t', ' ']
  rw [List.flatMap_map] at hwords
  rw [columnsText, hwords]
  exact List.append_nil _

theorem not_bar_of_mem_columnsText {bytes : List Byte} {c : Char} (hc : c ∈ columnsText bytes) :
    c ≠ '|' := by
  obtain ⟨b, -, hc⟩ := List.mem_flatMap.1 hc
  rcases List.mem_append.1 hc with hc | hc
  · exact ne_of_isDigit rfl (isDigit_numeral_sixteen 2 _ c hc)
  · rw [List.mem_singleton.1 hc]
    decide

theorem not_bar_of_mem_blanks {c : Char} (hc : c ∈ ['\t', ' ']) : c ≠ '|' := by
  have hc : c = '\t' ∨ c = ' ' := by simpa using hc
  rcases hc with rfl | rfl
  · decide
  · decide

namespace DumpRow

variable (r : DumpRow)

/-- The label, up to the colon. -/
def labelText : Str := '\t' :: '0' :: 'x' :: numeral 16 0 r.address.toNat

theorem text_eq_label : r.text =
    r.labelText ++ ':' ::
      (' ' :: columnsText r.bytes ++ ['\t', ' ', '|'] ++ r.chars ++ ['|', '\n']) := by
  simp [text, labelText]

theorem text_eq_bar : r.text =
    (r.labelText ++ ':' :: ' ' :: columnsText r.bytes ++ ['\t', ' ']) ++
      '|' :: (r.chars ++ ['|', '\n']) := by
  simp [text, labelText]

theorem not_colon_of_mem_labelText {c : Char} (hc : c ∈ r.labelText) : c ≠ ':' ∧ c ≠ '|' := by
  simp only [labelText, List.mem_cons] at hc
  rcases hc with rfl | rfl | rfl | hc
  · decide
  · decide
  · decide
  · exact ⟨ne_of_isDigit rfl (isDigit_numeral_sixteen 0 _ c hc),
      ne_of_isDigit rfl (isDigit_numeral_sixteen 0 _ c hc)⟩

theorem rowLabel_text : rowLabel r.text = r.address := by
  have hfree : ∀ c ∈ r.labelText, decide (c ≠ ':') = true := fun c hc =>
    decide_eq_true (r.not_colon_of_mem_labelText hc).1
  rw [rowLabel, text_eq_label, takeWhile_append_cons hfree rfl]
  exact strtoul_prefixed 0 rfl r.address

theorem rowColumns_text :
    rowColumns r.text = r.bytes.map fun b => b.setWidth 64 := by
  have hfree : ∀ c ∈ r.labelText, decide (c ≠ ':') = true := fun c hc =>
    decide_eq_true (r.not_colon_of_mem_labelText hc).1
  have hcut : ' ' :: columnsText r.bytes ++ ['\t', ' ', '|'] ++ r.chars ++ ['|', '\n'] =
      (' ' :: columnsText r.bytes ++ ['\t', ' ']) ++ '|' :: (r.chars ++ ['|', '\n']) := by
    simp
  have hnobar : ∀ c ∈ ' ' :: columnsText r.bytes ++ ['\t', ' '], decide (c ≠ '|') = true := by
    intro c hc
    refine decide_eq_true ?_
    rcases List.mem_append.1 hc with hc | hc
    · rcases List.mem_cons.1 hc with rfl | hc
      · decide
      · exact not_bar_of_mem_columnsText hc
    · exact not_bar_of_mem_blanks hc
  rw [rowColumns, text_eq_label, dropWhile_append_cons hfree rfl, List.drop_succ_cons,
    List.drop_zero, hcut, takeWhile_append_cons hnobar rfl, List.cons_append,
    words_cons_sep rfl, words_columnsText, List.map_map]
  apply List.map_congr_left
  intro b _
  have hval : b.toNat = (b.setWidth 64).toNat := by
    rw [BitVec.toNat_setWidth, Nat.mod_eq_of_lt (by have := b.isLt; omega)]
  rw [Function.comp_apply, hval]
  exact strtoul_numeral 2 _

theorem rowBars_text : rowBars r.text = r.chars := by
  have hnobar : ∀ c ∈ r.labelText ++ ':' :: ' ' :: columnsText r.bytes ++ ['\t', ' '],
      decide (c ≠ '|') = true := by
    intro c hc
    refine decide_eq_true ?_
    rcases List.mem_append.1 hc with hc | hc
    · rcases List.mem_append.1 hc with hc | hc
      · exact (r.not_colon_of_mem_labelText hc).2
      · rcases List.mem_cons.1 hc with rfl | hc
        · decide
        · rcases List.mem_cons.1 hc with rfl | hc
          · decide
          · exact not_bar_of_mem_columnsText hc
    · exact not_bar_of_mem_blanks hc
  rw [rowBars, text_eq_bar, dropWhile_append_cons hnobar rfl, List.drop_succ_cons, List.drop_zero,
    show r.chars ++ ['|', '\n'] = (r.chars ++ ['|']) ++ ['\n'] by simp, List.dropLast_concat,
    List.dropLast_concat]

end DumpRow

/-! ## The loops -/

/-- The `n` bytes from `a` on. -/
def block (m : Memory) (a : Addr) (n : Nat) : List Byte :=
  (List.range n).map fun k => m (offset a k)

theorem offset_offset (a : Addr) (j k : Nat) : offset (offset a j) k = offset a (j + k) := by
  rw [offset, offset, offset, BitVec.ofNat_add, BitVec.add_assoc]

theorem block_add (m : Memory) (a : Addr) (j k : Nat) :
    block m a (j + k) = block m a j ++ block m (offset a j) k := by
  rw [block, block, block, List.range_add, List.map_append, List.map_map]
  congr 1
  apply List.map_congr_left
  intro i _
  rw [Function.comp_apply, offset_offset]

theorem bytesOf_readWord (m : Memory) (a : Addr) : bytesOf (readWord m a) = block m a 8 :=
  List.map_congr_left fun _ hk => byteOf_readWord m a (List.mem_range.1 hk)

/-- The row at an address. -/
def rowAt (m : Memory) (a : Word) : DumpRow := ⟨a, block m a 16, (block m a 16).map dumpChar⟩

theorem address_rowAt (m : Memory) (a : Word) : (rowAt m a).address = a := rfl

/-- The rows of a dump: `n` of them, from `a` on. -/
def rowsFrom (m : Memory) : Nat → Word → List DumpRow
  | 0, _ => []
  | n + 1, a => rowAt m a :: rowsFrom m n (offset a 16)

section Runs

variable {env : Env} {f : Bool} {t : Tracee} {d : Debugger} {w' : World}

/-- The words of a row, with none of them refused. -/
theorem runs_dumpWords {p : Int} {a : Word} {n j : Nat}
    (hread : ∀ i, i < n → ¬ env.mayFail (.peektext p (offset a (8 * (j + i)))))
    {o : Result Fault (List Byte)} :
    Runs (kernel env) (dumpWords p a n j) ⟨f, .stopped p t⟩ o w' ↔
      o = .done (block t.mem (offset a (8 * j)) (8 * n)) ∧ w' = ⟨f, .stopped p t⟩ := by
  induction n generalizing j o w' with
  | zero => exact Iff.rfl
  | succ n ih =>
      have hrest : ∀ i, i < n → ¬ env.mayFail (.peektext p (offset a (8 * (j + 1 + i)))) := by
        intro i hi
        rw [show j + 1 + i = j + (i + 1) by omega]
        exact hread (i + 1) (by omega)
      have hfirst : ¬ env.mayFail (.peektext p (a + BitVec.ofNat 64 (j * 8))) := by
        rw [Nat.mul_comm j 8]
        exact hread 0 (by omega)
      have hbytes : block t.mem (offset a (8 * j)) (8 * (n + 1)) =
          bytesOf (readWord t.mem (a + BitVec.ofNat 64 (j * 8))) ++
            block t.mem (offset a (8 * (j + 1))) (8 * n) := by
        rw [show 8 * (n + 1) = 8 + 8 * n by omega, block_add, bytesOf_readWord, offset_offset,
          Nat.mul_comm j 8, show 8 * j + 8 = 8 * (j + 1) by omega]
      rw [dumpWords, Prog.ask_bind, runs_request]
      simp only [kernel_peektext, hfirst, false_and, and_false, or_false]
      rw [hbytes]
      have htail : ∀ o w', Runs (kernel env) (dumpWords p a n (j + 1)) ⟨f, .stopped p t⟩ o w' ↔
          o = .done (block t.mem (offset a (8 * (j + 1))) (8 * n)) ∧ w' = ⟨f, .stopped p t⟩ :=
        fun o w' => ih hrest
      constructor
      · rintro ⟨x, w₁, ⟨rfl, rfl⟩, hr⟩
        exact (runs_bind_of_done htail).1 hr
      · intro hr
        exact ⟨_, _, ⟨rfl, rfl⟩, (runs_bind_of_done htail).2 hr⟩

/-- The loop over the rows prints them and leaves everything else as it is. -/
theorem runs_dumpRows {n : Nat} {a : Word}
    (hread : ∀ i, i < 2 * n → ¬ env.mayFail (.peektext d.pid (offset a (8 * i))))
    {o : Result Fault Debugger} :
    Runs (kernel env) (dumpRows n a d) ⟨f, .stopped d.pid t⟩ o w' ↔
      o = .done { d with out := d.out ++ (rowsFrom t.mem n a).map DumpRow.msg } ∧
        w' = ⟨f, .stopped d.pid t⟩ := by
  induction n generalizing a d with
  | zero =>
      rw [rowsFrom, List.map_nil, List.append_nil]
      exact Iff.rfl
  | succ n ih =>
      have hrow : ∀ i, i < nDumpAmt → ¬ env.mayFail (.peektext d.pid (offset a (8 * (0 + i)))) := by
        intro i hi
        rw [Nat.zero_add]
        exact hread i (by rw [nDumpAmt] at hi; omega)
      have hwords : ∀ o w', Runs (kernel env) (dumpWords d.pid a nDumpAmt 0)
          ⟨f, .stopped d.pid t⟩ o w' ↔
            o = .done (block t.mem a 16) ∧ w' = ⟨f, .stopped d.pid t⟩ := by
        intro o w'
        rw [runs_dumpWords hrow, Nat.mul_zero, offset_zero]
        exact Iff.rfl
      have hrest : ∀ i, i < 2 * n →
          ¬ env.mayFail
            (.peektext (d.say (rowAt t.mem a).msg).pid (offset (offset a 16) (8 * i))) := by
        intro i hi
        rw [offset_offset, show 16 + 8 * i = 8 * (i + 2) by omega]
        exact hread (i + 2) (by omega)
      rw [dumpRows, runs_bind_of_done hwords, runs_bind_of_done hwords]
      refine (ih (d := d.say (rowAt t.mem a).msg) hrest).trans ?_
      simp [rowsFrom, Debugger.say]

/-- `dump` on an address below `2 ^ 63` whose words can be read. -/
theorem runs_dump (hr : d.state = .running) {c word : Str} {l : List Str} {a : Word}
    (ha : strtol word 0 = a.toNat)
    (hread : ∀ i, i < 10 → ¬ env.mayFail (.peektext d.pid (offset a (8 * i))))
    {o : Result Fault Debugger} :
    Runs (kernel env) (dump (c :: word :: l) d) ⟨f, .stopped d.pid t⟩ o w' ↔
      o = .done { d with out := d.out ++ (rowsFrom t.mem 5 a).map DumpRow.msg } ∧
        w' = ⟨f, .stopped d.pid t⟩ := by
  have hnum : BitVec.ofInt 64 (strtol word 0) = a := by
    rw [ha, BitVec.ofInt_natCast, BitVec.ofNat_toNat, BitVec.setWidth_eq]
  have hdump : dump (c :: word :: l) d = dumpRows 5 a d := by
    rw [dump, if_neg (not_not.2 hr)]
    exact congrArg (dumpRows 5 · d) hnum
  rw [hdump]
  exact runs_dumpRows hread

end Runs

/-! ## What the text shows -/

/-- The texts of the rows show the memory from `a` on. -/
structure ShowsMemory (m : Memory) (a : Word) (texts : List Str) : Prop where
  /-- The labels. -/
  labels : (texts.map fun s => (rowLabel s).toNat) = (List.range 5).map fun i => a.toNat + 16 * i
  /-- In ascending order. -/
  ascending : (texts.map rowLabel).Pairwise (· < ·)
  /-- The columns are the bytes. -/
  columns : texts.flatMap rowColumns = (List.range 80).map fun k => (m (offset a k)).setWidth 64
  /-- The addresses do not wrap around, so each byte is there once. -/
  addresses : ∀ k, k < 80 → (offset a k).toNat = a.toNat + k
  /-- Between the bars each byte of the row has its character. -/
  chars : ∀ s ∈ texts, rowBars s =
    (rowColumns s).map fun b => if 0x20 ≤ b ∧ b ≤ 0x7e then Char.ofNat b.toNat else '.'

/-- What a row adds to the columns. -/
theorem flatMap_bytes_rowsFrom (m : Memory) (n : Nat) (a : Word) :
    ((rowsFrom m n a).flatMap fun r => r.bytes) = block m a (16 * n) := by
  induction n generalizing a with
  | zero => rfl
  | succ n ih =>
      rw [rowsFrom, List.flatMap_cons, ih, show 16 * (n + 1) = 16 + 16 * n by omega, block_add]
      rfl

theorem rowsFrom_eq_map (m : Memory) (n : Nat) (a : Word) :
    rowsFrom m n a = (List.range n).map fun i => rowAt m (offset a (16 * i)) := by
  induction n generalizing a with
  | zero => rfl
  | succ n ih =>
      rw [rowsFrom, ih, List.range_succ_eq_map, List.map_cons, List.map_map, Nat.mul_zero,
        offset_zero]
      congr 1
      apply List.map_congr_left
      intro i _
      rw [Function.comp_apply, offset_offset, show 16 + 16 * i = 16 * (i + 1) by omega]

/-- The character of a byte, from the number in its column. -/
theorem dumpChar_eq (b : Byte) :
    dumpChar b = if 0x20 ≤ b.setWidth 64 ∧ b.setWidth 64 ≤ 0x7e#64 then
      Char.ofNat (b.setWidth 64).toNat else '.' := by
  have hval : (b.setWidth 64).toNat = b.toNat := by
    rw [BitVec.toNat_setWidth, Nat.mod_eq_of_lt (by have := b.isLt; omega)]
  have hrange : (0x20 ≤ b.setWidth 64 ∧ b.setWidth 64 ≤ 0x7e#64) ↔ isprint b = true := by
    rw [isprint, decide_eq_true_eq, BitVec.le_def, BitVec.le_def, hval]
    exact Iff.rfl
  rw [dumpChar]
  simp only [hrange, hval]

theorem showsMemory_rowsFrom (m : Memory) {a : Word} (ha : a.toNat < 2 ^ 63) :
    ShowsMemory m a ((rowsFrom m 5 a).map DumpRow.text) := by
  have haddr : ∀ k, k < 80 → (offset a k).toNat = a.toNat + k := by
    intro k hk
    rw [offset, BitVec.toNat_add, BitVec.toNat_ofNat]
    omega
  have hlabels : ((rowsFrom m 5 a).map DumpRow.text).map rowLabel =
      (List.range 5).map fun i => offset a (16 * i) := by
    rw [List.map_map, rowsFrom_eq_map, List.map_map]
    apply List.map_congr_left
    intro i _
    rw [Function.comp_apply, Function.comp_apply, DumpRow.rowLabel_text, address_rowAt]
  refine ⟨?_, ?_, ?_, haddr, ?_⟩
  · have hnat : (((rowsFrom m 5 a).map DumpRow.text).map fun s => (rowLabel s).toNat) =
        (((rowsFrom m 5 a).map DumpRow.text).map rowLabel).map BitVec.toNat := by
      rw [List.map_map]
      rfl
    rw [hnat, hlabels, List.map_map]
    apply List.map_congr_left
    intro i hi
    exact haddr _ (by have := List.mem_range.1 hi; omega)
  · rw [hlabels, List.pairwise_map]
    refine List.pairwise_lt_range.imp_of_mem fun {i j} hi hj hij => ?_
    have hi := List.mem_range.1 hi
    have hj := List.mem_range.1 hj
    rw [BitVec.lt_def, haddr _ (by omega), haddr _ (by omega)]
    omega
  · rw [List.flatMap_map]
    simp only [DumpRow.rowColumns_text]
    rw [← List.map_flatMap, flatMap_bytes_rowsFrom, block, List.map_map]
    rfl
  · intro s hs
    obtain ⟨r, hr, rfl⟩ := List.mem_map.1 hs
    rw [rowsFrom_eq_map] at hr
    obtain ⟨i, -, rfl⟩ := List.mem_map.1 hr
    rw [DumpRow.rowBars_text, DumpRow.rowColumns_text, List.map_map]
    exact List.map_congr_left fun b _ => dumpChar_eq b

/-- A line `dump a` with `a` below `2 ^ 63`, the memory being readable: the rows
show the bytes from `a` to `a + 79` as they are in the tracee, planted traps
included. -/
theorem dump_shows_memory (cs : Capstone) {env : Env} {d : Debugger} (hr : d.state = .running)
    {f : Bool} {t : Tracee} {line c word : Str} {l : List Str}
    (hc : c ∈ ArgCommand.dump.names) (hwords : dbgcmdParser line ' ' = c :: word :: l) {a : Word}
    (ha : strtol word 0 = a.toNat) (hbound : a.toNat < 2 ^ 63)
    (hread : ∀ i, i < 10 → ¬ env.mayFail (.peektext d.pid (offset a (8 * i)))) :
    ∃ rows : List DumpRow,
      (∀ o w', Runs (kernel env) (commandLoop cs line d) ⟨f, .stopped d.pid t⟩ o w' ↔
        o = .done (.next { d with out := d.out ++ rows.map DumpRow.msg }) ∧
          w' = ⟨f, .stopped d.pid t⟩) ∧
        ShowsMemory t.mem a (rows.map DumpRow.text) := by
  refine ⟨rowsFrom t.mem 5 a, fun o w' => ?_, showsMemory_rowsFrom t.mem hbound⟩
  have hdump : ∀ o w', Runs (kernel env) (ArgCommand.dump.run cs (c :: word :: l) d)
      ⟨f, .stopped d.pid t⟩ o w' ↔
        o = .done { d with out := d.out ++ (rowsFrom t.mem 5 a).map DumpRow.msg } ∧
          w' = ⟨f, .stopped d.pid t⟩ := fun o w' =>
    runs_dump (c := c) (l := l) hr ha hread
  rw [commandLoop_argCommand cs .dump hc hwords, runs_bind_of_done hdump]
  exact Iff.rfl

theorem Sample.words_dumpLine :
    dbgcmdParser "x 0x1000".toList ' ' = ["x".toList, "0x1000".toList] := by
  rw [dbgcmdParser_eq]
  rfl

/-- The dump at a breakpoint begins with its trap. -/
theorem dump_shows_planted : ∃ rows : List DumpRow,
    (∀ o w', Runs (kernel Sample.quiet)
        (commandLoop Sample.capstone "x 0x1000".toList Sample.planted)
        ⟨false, .stopped 1 Sample.trapped⟩ o w' ↔
      o = .done (.next { Sample.planted with
        out := Sample.planted.out ++ rows.map DumpRow.msg }) ∧
        w' = ⟨false, .stopped 1 Sample.trapped⟩) ∧
      ShowsMemory Sample.trapped.mem 0x1000 (rows.map DumpRow.text) ∧
      ((rows.map DumpRow.text).flatMap rowColumns)[0]? = some 0xcc := by
  obtain ⟨rows, hruns, hshows⟩ := dump_shows_memory Sample.capstone (d := Sample.planted)
    (t := Sample.trapped) (a := 0x1000) rfl (by decide) Sample.words_dumpLine (by decide)
    (by decide) fun _ _ => Sample.quiet_grants.peektext _ _
  refine ⟨rows, hruns, hshows, ?_⟩
  rw [hshows.columns]
  rfl

end Sdb
