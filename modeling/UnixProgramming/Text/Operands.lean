import UnixProgramming.Text.Getopt

/-!
# Operands

What `getopt` leaves of a command line.  Operands among the options are passed over and end
up, in their order, in front of what follows the options; with `POSIXLY_CORRECT` the first
operand ends the options.

* `operands` — `argv` from `optind` on, after the last call.
* `Item`, `getopt_items` — options and operands in any order are taken apart.
* `getopt_posix` — with `POSIXLY_CORRECT` everything from the first operand on is left.
* `length_operands_lt` — otherwise a word that looks like an option is not left.
-/

namespace Getopt

open CString

/-- The word looks like an option. -/
def isOption : Str → Bool
  | '-' :: _ :: _ => true
  | _ => false

/-- The operands a call passes over. -/
def passedOver (posixlyCorrect : Bool) : List Str → List Str
  | [] => []
  | w :: rest =>
      if isOption w = true ∨ posixlyCorrect = true then []
      else w :: passedOver posixlyCorrect rest

/-- What is behind them where no options follow; two dashes are taken away. -/
def leftBehind (posixlyCorrect : Bool) : List Str → List Str
  | [] => []
  | w :: rest =>
      if isOption w = true then rest
      else if posixlyCorrect = true then w :: rest
      else leftBehind posixlyCorrect rest

/-- `argv` from `optind` on, after the last call. -/
def operands (optstring : Str) (posixlyCorrect : Bool) (s : Scanner) : List Str :=
  let passed := if s.nextchar = [] then passedOver posixlyCorrect s.argv else []
  match _h : getopt optstring posixlyCorrect s with
  | none => passed ++ leftBehind posixlyCorrect s.argv
  | some (_, s') => passed ++ operands optstring posixlyCorrect s'
termination_by s.size
decreasing_by exact size_getopt _h

variable {optstring : Str} {posixlyCorrect : Bool}

theorem operands_of_none {argv : List Str}
    (h : getopt optstring posixlyCorrect ⟨[], argv⟩ = none) :
    operands optstring posixlyCorrect ⟨[], argv⟩ =
      passedOver posixlyCorrect argv ++ leftBehind posixlyCorrect argv := by
  rw [operands]
  split
  · rfl
  · next h' => rw [h] at h'; cases h'

theorem operands_of_some {s s' : Scanner} {r : Returned}
    (h : getopt optstring posixlyCorrect s = some (r, s')) :
    operands optstring posixlyCorrect s =
      (if s.nextchar = [] then passedOver posixlyCorrect s.argv else []) ++
        operands optstring posixlyCorrect s' := by
  rw [operands]
  split
  · next h' => rw [h] at h'; cases h'
  · next h' =>
      rw [h] at h'
      cases h'
      rfl

/-! ## One word -/

theorem isOption_eq_true {w : Str} (h : isOption w = true) : ∃ c cs, w = '-' :: c :: cs := by
  unfold isOption at h
  split at h
  · next c cs => exact ⟨c, cs, rfl⟩
  · cases h

/-- An operand is passed over, or ends the options. -/
theorem nextArgument_operand {w : Str} (h : isOption w = false) (rest : List Str) :
    nextArgument posixlyCorrect (w :: rest) =
      if posixlyCorrect = true then none else nextArgument posixlyCorrect rest := by
  rw [nextArgument]
  rintro c cs rfl
  cases h

theorem getopt_operand {w : Str} (h : isOption w = false) (rest : List Str) :
    getopt optstring false ⟨[], w :: rest⟩ = getopt optstring false ⟨[], rest⟩ := by
  have hnext : nextArgument false (w :: rest) = nextArgument false rest := by
    rw [nextArgument_operand h, if_neg Bool.false_ne_true]
  simp only [getopt, Scanner.next, hnext]

/-- The calls do not see it. -/
theorem calls_operand {w : Str} (h : isOption w = false) (rest : List Str) :
    calls optstring false ⟨[], w :: rest⟩ = calls optstring false ⟨[], rest⟩ := by
  cases hget : getopt optstring false ⟨[], rest⟩ with
  | none => rw [calls_of_none hget, calls_of_none ((getopt_operand h rest).trans hget)]
  | some x =>
      obtain ⟨r, s⟩ := x
      rw [calls_of_some hget, calls_of_some ((getopt_operand h rest).trans hget)]

theorem passedOver_operand {w : Str} (h : isOption w = false) (rest : List Str) :
    passedOver false (w :: rest) = w :: passedOver false rest := by
  rw [passedOver, if_neg (by simp [h])]

/-- It is left. -/
theorem operands_operand {w : Str} (h : isOption w = false) (rest : List Str) :
    operands optstring false ⟨[], w :: rest⟩ = w :: operands optstring false ⟨[], rest⟩ := by
  cases hget : getopt optstring false ⟨[], rest⟩ with
  | none =>
      have hleft : leftBehind false (w :: rest) = leftBehind false rest := by
        rw [leftBehind, if_neg (by simp [h]), if_neg Bool.false_ne_true]
      rw [operands_of_none hget, operands_of_none ((getopt_operand h rest).trans hget),
        passedOver_operand h, hleft]
      rfl
  | some x =>
      obtain ⟨r, s⟩ := x
      rw [operands_of_some hget, operands_of_some ((getopt_operand h rest).trans hget),
        if_pos rfl, if_pos rfl, passedOver_operand h]
      rfl

/-- Two dashes. -/
def dashes : Str := ['-', '-']

theorem isOption_dashes : isOption dashes = true := rfl

theorem getopt_dashes (rest : List Str) :
    getopt optstring posixlyCorrect ⟨[], dashes :: rest⟩ = none := rfl

/-- They are taken away, and all behind them is left. -/
theorem operands_dashes (rest : List Str) :
    operands optstring posixlyCorrect ⟨[], dashes :: rest⟩ = rest := by
  rw [operands_of_none (getopt_dashes rest), passedOver, leftBehind,
    if_pos (Or.inl isOption_dashes), if_pos isOption_dashes, List.nil_append]

theorem operands_nil : operands optstring posixlyCorrect ⟨[], []⟩ = [] := by
  rw [operands_of_none rfl, passedOver, leftBehind, List.nil_append]

/-- Options that were given are read, and nothing of them is left. -/
theorem operands_given (g : Given optstring) (rest : List Str) :
    operands optstring posixlyCorrect ⟨[], g.words ++ rest⟩ =
      operands optstring posixlyCorrect ⟨[], rest⟩ := by
  have hpassed : passedOver posixlyCorrect (g.words ++ rest) = [] := by
    rw [Given.words]
    cases hjoined : g.joined with
    | false => exact if_pos (Or.inl rfl)
    | true => exact if_pos (Or.inl rfl)
  rw [operands_of_some (getopt_given g rest), if_pos rfl, hpassed, List.nil_append]

/-! ## Options and operands -/

/-- A word, or the words of an option, on a command line. -/
inductive Item (optstring : Str) where
  | option (g : Given optstring)
  | operand (w : Str) (h : isOption w = false)

namespace Item

/-- The words it is written in. -/
def words : Item optstring → List Str
  | .option g => g.words
  | .operand w _ => [w]

/-- The option, if it is one. -/
def option? : Item optstring → Option (Given optstring)
  | .option g => some g
  | .operand _ _ => none

/-- The operand, if it is one. -/
def operand? : Item optstring → Option Str
  | .option _ => none
  | .operand w _ => some w

end Item

/-- **Options and operands in any order.**  The calls return the options, and what is left are
the operands, in their order, before what is left of the words behind. -/
theorem getopt_items (items : List (Item optstring)) (rest : List Str) :
    calls optstring false ⟨[], items.flatMap Item.words ++ rest⟩ =
        (items.filterMap Item.option?).map Given.returned ++ calls optstring false ⟨[], rest⟩ ∧
      operands optstring false ⟨[], items.flatMap Item.words ++ rest⟩ =
        items.filterMap Item.operand? ++ operands optstring false ⟨[], rest⟩ := by
  induction items with
  | nil => exact ⟨rfl, rfl⟩
  | cons item items ih =>
      rw [List.flatMap_cons, List.append_assoc]
      cases item with
      | option g =>
          refine ⟨?_, ?_⟩
          · exact (calls_of_some (getopt_given g _)).trans (congrArg (g.returned :: ·) ih.1)
          · exact (operands_given g _).trans ih.2
      | operand w h =>
          refine ⟨?_, ?_⟩
          · exact (calls_operand h _).trans ih.1
          · exact (operands_operand h _).trans (congrArg (w :: ·) ih.2)

/-- After options the calls go on with what follows them. -/
theorem calls_given_append (gs : List (Given optstring)) (rest : List Str) :
    calls optstring posixlyCorrect ⟨[], gs.flatMap Given.words ++ rest⟩ =
      gs.map Given.returned ++ calls optstring posixlyCorrect ⟨[], rest⟩ := by
  induction gs with
  | nil => rfl
  | cons g gs ih =>
      rw [List.flatMap_cons, List.append_assoc, calls_of_some (getopt_given g _), ih, List.map_cons,
        List.cons_append]

theorem operands_given_append (gs : List (Given optstring)) (rest : List Str) :
    operands optstring posixlyCorrect ⟨[], gs.flatMap Given.words ++ rest⟩ =
      operands optstring posixlyCorrect ⟨[], rest⟩ := by
  induction gs with
  | nil => rfl
  | cons g gs ih => rw [List.flatMap_cons, List.append_assoc, operands_given g _, ih]

/-- With `POSIXLY_CORRECT` the first operand ends the options. -/
theorem getopt_posix {w : Str} (h : isOption w = false) (rest : List Str) :
    calls optstring true ⟨[], w :: rest⟩ = [] ∧
      operands optstring true ⟨[], w :: rest⟩ = w :: rest := by
  have hnone : getopt optstring true ⟨[], w :: rest⟩ = none := by
    have hnext : nextArgument true (w :: rest) = none := by
      rw [nextArgument_operand h, if_pos rfl]
    simp only [getopt, Scanner.next, hnext, Option.map_none]
  refine ⟨calls_of_none hnone, ?_⟩
  rw [operands_of_none hnone, passedOver, leftBehind, if_pos (Or.inr rfl),
    if_neg (by simp [h]), if_pos rfl, List.nil_append]

/-- Operands alone are all left. -/
theorem getopt_operands {ws : List Str} (h : ∀ w ∈ ws, isOption w = false) :
    calls optstring false ⟨[], ws⟩ = [] ∧ operands optstring false ⟨[], ws⟩ = ws := by
  induction ws with
  | nil => exact ⟨calls_of_none rfl, operands_nil⟩
  | cons w ws ih =>
      obtain ⟨hw, hrest⟩ := List.forall_mem_cons.1 h
      rw [calls_operand hw, operands_operand hw, (ih hrest).1, (ih hrest).2]
      exact ⟨rfl, rfl⟩

/-- The argument last given with an option, or what it was. -/
def lastGiven (c : Char) (gs : List (Given optstring)) (d : Str) : Str :=
  ((gs.filter fun g => g.letter = c).getLast?.map Given.optarg).getD d

theorem lastGiven_cons (c : Char) (g : Given optstring) (gs : List (Given optstring)) (d : Str) :
    lastGiven c (g :: gs) d = lastGiven c gs (if g.letter = c then g.optarg else d) := by
  by_cases h : g.letter = c
  · rw [lastGiven, List.filter_cons_of_pos (by simp [h]), List.getLast?_cons, lastGiven, if_pos h]
    cases (gs.filter fun g => g.letter = c).getLast? <;> rfl
  · rw [lastGiven, List.filter_cons_of_neg (by simp [h]), lastGiven, if_neg h]

/-! ## Less is left -/

/-- What is passed over, and what is left to read, is no more than there was, and less if an
option was read. -/
theorem length_passedOver {argv : List Str} {c : Char} {s : Scanner}
    (h : nextArgument posixlyCorrect argv = some (c, s)) :
    (passedOver posixlyCorrect argv).length + s.argv.length < argv.length := by
  induction argv with
  | nil => cases h
  | cons w rest ih =>
      cases hw : isOption w with
      | true =>
          obtain ⟨d, cs, rfl⟩ := isOption_eq_true hw
          rw [nextArgument] at h
          split at h
          · cases h
          · cases h
            rw [passedOver, if_pos (Or.inl hw)]
            simp
      | false =>
          rw [nextArgument_operand hw] at h
          cases posixlyCorrect with
          | true => cases h
          | false =>
              rw [if_neg Bool.false_ne_true] at h
              have hlt := ih h
              rw [passedOver_operand hw, List.length_cons, List.length_cons]
              omega

theorem length_answer (c : Char) (s : Scanner) :
    (answer optstring c s).2.argv.length ≤ s.argv.length := by
  obtain ⟨nextchar, argv⟩ := s
  rw [answer]
  split
  · exact le_rfl
  · exact le_rfl
  · split
    · exact le_rfl
    · simp_all
    · simp_all

/-- A call that reads an option at the front of a word leaves less than there was. -/
theorem length_getopt {argv : List Str} {r : Returned} {s : Scanner}
    (h : getopt optstring posixlyCorrect ⟨[], argv⟩ = some (r, s)) :
    (passedOver posixlyCorrect argv).length + s.argv.length < argv.length := by
  rw [getopt, Option.map_eq_some_iff] at h
  obtain ⟨⟨c, t⟩, hnext, hanswer⟩ := h
  have hle : (answer optstring c t).2.argv.length ≤ t.argv.length := length_answer c t
  rw [hanswer] at hle
  have hlt : (passedOver posixlyCorrect argv).length + t.argv.length < argv.length :=
    length_passedOver hnext
  exact lt_of_le_of_lt (Nat.add_le_add_left hle _) hlt

theorem length_leftBehind (argv : List Str) :
    (passedOver posixlyCorrect argv).length + (leftBehind posixlyCorrect argv).length ≤
      argv.length := by
  induction argv with
  | nil => exact le_rfl
  | cons w rest ih =>
      rw [passedOver, leftBehind]
      by_cases hw : isOption w = true
      · rw [if_pos (Or.inl hw), if_pos hw]
        simp
      · by_cases hposix : posixlyCorrect = true
        · rw [if_pos (Or.inr hposix), if_neg hw, if_pos hposix]
          simp
        · rw [if_neg (by simp [hw, hposix]), if_neg hw, if_neg hposix, List.length_cons,
            List.length_cons]
          omega

theorem length_leftBehind_lt {argv : List Str} (h : ∃ w ∈ argv, isOption w = true) :
    (passedOver false argv).length + (leftBehind false argv).length < argv.length := by
  induction argv with
  | nil =>
      obtain ⟨w, hmem, -⟩ := h
      cases hmem
  | cons w rest ih =>
      rw [passedOver, leftBehind]
      by_cases hw : isOption w = true
      · rw [if_pos (Or.inl hw), if_pos hw]
        simp
      · have hrest : ∃ v ∈ rest, isOption v = true := by
          obtain ⟨v, hmem, hv⟩ := h
          rcases List.mem_cons.1 hmem with rfl | hmem
          · exact absurd hv hw
          · exact ⟨v, hmem, hv⟩
        have hlt := ih hrest
        rw [if_neg (by simp [hw]), if_neg hw, if_neg Bool.false_ne_true, List.length_cons,
          List.length_cons]
        omega

/-- No more is left than there was.  Induction on how much there is to read. -/
theorem length_operands_le (s : Scanner) :
    (operands optstring posixlyCorrect s).length ≤ s.argv.length := by
  induction hn : s.size using Nat.strong_induction_on generalizing s with
  | _ n ih =>
      obtain ⟨nextchar, argv⟩ := s
      cases hget : getopt optstring posixlyCorrect ⟨nextchar, argv⟩ with
      | none =>
          cases nextchar with
          | nil =>
              rw [operands_of_none hget, List.length_append]
              exact length_leftBehind argv
          | cons c cs => cases hget
      | some x =>
          obtain ⟨r, s'⟩ := x
          have hsmaller : s'.size < n := hn ▸ size_getopt hget
          have hrest := ih s'.size hsmaller s' rfl
          rw [operands_of_some hget, List.length_append]
          cases nextchar with
          | nil =>
              have hlt := length_getopt hget
              rw [if_pos rfl]
              exact (Nat.add_le_add_left hrest _).trans hlt.le
          | cons c cs =>
              have hanswer : answer optstring c ⟨cs, argv⟩ = (r, s') := Option.some.inj hget
              have hle : (answer optstring c ⟨cs, argv⟩).2.argv.length ≤ argv.length :=
                length_answer c ⟨cs, argv⟩
              rw [hanswer] at hle
              rw [if_neg (List.cons_ne_nil c cs), List.length_nil, Nat.zero_add]
              exact hrest.trans hle

/-- **A word that looks like an option is not left**, nor are two dashes. -/
theorem length_operands_lt {ws : List Str} (h : ∃ w ∈ ws, isOption w = true) :
    (operands optstring false ⟨[], ws⟩).length < ws.length := by
  cases hget : getopt optstring false ⟨[], ws⟩ with
  | none =>
      rw [operands_of_none hget, List.length_append]
      exact length_leftBehind_lt h
  | some x =>
      obtain ⟨r, s⟩ := x
      have hlt := length_getopt hget
      have hle : (operands optstring false s).length ≤ s.argv.length := length_operands_le s
      rw [operands_of_some hget, if_pos rfl, List.length_append]
      exact lt_of_le_of_lt (Nat.add_le_add_left hle _) hlt

end Getopt
