import UnixProgramming.Text.Getopt

/-!
# The options

`argument_parser` goes through the options with `getopt` and puts the expression given
with each into its filter.  A type is checked against the filter of types, which a type
given before has replaced.

* `Ecmascript` — what is used of the library of regular expressions.
* `argumentParser`, `defaults` — the code.
* `options_of_chain`, `options_of_not_chain` — it accepts when every type is matched by
  the one before it.
* `chain_iff` — that is, when they are one and the same type.
* `independent_iff` — when the options do not depend on each other.
-/

namespace Lsof

open CString Getopt

/-! ## The code -/

/-- Regular expressions by their texts: which `assign` accepts, and what `regex_match`
says of a text and an expression.  Between bars, letters stand for themselves. -/
structure Ecmascript where
  assigns : Str → Bool
  regexMatch : Str → Str → Bool
  assigns_plain : ∀ e : Str, (∀ c ∈ e, c.isAlpha ∨ c = '|') → assigns e = true
  match_plain : ∀ e : Str, (∀ c ∈ e, c.isAlpha ∨ c = '|') →
    ∀ s, regexMatch s e = true ↔ s ∈ e.splitOn '|'

/-- The three filters, by the texts of their expressions. -/
structure Expressions where
  command : Str
  type : Str
  fileName : Str

/-- How `argument_parser` ends: with a result, the filters and what it has printed, or
with an expression that is none. -/
inductive Parsed where
  | returned (accepted : Bool) (filters : Expressions) (out : Str)
  | regexError

/-- The options it knows. -/
def optstring : Str := ['c', ':', 't', ':', 'f', ':']

def invalidType : Str := "Invalid TYPE option\n".toList

/-- The loop of `argument_parser`, over what `getopt` returns. -/
def options (re : Ecmascript) : List Returned → Expressions → Parsed
  | [], filters => .returned true filters []
  | .option 'c' (some optarg) :: rest, filters =>
      if re.assigns optarg then options re rest { filters with command := optarg }
      else .regexError
  | .option 't' (some optarg) :: rest, filters =>
      if re.regexMatch optarg filters.type = false then .returned false filters invalidType
      else if re.assigns optarg then options re rest { filters with type := optarg }
      else .regexError
  | .option 'f' (some optarg) :: rest, filters =>
      if re.assigns optarg then options re rest { filters with fileName := optarg }
      else .regexError
  | _ :: rest, filters => options re rest filters

/-- `argument_parser`. -/
def argumentParser (re : Ecmascript) (posixlyCorrect : Bool) (argv : List Str)
    (filters : Expressions) : Parsed :=
  options re (calls optstring posixlyCorrect ⟨[], argv.tail⟩) filters

/-- The filter of types `main` starts with; the last alternative is empty. -/
def defaultType : Str :=
  ['R', 'E', 'G', '|', 'C', 'H', 'R', '|', 'D', 'I', 'R', '|', 'F', 'I', 'F', 'O', '|',
    'S', 'O', 'C', 'K', '|', 'u', 'n', 'k', 'n', 'o', 'w', 'n', '|']

/-- The filters `main` starts with. -/
def defaults : Expressions where
  command := ['.', '*']
  type := defaultType
  fileName := ['.', '*']

/-! ## Types -/

/-- The valid types. -/
def types : List Str :=
  [['R', 'E', 'G'], ['C', 'H', 'R'], ['D', 'I', 'R'], ['F', 'I', 'F', 'O'],
    ['S', 'O', 'C', 'K'], ['u', 'n', 'k', 'n', 'o', 'w', 'n'], []]

theorem splitOn_defaultType : defaultType.splitOn '|' = types := by decide

theorem splitOn_type {t : Str} (ht : t ∈ types) : t.splitOn '|' = [t] := by
  have hbar : '|' ∉ t := by
    revert t
    decide
  exact List.splitOn_eq_singleton hbar

theorem plain_type {t : Str} (ht : t ∈ types) : ∀ c ∈ t, c.isAlpha ∨ c = '|' := by
  simp only [types, List.mem_cons, List.not_mem_nil, or_false] at ht
  rcases ht with rfl | rfl | rfl | rfl | rfl | rfl | rfl
  all_goals simp

theorem plain_defaultType : ∀ c ∈ defaultType, c.isAlpha ∨ c = '|' := by
  simp [defaultType]

section Match

variable (re : Ecmascript)

theorem match_defaultType (s : Str) : re.regexMatch s defaultType = true ↔ s ∈ types := by
  rw [re.match_plain defaultType plain_defaultType, splitOn_defaultType]

/-- A type as a filter lets only itself through. -/
theorem match_type {t : Str} (ht : t ∈ types) (s : Str) :
    re.regexMatch s t = true ↔ s = t := by
  rw [re.match_plain t (plain_type ht), splitOn_type ht, List.mem_singleton]

/-- The filter of types is the one `main` starts with, or a type. -/
def TypeFilter (e : Str) : Prop := e = defaultType ∨ e ∈ types

theorem TypeFilter.mem_of_match {e s : Str} (he : TypeFilter e)
    (h : re.regexMatch s e = true) : s ∈ types := by
  rcases he with rfl | he
  · exact (match_defaultType re s).1 h
  · rw [(match_type re he s).1 h]
    exact he

end Match

/-! ## What is given -/

variable {g : Given optstring} {gs : List (Given optstring)}

theorem letter_cases (g : Given optstring) : g.letter = 'c' ∨ g.letter = 't' ∨ g.letter = 'f' := by
  have htakes := g.takes
  simp only [takesArgument, takesArgument.look, optstring, List.head?_cons, List.head?_nil,
    Option.some.injEq] at htakes
  by_contra hletter
  simp only [not_or] at hletter
  split at htakes
  · cases htakes
  · next hcolon =>
      rw [not_or] at hcolon
      rw [if_neg (Ne.symm hletter.1), if_neg (Ne.symm hcolon.1), if_neg (Ne.symm hletter.2.1),
        if_neg (Ne.symm hcolon.1), if_neg (Ne.symm hletter.2.2),
        if_neg (Ne.symm hcolon.1)] at htakes
      cases htakes

/-- The arguments given with an option, in their order. -/
def argumentsOf (c : Char) (gs : List (Given optstring)) : List Str :=
  (gs.filter fun g => g.letter = c).map Given.optarg

theorem argumentsOf_cons_self {c : Char} (h : g.letter = c) :
    argumentsOf c (g :: gs) = g.optarg :: argumentsOf c gs := by
  rw [argumentsOf, List.filter_cons_of_pos (by simp [h]), List.map_cons, argumentsOf]

theorem argumentsOf_cons_ne {c : Char} (h : g.letter ≠ c) :
    argumentsOf c (g :: gs) = argumentsOf c gs := by
  rw [argumentsOf, List.filter_cons_of_neg (by simp [h]), argumentsOf]

/-- The last of them, or the filter as it was. -/
def lastArgument (c : Char) (gs : List (Given optstring)) (filter : Str) : Str :=
  (argumentsOf c gs).getLast?.getD filter

/-- The filters after these options, each taken for itself. -/
def Expressions.after (filters : Expressions) (gs : List (Given optstring)) : Expressions where
  command := lastArgument 'c' gs filters.command
  type := lastArgument 't' gs filters.type
  fileName := lastArgument 'f' gs filters.fileName

theorem lastArgument_cons (c : Char) (gs : List (Given optstring)) (filter : Str) :
    lastArgument c (g :: gs) filter = lastArgument c gs (lastArgument c [g] filter) := by
  by_cases h : g.letter = c
  · rw [lastArgument, argumentsOf_cons_self h, List.getLast?_cons, lastArgument, lastArgument,
      argumentsOf_cons_self h]
    rfl
  · rw [lastArgument, argumentsOf_cons_ne h, lastArgument, lastArgument, argumentsOf_cons_ne h]
    rfl

theorem after_cons (filters : Expressions) (gs : List (Given optstring)) :
    filters.after (g :: gs) = (filters.after [g]).after gs := by
  simp only [Expressions.after, lastArgument_cons _ gs]

theorem after_nil (filters : Expressions) : filters.after [] = filters := rfl

/-! ## The loop -/

variable {re : Ecmascript} {filters : Expressions}

/-- Every type is matched by the one before it. -/
def Chained (re : Ecmascript) (e : Str) (ts : List Str) : Prop :=
  List.IsChain (fun e t => re.regexMatch t e = true) (e :: ts)

theorem type_after_singleton (filters : Expressions) :
    (filters.after [g]).type = if g.letter = 't' then g.optarg else filters.type := by
  change lastArgument 't' [g] filters.type = _
  rw [lastArgument]
  split
  · next h =>
      rw [argumentsOf_cons_self h]
      rfl
  · next h =>
      rw [argumentsOf_cons_ne h]
      rfl

/-- A step of a chain, when there is one to take. -/
theorem chained_cons :
    Chained re filters.type (argumentsOf 't' (g :: gs)) ↔
      (g.letter = 't' → re.regexMatch g.optarg filters.type = true) ∧
        Chained re (filters.after [g]).type (argumentsOf 't' gs) := by
  rw [type_after_singleton]
  by_cases h : g.letter = 't'
  · rw [argumentsOf_cons_self h, if_pos h, Chained, List.isChain_cons_cons, Chained]
    simp [h]
  · rw [argumentsOf_cons_ne h, if_neg h]
    simp [h]

theorem typeFilter_after (htype : TypeFilter filters.type)
    (hmatch : g.letter = 't' → re.regexMatch g.optarg filters.type = true) :
    TypeFilter (filters.after [g]).type := by
  rw [type_after_singleton]
  split
  · next h => exact Or.inr (htype.mem_of_match re (hmatch h))
  · exact htype

/-- An option that is let through sets its own filter. -/
theorem options_accept (rest : List Returned) (htype : TypeFilter filters.type)
    (hassigns : g.letter ≠ 't' → re.assigns g.optarg = true)
    (hmatch : g.letter = 't' → re.regexMatch g.optarg filters.type = true) :
    options re (g.returned :: rest) filters = options re rest (filters.after [g]) := by
  obtain ⟨letter, optarg, joined, takes, notDash, nonempty⟩ := g
  rcases letter_cases ⟨letter, optarg, joined, takes, notDash, nonempty⟩ with rfl | rfl | rfl
  · have hassign : re.assigns optarg = true := hassigns (by simp)
    rw [Given.returned, options, if_pos hassign]
    rfl
  · have hmatches : re.regexMatch optarg filters.type = true := hmatch rfl
    have hassign : re.assigns optarg = true :=
      re.assigns_plain optarg (plain_type (htype.mem_of_match re hmatches))
    rw [Given.returned, options, if_neg (by rw [hmatches]; decide), if_pos hassign]
    rfl
  · have hassign : re.assigns optarg = true := hassigns (by simp)
    rw [Given.returned, options, if_pos hassign]
    rfl

/-- A type that the filter of types does not match stops the loop. -/
theorem options_reject (rest : List Returned) (hletter : g.letter = 't')
    (hmatch : re.regexMatch g.optarg filters.type = false) :
    options re (g.returned :: rest) filters = .returned false filters invalidType := by
  rw [Given.returned, hletter, options, if_pos hmatch]

theorem options_of_chain (htype : TypeFilter filters.type)
    (hassigns : ∀ g ∈ gs, g.letter ≠ 't' → re.assigns g.optarg = true)
    (hchain : Chained re filters.type (argumentsOf 't' gs)) :
    options re (gs.map Given.returned) filters = .returned true (filters.after gs) [] := by
  induction gs generalizing filters with
  | nil => rw [after_nil, List.map_nil, options]
  | cons g gs ih =>
      rw [List.forall_mem_cons] at hassigns
      obtain ⟨hmatch, hrest⟩ := chained_cons.1 hchain
      rw [List.map_cons, options_accept _ htype hassigns.1 hmatch, after_cons filters gs]
      exact ih (typeFilter_after htype hmatch) hassigns.2 hrest

theorem options_of_not_chain (htype : TypeFilter filters.type)
    (hassigns : ∀ g ∈ gs, g.letter ≠ 't' → re.assigns g.optarg = true)
    (hchain : ¬ Chained re filters.type (argumentsOf 't' gs)) :
    ∃ filters', options re (gs.map Given.returned) filters =
      .returned false filters' invalidType := by
  induction gs generalizing filters with
  | nil => exact absurd (List.isChain_singleton _) hchain
  | cons g gs ih =>
      rw [List.forall_mem_cons] at hassigns
      rw [chained_cons, not_and_or, Classical.not_imp] at hchain
      by_cases hmatch : g.letter = 't' → re.regexMatch g.optarg filters.type = true
      · have hrest := hchain.resolve_left fun h => h.2 (hmatch h.1)
        rw [List.map_cons, options_accept _ htype hassigns.1 hmatch]
        exact ih (typeFilter_after htype hmatch) hassigns.2 hrest
      · rw [Classical.not_imp] at hmatch
        refine ⟨filters, options_reject _ hmatch.1 ?_⟩
        exact Bool.eq_false_of_not_eq_true hmatch.2

/-! ## One type -/

theorem chained_type {e : Str} (he : e ∈ types) (ts : List Str) :
    Chained re e ts ↔ ∀ t ∈ ts, t = e := by
  induction ts with
  | nil => exact iff_of_true (List.isChain_singleton _) (by simp)
  | cons t ts ih =>
      rw [Chained, List.isChain_cons_cons, match_type re he, List.forall_mem_cons]
      constructor
      · rintro ⟨rfl, hrest⟩
        exact ⟨rfl, ih.1 hrest⟩
      · rintro ⟨rfl, hrest⟩
        exact ⟨rfl, ih.2 hrest⟩

/-- From the filter `main` starts with, the types are valid and all the same. -/
theorem chain_iff (ts : List Str) :
    Chained re defaultType ts ↔ (∀ t ∈ ts, t ∈ types) ∧ ∀ s ∈ ts, ∀ t ∈ ts, s = t := by
  cases ts with
  | nil => exact iff_of_true (List.isChain_singleton _) (by simp)
  | cons e ts =>
      rw [Chained, List.isChain_cons_cons, match_defaultType]
      constructor
      · rintro ⟨he, hrest⟩
        have hsame : ∀ t ∈ e :: ts, t = e :=
          List.forall_mem_cons.2 ⟨rfl, (chained_type he ts).1 hrest⟩
        refine ⟨fun t ht => ?_, fun s hs t ht => ?_⟩
        · rw [hsame t ht]
          exact he
        · rw [hsame s hs, hsame t ht]
      · rintro ⟨hvalid, hsame⟩
        have he := hvalid e List.mem_cons_self
        refine ⟨he, (chained_type he ts).2 fun t ht => ?_⟩
        exact hsame t (List.mem_cons_of_mem e ht) e List.mem_cons_self

/-! ## Independence -/

/-- The command line of these options. -/
def commandLine (program : Str) (gs : List (Given optstring)) : List Str :=
  program :: gs.flatMap Given.words

/-- Options do not depend on each other: they are refused just when a type is invalid, and
otherwise each filter is the last argument of its option. -/
def Independent (re : Ecmascript) (posixlyCorrect : Bool) (program : Str)
    (gs : List (Given optstring)) : Prop :=
  let parsed := argumentParser re posixlyCorrect (commandLine program gs) defaults
  ((∃ filters out, parsed = .returned false filters out) ↔
      ∃ t ∈ argumentsOf 't' gs, t ∉ types) ∧
    ((∀ t ∈ argumentsOf 't' gs, t ∈ types) →
      ∃ out, parsed = .returned true (defaults.after gs) out)

theorem argumentParser_commandLine (posixlyCorrect : Bool) (program : Str)
    (gs : List (Given optstring)) (filters : Expressions) :
    argumentParser re posixlyCorrect (commandLine program gs) filters =
      options re (gs.map Given.returned) filters := by
  rw [argumentParser, commandLine, List.tail_cons, calls_given]

/-- They depend on each other just when the types given are valid and not all the same. -/
theorem independent_iff (re : Ecmascript) (posixlyCorrect : Bool) (program : Str)
    (gs : List (Given optstring))
    (hassigns : ∀ g ∈ gs, g.letter ≠ 't' → re.assigns g.optarg = true) :
    Independent re posixlyCorrect program gs ↔
      (∃ t ∈ argumentsOf 't' gs, t ∉ types) ∨
        ∀ s ∈ argumentsOf 't' gs, ∀ t ∈ argumentsOf 't' gs, s = t := by
  have hstart : TypeFilter defaults.type := Or.inl rfl
  rw [Independent, argumentParser_commandLine]
  by_cases hchain : Chained re defaults.type (argumentsOf 't' gs)
  · obtain ⟨hvalid, hsame⟩ := (chain_iff _).1 hchain
    rw [options_of_chain hstart hassigns hchain]
    refine iff_of_true ⟨iff_of_false ?_ ?_, fun _ => ⟨[], rfl⟩⟩ (Or.inr hsame)
    · rintro ⟨filters, out, ⟨⟩⟩
    · rintro ⟨t, ht, hinvalid⟩
      exact hinvalid (hvalid t ht)
  · obtain ⟨filters', hreject⟩ := options_of_not_chain hstart hassigns hchain
    rw [hreject]
    by_cases hvalid : ∀ t ∈ argumentsOf 't' gs, t ∈ types
    · have hdiffer : ¬ ∀ s ∈ argumentsOf 't' gs, ∀ t ∈ argumentsOf 't' gs, s = t :=
        fun hsame => hchain ((chain_iff _).2 ⟨hvalid, hsame⟩)
      have hnone : ¬ ∃ t ∈ argumentsOf 't' gs, t ∉ types := by
        rintro ⟨t, ht, hinvalid⟩
        exact hinvalid (hvalid t ht)
      refine iff_of_false (fun h => hnone (h.1.1 ⟨filters', invalidType, rfl⟩)) ?_
      rintro (hsome | hsame)
      · exact hnone hsome
      · exact hdiffer hsame
    · have hsome : ∃ t ∈ argumentsOf 't' gs, t ∉ types := by
        simpa using hvalid
      refine iff_of_true ⟨iff_of_true ⟨filters', invalidType, rfl⟩ hsome, ?_⟩ (Or.inl hsome)
      exact fun h => absurd h hvalid

/-- Expressions of letters and bars, and no others. -/
def lettersAndBars : Ecmascript where
  assigns e := e.all fun c => c.isAlpha || c = '|'
  regexMatch s e := (e.splitOn '|').contains s
  assigns_plain e he := by simpa using he
  match_plain e _ s := List.contains_iff_mem

/-- `-t` with a type. -/
def typeOption (t : Str) : Given optstring where
  letter := 't'
  optarg := t
  joined := false
  takes := rfl
  notDash := by decide
  nonempty := by simp

/-- `-c` with a name, in one word. -/
def commandOption (c : Char) (rest : Str) : Given optstring where
  letter := 'c'
  optarg := c :: rest
  joined := true
  takes := rfl
  notDash := by decide
  nonempty := by simp

/-- `lsof -t REG -csh -t REG`. -/
theorem independent_same_type :
    Independent lettersAndBars false ['l', 's', 'o', 'f']
      [typeOption ['R', 'E', 'G'], commandOption 's' ['h'], typeOption ['R', 'E', 'G']] := by
  have hassigns : ∀ g ∈ [typeOption ['R', 'E', 'G'], commandOption 's' ['h'],
      typeOption ['R', 'E', 'G']], g.letter ≠ 't' → lettersAndBars.assigns g.optarg = true := by
    simp [lettersAndBars, typeOption, commandOption]
  have hsame : ∀ s ∈ argumentsOf 't' [typeOption ['R', 'E', 'G'], commandOption 's' ['h'],
      typeOption ['R', 'E', 'G']], ∀ t ∈ argumentsOf 't' [typeOption ['R', 'E', 'G'],
      commandOption 's' ['h'], typeOption ['R', 'E', 'G']], s = t := by
    decide
  exact (independent_iff lettersAndBars false _ _ hassigns).2 (Or.inr hsame)

/-- `lsof -t REG -t CHR` is refused, though both types are valid. -/
theorem second_type_refused :
    ¬ Independent lettersAndBars false ['l', 's', 'o', 'f']
      [typeOption ['R', 'E', 'G'], typeOption ['C', 'H', 'R']] := by
  intro h
  have hrefused : options lettersAndBars
      ([typeOption ['R', 'E', 'G'], typeOption ['C', 'H', 'R']].map Given.returned) defaults =
        .returned false { defaults with type := ['R', 'E', 'G'] } invalidType := rfl
  have hvalid : ∀ t ∈ argumentsOf 't' [typeOption ['R', 'E', 'G'], typeOption ['C', 'H', 'R']],
      t ∈ types := by
    decide
  rw [Independent, argumentParser_commandLine, hrefused] at h
  obtain ⟨t, ht, hinvalid⟩ := h.1.1 ⟨_, _, rfl⟩
  exact hinvalid (hvalid t ht)

end Lsof
