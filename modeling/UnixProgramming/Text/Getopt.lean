import UnixProgramming.Text.CString

/-!
# Options on a command line

`getopt` with short options, one call after another.  Options can share an argument of
the command line, and what an option is given can follow its letter or be the next
argument.

* `takesArgument` — what the string of options says of a letter.
* `getopt` — one call, and `size_getopt`: it gets nearer to the end.
* `calls` — what the calls return until there is nothing left.
* `Given`, `calls_given` — a command line of options is read as they were given.
-/

namespace Getopt

open CString

/-- Whether a letter is an option, and whether it takes an argument. -/
def takesArgument (optstring : Str) (c : Char) : Option Bool :=
  if c = ':' ∨ c = ';' then none else look optstring
where
  look : Str → Option Bool
    | [] => none
    | o :: rest => if o = c then some (rest.head? = some ':') else look rest

/-- Where `getopt` is: the letters left of the argument at hand, and those after it. -/
structure Scanner where
  nextchar : Str
  argv : List Str

/-- What a call returns: a letter with `optarg`, or a question mark. -/
inductive Returned where
  | option (c : Char) (optarg : Option Str)
  | bad (c : Char)
  deriving DecidableEq

/-- The next argument that holds options.  Operands are passed over, unless
`POSIXLY_CORRECT` is set; two dashes end the options. -/
def nextArgument (posixlyCorrect : Bool) : List Str → Option (Char × Scanner)
  | [] => none
  | ('-' :: c :: cs) :: rest => if c = '-' ∧ cs = [] then none else some (c, ⟨cs, rest⟩)
  | _ :: rest => if posixlyCorrect then none else nextArgument posixlyCorrect rest

/-- The next letter. -/
def Scanner.next (posixlyCorrect : Bool) (s : Scanner) : Option (Char × Scanner) :=
  match s.nextchar with
  | c :: cs => some (c, ⟨cs, s.argv⟩)
  | [] => nextArgument posixlyCorrect s.argv

/-- What is returned for a letter: its argument is the rest of the word, or the next one. -/
def answer (optstring : Str) (c : Char) (s : Scanner) : Returned × Scanner :=
  match takesArgument optstring c with
  | none => (.bad c, s)
  | some false => (.option c none, s)
  | some true =>
      match s.nextchar, s.argv with
      | [], [] => (.bad c, s)
      | [], optarg :: rest => (.option c (some optarg), ⟨[], rest⟩)
      | optarg, rest => (.option c (some optarg), ⟨[], rest⟩)

/-- `getopt`; nothing stands for -1. -/
def getopt (optstring : Str) (posixlyCorrect : Bool) (s : Scanner) : Option (Returned × Scanner) :=
  (s.next posixlyCorrect).map fun x => answer optstring x.1 x.2

/-! ## Every call reads a letter -/

/-- How much is left to read. -/
def Scanner.size (s : Scanner) : Nat :=
  s.nextchar.length + (s.argv.map fun w => w.length + 1).sum

theorem size_nextArgument {posixlyCorrect : Bool} {argv : List Str} {c : Char} {s : Scanner}
    (h : nextArgument posixlyCorrect argv = some (c, s)) :
    s.size < (argv.map fun w => w.length + 1).sum := by
  induction argv using nextArgument.induct posixlyCorrect with
  | case1 => cases h
  | case2 d cs rest hend =>
      rw [nextArgument, if_pos hend] at h
      cases h
  | case3 d cs rest hend =>
      rw [nextArgument, if_neg hend] at h
      cases h
      simp only [Scanner.size, List.map_cons, List.sum_cons, List.length_cons]
      omega
  | case4 w rest hw hposix =>
      rw [nextArgument, if_pos hposix] at h
      · cases h
      · exact hw
  | case5 w rest hw hposix ih =>
      rw [nextArgument, if_neg hposix] at h
      · have hlt := ih h
        rw [List.map_cons, List.sum_cons]
        omega
      · exact hw

theorem size_next {posixlyCorrect : Bool} {s s' : Scanner} {c : Char}
    (h : s.next posixlyCorrect = some (c, s')) : s'.size < s.size := by
  obtain ⟨nextchar, argv⟩ := s
  cases nextchar with
  | nil =>
      have hlt := size_nextArgument h
      have hsize : (Scanner.mk [] argv).size = (argv.map fun w => w.length + 1).sum :=
        Nat.zero_add _
      rw [hsize]
      exact hlt
  | cons d cs =>
      cases h
      simp only [Scanner.size, List.length_cons]
      omega

theorem size_answer (optstring : Str) (c : Char) (s : Scanner) :
    (answer optstring c s).2.size ≤ s.size := by
  obtain ⟨nextchar, argv⟩ := s
  rw [answer]
  split
  · exact le_rfl
  · exact le_rfl
  · split
    · exact le_rfl
    · simp_all [Scanner.size]
    · simp_all [Scanner.size]

theorem size_getopt {optstring : Str} {posixlyCorrect : Bool} {s s' : Scanner} {r : Returned}
    (h : getopt optstring posixlyCorrect s = some (r, s')) : s'.size < s.size := by
  rw [getopt, Option.map_eq_some_iff] at h
  obtain ⟨⟨c, t⟩, hnext, hanswer⟩ := h
  have hle := size_answer optstring c t
  rw [hanswer] at hle
  exact lt_of_le_of_lt hle (size_next hnext)

/-! ## A loop of calls -/

/-- What the calls return, up to the -1. -/
def calls (optstring : Str) (posixlyCorrect : Bool) (s : Scanner) : List Returned :=
  match _h : getopt optstring posixlyCorrect s with
  | none => []
  | some (r, s') => r :: calls optstring posixlyCorrect s'
termination_by s.size
decreasing_by exact size_getopt _h

variable {optstring : Str} {posixlyCorrect : Bool}

theorem calls_of_none {s : Scanner} (h : getopt optstring posixlyCorrect s = none) :
    calls optstring posixlyCorrect s = [] := by
  rw [calls]
  split
  · rfl
  · next h' => rw [h] at h'; cases h'

theorem calls_of_some {s s' : Scanner} {r : Returned}
    (h : getopt optstring posixlyCorrect s = some (r, s')) :
    calls optstring posixlyCorrect s = r :: calls optstring posixlyCorrect s' := by
  rw [calls]
  split
  · next h' => rw [h] at h'; cases h'
  · next h' =>
      rw [h] at h'
      cases h'
      rfl

/-! ## Options as they are given -/

/-- An option with an argument, in the same word or in the next. -/
structure Given (optstring : Str) where
  letter : Char
  optarg : Str
  joined : Bool
  takes : takesArgument optstring letter = some true
  notDash : letter ≠ '-'
  nonempty : joined = true → optarg ≠ []

/-- The words it is written in. -/
def Given.words (g : Given optstring) : List Str :=
  if g.joined then ['-' :: g.letter :: g.optarg] else [['-', g.letter], g.optarg]

/-- What `getopt` makes of it. -/
def Given.returned (g : Given optstring) : Returned := .option g.letter (some g.optarg)

/-- It is read by one call, whatever follows it. -/
theorem getopt_given (g : Given optstring) (rest : List Str) :
    getopt optstring posixlyCorrect ⟨[], g.words ++ rest⟩ = some (g.returned, ⟨[], rest⟩) := by
  have hletter := g.notDash
  rw [Given.words]
  cases hjoined : g.joined with
  | false => simp [getopt, Scanner.next, nextArgument, hletter, answer, g.takes, Given.returned]
  | true =>
      obtain ⟨d, arg, hoptarg⟩ := List.exists_cons_of_ne_nil (g.nonempty hjoined)
      simp [getopt, Scanner.next, nextArgument, hletter, answer, g.takes, Given.returned, hoptarg]

/-- A command line of such options is read as it was written. -/
theorem calls_given (gs : List (Given optstring)) :
    calls optstring posixlyCorrect ⟨[], gs.flatMap Given.words⟩ = gs.map Given.returned := by
  induction gs with
  | nil => exact calls_of_none rfl
  | cons g gs ih => rw [List.flatMap_cons, calls_of_some (getopt_given g _), ih, List.map_cons]

end Getopt
