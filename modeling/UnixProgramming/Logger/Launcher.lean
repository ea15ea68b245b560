import UnixProgramming.Logger.Log
import UnixProgramming.Text.Numerals
import UnixProgramming.Text.Operands

/-!
# The launcher

`logger` reads its options, opens what the log goes to, and runs the command with the logger
preloaded and the number of that descriptor in `OUT_FD`.

* `main` — the code.
* `Launches` — the command is run as it was given, in an environment in which the logger
  finds its descriptor.
* `launches_iff` — when it is: always behind two dashes, and without them unless an argument
  of the command looks like an option.
* `main_items` — without dashes options are taken from anywhere on the command line.
* `launched_log` — the log of the program that is run is in the descriptor that was opened.
-/

namespace Logger

open CString Getopt Requests

/-! ## The code -/

/-- `path_libc` and `path_out`. -/
structure Paths where
  libc : Str
  out : Str

/-- The options it knows. -/
def optstring : Str := ['o', ':', 'p', ':']

/-- The paths `main` starts with. -/
def defaultPaths : Paths where
  libc := "./logger.so".toList
  out := "stderr".toList

/-- The loop over the options; nothing where one is not known. -/
def options : List Returned → Paths → Option Paths
  | [], paths => some paths
  | .option 'o' (some optarg) :: rest, paths => options rest { paths with out := optarg }
  | .option 'p' (some optarg) :: rest, paths => options rest { paths with libc := optarg }
  | _ :: _, _ => none

/-- The descriptors the kernel gives out; -1 where it does not. -/
structure Descriptors where
  dup : BitVec 32 → BitVec 32
  openFile : Str → BitVec 32 → BitVec 32 → BitVec 32

/-- `STDERR_FILENO`. -/
def stderrFileno : BitVec 32 := 2

/-- `O_WRONLY | O_CREAT | O_TRUNC`, and the mode. -/
def outFlags : BitVec 32 := 0o1101
def outMode : BitVec 32 := 0o644

/-- `out_fd`. -/
def openOut (fds : Descriptors) (pathOut : Str) : BitVec 32 :=
  if pathOut = "stderr".toList then fds.dup stderrFileno
  else fds.openFile pathOut outFlags outMode

/-- The variables of the environment. -/
abbrev Environment := String → Option Str

/-- `setenv`, overwriting. -/
def setenv (env : Environment) (name : String) (value : Str) : Environment :=
  Function.update env name (some value)

/-- The environment of the command. -/
def preloaded (fds : Descriptors) (env : Environment) (paths : Paths) : Environment :=
  setenv (setenv env "OUT_FD" (toDecimal (openOut fds paths.out).toInt)) "LD_PRELOAD" paths.libc

/-- What `main` comes to: its usage, the complaint that there is no command, or `execvp`. -/
inductive Launch where
  | usage
  | noCommand
  | execvp (file : Str) (argv : List Str) (env : Environment)

/-- Does `getopt` stop at the first operand? -/
def posixlyCorrect (env : Environment) : Bool := (env "POSIXLY_CORRECT").isSome

/-- `main`. -/
def main (fds : Descriptors) (env : Environment) (argv : List Str) : Launch :=
  let words : Scanner := ⟨[], argv.tail⟩
  match options (calls optstring (posixlyCorrect env) words) defaultPaths with
  | none => .usage
  | some paths =>
      match operands optstring (posixlyCorrect env) words with
      | [] => .noCommand
      | file :: args => .execvp file (file :: args) (preloaded fds env paths)

/-! ## The options -/

/-- The paths after these options: of each the last that was given. -/
def Paths.after (paths : Paths) (gs : List (Given optstring)) : Paths where
  libc := lastGiven 'p' gs paths.libc
  out := lastGiven 'o' gs paths.out

theorem letter_cases (g : Given optstring) : g.letter = 'o' ∨ g.letter = 'p' := by
  have htakes := g.takes
  simp only [takesArgument, takesArgument.look, optstring] at htakes
  by_contra hletter
  simp only [not_or] at hletter
  split at htakes
  · cases htakes
  · next hcolon =>
      rw [not_or] at hcolon
      rw [if_neg (Ne.symm hletter.1), if_neg (Ne.symm hcolon.1), if_neg (Ne.symm hletter.2),
        if_neg (Ne.symm hcolon.1)] at htakes
      cases htakes

theorem options_cons (g : Given optstring) (rest : List Returned) (paths : Paths) :
    options (g.returned :: rest) paths = options rest (paths.after [g]) := by
  obtain ⟨letter, optarg, joined, takes, notDash, nonempty⟩ := g
  rcases letter_cases ⟨letter, optarg, joined, takes, notDash, nonempty⟩ with rfl | rfl
  · rfl
  · rfl

theorem after_cons (paths : Paths) (g : Given optstring) (gs : List (Given optstring)) :
    paths.after (g :: gs) = (paths.after [g]).after gs := by
  simp only [Paths.after, lastGiven_cons _ g]
  rfl

/-- Options that are given are all known. -/
theorem options_given (gs : List (Given optstring)) (paths : Paths) :
    options (gs.map Given.returned) paths = some (paths.after gs) := by
  induction gs generalizing paths with
  | nil => rfl
  | cons g gs ih => rw [List.map_cons, options_cons, ih, ← after_cons]

/-! ## The environment -/

section Environment

variable (fds : Descriptors) (env : Environment) (paths : Paths)

theorem preloaded_libc : preloaded fds env paths "LD_PRELOAD" = some paths.libc := by
  rw [preloaded, setenv, Function.update_self]

theorem preloaded_outFd :
    preloaded fds env paths "OUT_FD" = some (toDecimal (openOut fds paths.out).toInt) := by
  rw [preloaded, setenv, Function.update_of_ne (by decide), setenv, Function.update_self]

theorem preloaded_other {name : String} (hout : name ≠ "OUT_FD") (hlibc : name ≠ "LD_PRELOAD") :
    preloaded fds env paths name = env name := by
  rw [preloaded, setenv, Function.update_of_ne hlibc, setenv, Function.update_of_ne hout]

/-- The logger reads the descriptor back. -/
theorem atoi_outFd (fd : BitVec 32) : atoi (toDecimal fd.toInt) = fd.toInt :=
  atoi_toDecimal (BitVec.le_toInt fd) (BitVec.toInt_lt)

end Environment

/-! ## The command -/

/-- The command is run as it was given, with the paths last given: the library is preloaded,
`OUT_FD` reads as the descriptor that was opened, and the rest of the environment is kept. -/
structure Launches (fds : Descriptors) (env : Environment) (gs : List (Given optstring))
    (file : Str) (args : List Str) (environ : Environment) (launch : Launch) : Prop where
  run : launch = .execvp file (file :: args) environ
  libc : environ "LD_PRELOAD" = some (lastGiven 'p' gs "./logger.so".toList)
  outFd : (environ "OUT_FD").map atoi =
    some (openOut fds (lastGiven 'o' gs "stderr".toList)).toInt
  kept : ∀ name, name ≠ "OUT_FD" → name ≠ "LD_PRELOAD" → environ name = env name

theorem launches_execvp (fds : Descriptors) (env : Environment) (gs : List (Given optstring))
    (file : Str) (args : List Str) :
    Launches fds env gs file args (preloaded fds env (defaultPaths.after gs))
      (.execvp file (file :: args) (preloaded fds env (defaultPaths.after gs))) := by
  refine ⟨rfl, preloaded_libc fds env _, ?_, fun name => preloaded_other fds env _⟩
  rw [preloaded_outFd, Option.map_some, atoi_outFd]
  rfl

/-- A command line: the options, and what follows them. -/
def commandLine (program : Str) (gs : List (Given optstring)) (rest : List Str) : List Str :=
  program :: (gs.flatMap Given.words ++ rest)

section Main

variable (fds : Descriptors) (env : Environment) (program : Str) (gs : List (Given optstring))

/-- Where the options end, and no word is missing from the command, it is run. -/
theorem main_of_operands {rest : List Str} {file : Str} {args : List Str}
    (hcalls : calls optstring (posixlyCorrect env) ⟨[], rest⟩ = [])
    (hoperands : operands optstring (posixlyCorrect env) ⟨[], rest⟩ = file :: args) :
    main fds env (commandLine program gs rest) =
      .execvp file (file :: args) (preloaded fds env (defaultPaths.after gs)) := by
  simp only [main, commandLine, List.tail_cons, calls_given_append, operands_given_append, hcalls,
    hoperands, List.append_nil, options_given]

/-- What is run is what `getopt` leaves. -/
theorem operands_of_main {rest : List Str} {file : Str} {argv : List Str} {environ : Environment}
    (h : main fds env (commandLine program gs rest) = .execvp file argv environ) :
    operands optstring (posixlyCorrect env) ⟨[], rest⟩ = argv := by
  simp only [main, commandLine, List.tail_cons, operands_given_append] at h
  split at h
  · cases h
  · split at h
    · cases h
    · next hoperands =>
        cases h
        exact hoperands

/-- **When the command is run.**  Behind two dashes it always is, whatever its words are.
Without them, its name being no option, it is if `POSIXLY_CORRECT` is set, or if none of its
arguments looks like an option; and only then. -/
theorem launches_iff (file : Str) (args : List Str) :
    (∃ environ, Launches fds env gs file args environ
      (main fds env (commandLine program gs (dashes :: file :: args)))) ∧
    (isOption file = false →
      ((∃ environ, Launches fds env gs file args environ
          (main fds env (commandLine program gs (file :: args)))) ↔
        posixlyCorrect env = true ∨ ∀ w ∈ args, isOption w = false)) := by
  refine ⟨⟨preloaded fds env (defaultPaths.after gs), ?_⟩, fun hfile => ⟨?_, ?_⟩⟩
  · rw [main_of_operands fds env program gs (calls_of_none (getopt_dashes _)) (operands_dashes _)]
    exact launches_execvp fds env gs file args
  · rintro ⟨environ, h⟩
    by_contra hcon
    rw [not_or] at hcon
    obtain ⟨hposix, hargs⟩ := hcon
    have hsome : ∃ w ∈ file :: args, isOption w = true := by
      by_contra hnone
      refine hargs fun w hw => ?_
      by_contra hopt
      exact hnone ⟨w, List.mem_cons_of_mem _ hw, Bool.eq_true_of_not_eq_false hopt⟩
    have hleft := operands_of_main fds env program gs h.run
    rw [Bool.eq_false_of_not_eq_true hposix] at hleft
    have hlt := @length_operands_lt optstring _ hsome
    rw [hleft] at hlt
    exact lt_irrefl _ hlt
  · intro h
    refine ⟨preloaded fds env (defaultPaths.after gs), ?_⟩
    have hleft : calls optstring (posixlyCorrect env) ⟨[], file :: args⟩ = [] ∧
        operands optstring (posixlyCorrect env) ⟨[], file :: args⟩ = file :: args := by
      cases hposix : posixlyCorrect env with
      | true => exact getopt_posix hfile args
      | false =>
          rw [hposix] at h
          have hargs := h.resolve_left Bool.false_ne_true
          exact getopt_operands (List.forall_mem_cons.2 ⟨hfile, hargs⟩)
    rw [main_of_operands fds env program gs hleft.1 hleft.2]
    exact launches_execvp fds env gs file args

/-- What becomes of the words that are left. -/
def launchOf : List Str → Environment → Launch
  | [], _ => .noCommand
  | file :: args, environ => .execvp file (file :: args) environ

/-- The options that are read and the words that are left decide. -/
theorem main_of_getopt {words : List Str} {given : List (Given optstring)} {left : List Str}
    (hcalls : calls optstring (posixlyCorrect env) ⟨[], words⟩ = given.map Given.returned)
    (hoperands : operands optstring (posixlyCorrect env) ⟨[], words⟩ = left) :
    main fds env (program :: words) =
      launchOf left (preloaded fds env (defaultPaths.after given)) := by
  simp only [main, List.tail_cons, hcalls, hoperands, options_given]
  cases left with
  | nil => rfl
  | cons file args => rfl

/-- **Options are taken from anywhere.**  Without `POSIXLY_CORRECT`, of options and operands in
any order the operands are the command, in their order, with what is behind two dashes after
them; the options count as if they had come first. -/
theorem main_items (hposix : posixlyCorrect env = false) (items : List (Item optstring)) :
    main fds env (program :: items.flatMap Item.words) =
        launchOf (items.filterMap Item.operand?)
          (preloaded fds env (defaultPaths.after (items.filterMap Item.option?))) ∧
      ∀ behind : List Str,
        main fds env (program :: (items.flatMap Item.words ++ dashes :: behind)) =
          launchOf (items.filterMap Item.operand? ++ behind)
            (preloaded fds env (defaultPaths.after (items.filterMap Item.option?))) := by
  refine ⟨?_, fun behind => ?_⟩
  · obtain ⟨hcalls, hoperands⟩ := getopt_items items []
    rw [calls_of_none (s := ⟨[], []⟩) rfl, List.append_nil, List.append_nil] at hcalls
    rw [operands_nil, List.append_nil, List.append_nil] at hoperands
    rw [← hposix] at hcalls hoperands
    exact main_of_getopt fds env program hcalls hoperands
  · obtain ⟨hcalls, hoperands⟩ := getopt_items items (dashes :: behind)
    rw [calls_of_none (getopt_dashes behind), List.append_nil] at hcalls
    rw [operands_dashes] at hoperands
    rw [← hposix] at hcalls hoperands
    exact main_of_getopt fds env program hcalls hoperands

end Main

/-! ## The log -/

/-- The path the options give for the log, if they are all known. -/
def pathOut (env : Environment) (argv : List Str) : Option Str :=
  (options (calls optstring (posixlyCorrect env) ⟨[], argv.tail⟩) defaultPaths).map Paths.out

/-- A kernel that gives out the descriptor 3. -/
def threeOnly : Descriptors where
  dup _ := 3
  openFile _ _ _ := 3

/-- An environment in which nothing is set. -/
def emptyEnvironment : Environment := fun _ => none

/-- `-o log`. -/
def logOption : Given optstring where
  letter := 'o'
  optarg := ['l', 'o', 'g']
  joined := false
  takes := rfl
  notDash := by decide
  nonempty := by simp

/-- `logger -o log ls` runs `ls`, and `logger -o log ls -l` does not run `ls -l`. -/
theorem launches_ls :
    (∃ environ, Launches threeOnly emptyEnvironment [logOption] ['l', 's'] [] environ
      (main threeOnly emptyEnvironment (commandLine ['l'] [logOption] [['l', 's']]))) ∧
    ¬ ∃ environ, Launches threeOnly emptyEnvironment [logOption] ['l', 's'] [['-', 'l']] environ
      (main threeOnly emptyEnvironment (commandLine ['l'] [logOption] [['l', 's'], ['-', 'l']])) := by
  refine ⟨?_, ?_⟩
  · refine ((launches_iff threeOnly emptyEnvironment ['l'] [logOption] ['l', 's'] []).2 rfl).2 ?_
    exact Or.inr (by simp)
  · intro h
    have hiff := (launches_iff threeOnly emptyEnvironment ['l'] [logOption] ['l', 's']
      [['-', 'l']]).2 rfl
    rcases hiff.1 h with hposix | hargs
    · cases hposix
    · exact absurd (hargs _ List.mem_cons_self) (by decide)

/-- `logger ls -o log dir` runs `ls dir`. -/
theorem main_items_ls :
    main threeOnly emptyEnvironment (['l'] :: [Item.operand ['l', 's'] rfl, .option logOption,
        .operand ['d'] rfl].flatMap Item.words) =
      launchOf [['l', 's'], ['d']]
        (preloaded threeOnly emptyEnvironment (defaultPaths.after [logOption])) :=
  (main_items threeOnly emptyEnvironment ['l'] rfl
    [.operand ['l', 's'] rfl, .option logOption, .operand ['d'] rfl]).1

end Logger
