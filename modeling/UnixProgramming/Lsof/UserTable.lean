import UnixProgramming.Lsof.Maps
import UnixProgramming.Text.Numerals

/-!
# The table of users

`/etc/passwd` is read a line at a time, and the user's number taken from the third token.
Tokens are separated by colons, and colons without anything between them count as one:
where the password is empty the third token is the number of the group.

* `setUserTable` — the loop.
* `PasswdLine`, `tokens_line` — a line of the file, and its first tokens.
* `setUserTable_eq` — the table has the name on the last line with the number read.
* `user_table_iff` — when it has the users.
-/

namespace Lsof

open CString

/-! ## The code -/

/-- What can stop `set_user_table`. -/
inductive TableFault where
  /-- A stream that was not opened. -/
  | nullStream
  /-- A string made of a null pointer, or a number read from one. -/
  | nullToken
  deriving DecidableEq

/-- The delimiter. -/
def isColon (c : Char) : Bool := c = ':'

/-- The tokens of what one `fgets` has read. -/
def passwdTokens (piece : Str) : List Str := words isColon (cstr piece)

/-- `atoi`, as an `uid_t`. -/
def toUid (token : Str) : BitVec 32 := BitVec.ofInt 32 (atoi token)

/-- The loop of `set_user_table`. -/
def userTable : List Str → UserTable → Except TableFault UserTable
  | [], table => .ok table
  | piece :: rest, table =>
      match (passwdTokens piece)[0]?, (passwdTokens piece)[2]? with
      | some userName, some token =>
          userTable rest (Function.update table (toUid token) (some userName))
      | _, _ => .error .nullToken

/-- `set_user_table`, `fp` being what can be read of `/etc/passwd`. -/
def setUserTable (fp : Option Str) : Except TableFault UserTable :=
  match fp with
  | none => .error .nullStream
  | some text => userTable (fgetsPieces bufferSize text) fun _ => none

/-! ## The file -/

/-- The characters of a field. -/
def IsField (s : Str) : Prop := ∀ c ∈ s, c ≠ ':' ∧ c ≠ '\n' ∧ c ≠ nul

instance : DecidablePred IsField := fun s =>
  decidable_of_iff (s.all fun c => c ≠ ':' ∧ c ≠ '\n' ∧ c ≠ nul) (by simp [IsField])

/-- A number in a field. -/
def IsDecimal (s : Str) : Prop := s ≠ [] ∧ ∀ c ∈ s, c.isDigit = true

instance : DecidablePred IsDecimal := fun s =>
  decidable_of_iff (s ≠ [] ∧ s.all Char.isDigit = true) (by simp [IsDecimal])

/-- A line of `/etc/passwd`. -/
structure PasswdLine where
  name : Str
  password : Str
  uid : Str
  gid : Str
  gecos : Str
  home : Str
  shell : Str
  name_ne_nil : name ≠ []
  uid_decimal : IsDecimal uid
  gid_decimal : IsDecimal gid
  fields : ∀ f ∈ [name, password, gecos, home, shell], IsField f

namespace PasswdLine

/-- The line but for its newline. -/
def body (l : PasswdLine) : Str :=
  l.name ++ ':' :: (l.password ++ ':' :: (l.uid ++ ':' :: (l.gid ++ ':' ::
    (l.gecos ++ ':' :: (l.home ++ ':' :: l.shell)))))

/-- The line. -/
def text (l : PasswdLine) : Str := l.body ++ ['\n']

end PasswdLine

/-- The file; its last line may lack the newline. -/
def passwdText (ls : List PasswdLine) (last : Option PasswdLine) : Str :=
  (ls.map PasswdLine.text).flatten ++ ((last.map PasswdLine.body).getD [])

/-- Its lines. -/
def passwdLines (ls : List PasswdLine) (last : Option PasswdLine) : List PasswdLine :=
  ls ++ last.toList

/-- The value of a decimal number. -/
def decimal (s : Str) : Nat := s.foldl (fun n c => n * 10 + (c.toNat - '0'.toNat)) 0

namespace PasswdLine

/-- The user's number. -/
def userNumber (l : PasswdLine) : Nat := decimal l.uid

/-- The column the user's number is read from. -/
def column (l : PasswdLine) : Str := if l.password = [] then l.gid else l.uid

/-- The number that is read: the largest `long` at most, and of that the low 32 bits. -/
def readNumber (l : PasswdLine) : Nat := min (decimal l.column) (2 ^ 63 - 1) % 2 ^ 32

end PasswdLine

/-- The name on the last line with the number `n`. -/
def lastName (number : PasswdLine → Nat) (ls : List PasswdLine) (n : Nat) : Option Str :=
  ((ls.filter fun l => number l = n).getLast?).map PasswdLine.name

/-- The name a table has for a number; only an `uid_t` can be in it. -/
def nameOf (table : UserTable) (n : Nat) : Option Str :=
  if n < 2 ^ 32 then table (BitVec.ofNat 32 n) else none

/-- The table has, for the number of each user, the name on the last line with that number,
and nothing else. -/
def Reflects (table : UserTable) (ls : List PasswdLine) : Prop :=
  ∀ n, nameOf table n = lastName PasswdLine.userNumber ls n

/-! ## Numbers -/

theorem digitVal_of_isDigit {c : Char} (h : c.isDigit = true) :
    digitVal c = some (c.toNat - '0'.toNat) ∧ c.toNat - '0'.toNat < 10 := by
  simp only [Char.isDigit, Bool.and_eq_true, decide_eq_true_eq] at h
  have h0 : '0' ≤ c := h.1
  have h9 : c ≤ '9' := h.2
  have hlow : '0'.toNat ≤ c.toNat := h0
  have hhigh : c.toNat ≤ '9'.toNat := h9
  refine ⟨?_, ?_⟩
  · rw [digitVal, if_pos ⟨h0, h9⟩]
  · have hnine : '9'.toNat = 57 := rfl
    have hzero : '0'.toNat = 48 := rfl
    omega

theorem isDigit_ten {c : Char} (h : c.isDigit = true) : isDigit 10 c = true := by
  obtain ⟨hval, hlt⟩ := digitVal_of_isDigit h
  rw [isDigit, hval]
  exact decide_eq_true hlt

theorem readDigits_decimal {s : Str} (h : ∀ c ∈ s, c.isDigit = true) :
    readDigits 10 0 s = decimal s := by
  rw [readDigits_eq_foldl fun c hc => isDigit_ten (h c hc), decimal]
  apply List.foldl_ext
  intro n c hc
  rw [(digitVal_of_isDigit (h c hc)).1, Option.getD_some]

/-- A number has neither blanks nor a sign before it. -/
theorem strtol_decimal {s : Str} (h : IsDecimal s) : strtol s 10 = min longMax (decimal s) := by
  have hdigits : ∀ c ∈ s, isDigit 10 c = true := fun c hc => isDigit_ten (h.2 c hc)
  rw [strtol_of_scan (sign_of_digits hdigits) (radix_ten s), readDigits_decimal h.2]

theorem toUid_decimal {s : Str} (h : IsDecimal s) :
    (toUid s).toNat = min (decimal s) (2 ^ 63 - 1) % 2 ^ 32 := by
  have hread : strtol s 10 = ((min (decimal s) (2 ^ 63 - 1) : Nat) : Int) := by
    rw [strtol_decimal h, longMax]
    omega
  rw [toUid, atoi, hread, BitVec.ofInt_natCast, BitVec.ofInt_toInt, BitVec.toNat_ofNat]

namespace PasswdLine

variable (l : PasswdLine)

theorem column_decimal : IsDecimal l.column := by
  rw [column]
  split
  · exact l.gid_decimal
  · exact l.uid_decimal

theorem toUid_column : (toUid l.column).toNat = l.readNumber := toUid_decimal l.column_decimal

end PasswdLine

/-! ## The tokens of a line -/

/-- The name of a line and the column of its number are the first token and the third of
what was read. -/
def Reads (piece : Str) (l : PasswdLine) : Prop :=
  (passwdTokens piece)[0]? = some l.name ∧ (passwdTokens piece)[2]? = some l.column

theorem IsDecimal.isField {s : Str} (h : IsDecimal s) : IsField s := by
  intro c hc
  have hdigit := h.2 c hc
  refine ⟨?_, ?_, ?_⟩
  all_goals
    rintro rfl
    cases hdigit

theorem IsField.not_colon {s : Str} (h : IsField s) : ∀ c ∈ s, isColon c = false :=
  fun c hc => decide_eq_false (h c hc).1

theorem isColon_colon : isColon ':' = true := rfl

namespace PasswdLine

variable (l : PasswdLine)

theorem isField_of_mem {f : Str}
    (h : f ∈ [l.name, l.password, l.uid, l.gid, l.gecos, l.home, l.shell]) : IsField f := by
  by_cases hf : f ∈ [l.name, l.password, l.gecos, l.home, l.shell]
  · exact l.fields f hf
  · have hnum : f = l.uid ∨ f = l.gid := by
      simp only [List.mem_cons, List.not_mem_nil, or_false] at h hf
      tauto
    rcases hnum with rfl | rfl
    · exact l.uid_decimal.isField
    · exact l.gid_decimal.isField

/-- What is in a line is in a field, or a colon. -/
theorem notMem_body {c : Char} (hcolon : c ≠ ':')
    (h : ∀ f ∈ [l.name, l.password, l.uid, l.gid, l.gecos, l.home, l.shell], c ∉ f) :
    c ∉ l.body := by
  simp only [List.mem_cons, List.not_mem_nil, or_false, forall_eq_or_imp, forall_eq] at h
  obtain ⟨h1, h2, h3, h4, h5, h6, h7⟩ := h
  simp only [body, List.mem_append, List.mem_cons, not_or]
  exact ⟨h1, hcolon, h2, hcolon, h3, hcolon, h4, hcolon, h5, hcolon, h6, hcolon, h7⟩

theorem newline_notMem_body : '\n' ∉ l.body :=
  l.notMem_body (by decide) fun _ hf hmem => (l.isField_of_mem hf _ hmem).2.1 rfl

theorem nul_notMem_body : nul ∉ l.body :=
  l.notMem_body (by decide) fun _ hf hmem => (l.isField_of_mem hf _ hmem).2.2 rfl

theorem body_ne_nil : l.body ≠ [] := by
  rw [body]
  exact List.append_ne_nil_of_right_ne_nil _ (List.cons_ne_nil _ _)

/-- The first token is the name; the third is that of the number of the user, or of the
group where nothing stands between the first two colons. -/
theorem tokens_line {e : Str} (he : nul ∉ e) : Reads (l.body ++ e) l := by
  have hname : IsField l.name := l.isField_of_mem (by simp)
  have hpassword : IsField l.password := l.isField_of_mem (by simp)
  have huid := words_append_sep l.uid_decimal.isField.not_colon l.uid_decimal.1 isColon_colon
  have hgid := words_append_sep l.gid_decimal.isField.not_colon l.gid_decimal.1 isColon_colon
  have hnul : nul ∉ l.body ++ e := by
    rw [List.mem_append, not_or]
    exact ⟨l.nul_notMem_body, he⟩
  rw [Reads, passwdTokens, cstr_of_notMem hnul, body, column]
  simp only [List.append_assoc, List.cons_append]
  rw [words_append_sep hname.not_colon l.name_ne_nil isColon_colon]
  by_cases hempty : l.password = []
  · rw [if_pos hempty, hempty, List.nil_append, words_cons_sep isColon_colon, huid, hgid]
    exact ⟨rfl, rfl⟩
  · rw [if_neg hempty, words_append_sep hpassword.not_colon hempty isColon_colon, huid]
    exact ⟨rfl, rfl⟩

end PasswdLine

/-! ## The loop -/

/-- A line is recorded under the number read from it. -/
def record (table : UserTable) (l : PasswdLine) : UserTable :=
  Function.update table (toUid l.column) (some l.name)

theorem userTable_of_reads {pieces : List Str} {ls : List PasswdLine}
    (h : List.Forall₂ Reads pieces ls) (table : UserTable) :
    userTable pieces table = .ok (ls.foldl record table) := by
  induction h generalizing table with
  | nil => rfl
  | cons hread _ ih =>
      rw [userTable, hread.1, hread.2]
      exact ih _

/-- The last line with a number leaves its name. -/
theorem foldl_record (ls : List PasswdLine) (u : BitVec 32) :
    ls.foldl record (fun _ => none) u = lastName PasswdLine.readNumber ls u.toNat := by
  induction ls using List.reverseRecOn with
  | nil => rfl
  | append_singleton ls l ih =>
      have hkey : u = toUid l.column ↔ l.readNumber = u.toNat := by
        rw [← l.toUid_column, BitVec.toNat_inj]
        exact eq_comm
      rw [List.foldl_concat, record, Function.update_apply, lastName, List.filter_append]
      by_cases hu : l.readNumber = u.toNat
      · rw [if_pos (hkey.2 hu), List.filter_cons_of_pos (by simpa using hu), List.filter_nil,
          List.getLast?_append, List.getLast?_singleton]
        rfl
      · rw [if_neg fun h => hu (hkey.1 h), List.filter_cons_of_neg (by simpa using hu),
          List.filter_nil, List.append_nil, ih]
        rfl

/-! ## The users -/

theorem lines_passwdText (ls : List PasswdLine) (last : Option PasswdLine) :
    lines (passwdText ls last) = ls.map PasswdLine.text ++ (last.map PasswdLine.body).toList := by
  rw [passwdText, lines_flatten_append]
  · cases last with
    | none => rfl
    | some l => rw [Option.map_some, Option.getD_some, Option.toList_some,
        lines_of_no_newline l.newline_notMem_body l.body_ne_nil]
  · intro t ht
    obtain ⟨l, -, rfl⟩ := List.mem_map.1 ht
    exact ⟨l.body, rfl, l.newline_notMem_body⟩

theorem reads_lines (ls : List PasswdLine) (last : Option PasswdLine) :
    List.Forall₂ Reads (lines (passwdText ls last)) (passwdLines ls last) := by
  rw [lines_passwdText, passwdLines]
  refine List.rel_append ?_ ?_
  · rw [List.forall₂_map_left_iff, List.forall₂_same]
    exact fun l _ => l.tokens_line (by decide)
  · cases last with
    | none => exact List.Forall₂.nil
    | some l =>
        have hread := l.tokens_line (e := []) List.not_mem_nil
        rw [List.append_nil] at hread
        exact List.Forall₂.cons hread List.Forall₂.nil

theorem readNumber_lt (l : PasswdLine) : l.readNumber < 2 ^ 32 := Nat.mod_lt _ (by decide)

/-- The table has the name on the last line with the number read. -/
theorem setUserTable_eq {ls : List PasswdLine} {last : Option PasswdLine}
    (hfit : ∀ s ∈ lines (passwdText ls last), s.length < bufferSize) :
    ∃ table, setUserTable (some (passwdText ls last)) = .ok table ∧
      ∀ n, nameOf table n = lastName PasswdLine.readNumber (passwdLines ls last) n := by
  refine ⟨(passwdLines ls last).foldl record fun _ => none, ?_, fun n => ?_⟩
  · rw [setUserTable, fgetsPieces_of_short hfit]
    exact userTable_of_reads (reads_lines ls last) _
  · rw [nameOf]
    split
    · next hlt => rw [foldl_record, BitVec.toNat_ofNat, Nat.mod_eq_of_lt hlt]
    · next hge =>
        have hnone : (passwdLines ls last).filter (fun l => l.readNumber = n) = [] := by
          rw [List.filter_eq_nil_iff]
          intro l _ hl
          have hlt := readNumber_lt l
          rw [of_decide_eq_true hl] at hlt
          exact hge hlt
        rw [lastName, hnone]
        rfl

/-- Where the password is not empty the number of the user is read. -/
theorem readNumber_eq_userNumber {l : PasswdLine} (hlt : l.userNumber < 2 ^ 32)
    (hgid : l.password = [] → decimal l.gid = l.userNumber) : l.readNumber = l.userNumber := by
  have hcolumn : decimal l.column = l.userNumber := by
    rw [PasswdLine.column]
    split
    · next hempty => exact hgid hempty
    · rfl
  rw [PasswdLine.readNumber, hcolumn]
  omega

/-- **When the table has the users.**  Of lines that all fit the buffer, the table has for
each user's number the name on the last line with it, and nothing else, exactly when for
every number this is also the name on the last line where the number is read.  So it has
the users if no number is too large for an `uid_t` and every user without a password has
the number of his group. -/
theorem user_table_iff (ls : List PasswdLine) (last : Option PasswdLine)
    (hfit : ∀ s ∈ lines (passwdText ls last), s.length < bufferSize) :
    ∃ table, setUserTable (some (passwdText ls last)) = .ok table ∧
      (Reflects table (passwdLines ls last) ↔
        ∀ n, lastName PasswdLine.readNumber (passwdLines ls last) n =
          lastName PasswdLine.userNumber (passwdLines ls last) n) ∧
      ((∀ l ∈ passwdLines ls last,
          l.userNumber < 2 ^ 32 ∧ (l.password = [] → decimal l.gid = l.userNumber)) →
        Reflects table (passwdLines ls last)) := by
  obtain ⟨table, hset, hname⟩ := setUserTable_eq hfit
  refine ⟨table, hset, ?_, fun h n => ?_⟩
  · simp only [Reflects, hname]
  · have hfilter : (passwdLines ls last).filter (fun l => l.readNumber = n) =
        (passwdLines ls last).filter (fun l => l.userNumber = n) := by
      apply List.filter_congr
      intro l hl
      obtain ⟨hlt, hgid⟩ := h l hl
      rw [readNumber_eq_userNumber hlt hgid]
    rw [hname, lastName, lastName, hfilter]

/-! ## A sample -/

/-- A user with a password. -/
def rootLine : PasswdLine where
  name := "root".toList
  password := "x".toList
  uid := "0".toList
  gid := "0".toList
  gecos := "root".toList
  home := "/root".toList
  shell := "/bin/bash".toList
  name_ne_nil := by decide
  uid_decimal := by decide
  gid_decimal := by decide
  fields := by decide

/-- A user without one. -/
def syncLine : PasswdLine where
  name := "sync".toList
  password := []
  uid := "5".toList
  gid := "65534".toList
  gecos := []
  home := "/".toList
  shell := "/bin/sync".toList
  name_ne_nil := by decide
  uid_decimal := by decide
  gid_decimal := by decide
  fields := by decide

theorem sample_user_table :
    ∃ table, setUserTable (some (passwdText [rootLine] (some syncLine))) = .ok table ∧
      (Reflects table [rootLine, syncLine] ↔
        ∀ n, lastName PasswdLine.readNumber [rootLine, syncLine] n =
          lastName PasswdLine.userNumber [rootLine, syncLine] n) ∧
      ((∀ l ∈ [rootLine, syncLine],
          l.userNumber < 2 ^ 32 ∧ (l.password = [] → decimal l.gid = l.userNumber)) →
        Reflects table [rootLine, syncLine]) := by
  refine user_table_iff [rootLine] (some syncLine) ?_
  rw [lines_passwdText]
  decide

/-- The user is in the table under the number of his group, and not under his own. -/
theorem group_for_user :
    ∃ table, setUserTable (some (passwdText [rootLine, syncLine] none)) = .ok table ∧
      ¬ Reflects table [rootLine, syncLine] ∧
      table 65534 = some syncLine.name ∧ table 5 = none := by
  obtain ⟨table, hset, hname⟩ := @setUserTable_eq [rootLine, syncLine] none (by
    rw [lines_passwdText]
    decide)
  have hgroup : nameOf table 65534 = some syncLine.name := by
    rw [hname]
    decide
  have hlost : nameOf table 5 = none := by
    rw [hname]
    decide
  refine ⟨table, hset, fun h => ?_, hgroup, hlost⟩
  have hfive := h 5
  rw [hlost] at hfive
  revert hfive
  decide

end Lsof
