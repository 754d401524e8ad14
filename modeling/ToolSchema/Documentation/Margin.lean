import ToolSchema.Text.Basic

/-!
Indentation of documentation. The first line of a text stands by itself; the other lines share a
margin, which is the least indentation of those that are not blank.
-/

namespace ToolSchema.Documentation

open Text (isBlank trim trimStart trimEnd allBlank lines unlines)

/-- The count of white space characters that start a line. -/
def indentOf (line : List Char) : Nat := (line.takeWhile isBlank).length

/-- Drops white space from the start of a line, at most so many characters. -/
def dropMargin : Nat → List Char → List Char
  | 0, line => line
  | _, [] => []
  | margin + 1, c :: rest => if isBlank c then dropMargin margin rest else c :: rest

/-- The least indentation of the lines that are not blank. -/
def marginOf (block : List (List Char)) : Nat :=
  ((block.filter fun line => !allBlank line).map indentOf).min?.getD 0

/-- A tab stands for eight spaces. -/
def expandTabs (text : List Char) : List Char :=
  text.flatMap fun c => if c = '\t' then List.replicate 8 ' ' else [c]

/-- The block without the blank lines at its two ends. -/
def dropBlankEnds (block : List (List Char)) : List (List Char) :=
  ((block.dropWhile allBlank).reverse.dropWhile allBlank).reverse

/-- The lines of a text without their common margin, and without blank lines at the two ends. -/
def cleanLines (text : List Char) : List (List Char) :=
  match lines (expandTabs text) with
  | [] => []
  | first :: more =>
    let margin := marginOf more
    dropBlankEnds (trimStart first :: more.map fun line => trimEnd (dropMargin margin line))

def clean (text : List Char) : List Char := unlines (cleanLines text)

/-- A block of lines as one text without its common margin. -/
def dedent (block : List (List Char)) : List Char :=
  let margin := marginOf block
  trim (unlines (block.map fun line => trimEnd (dropMargin margin line)))

end ToolSchema.Documentation
