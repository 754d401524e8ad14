import ToolSchema.Documentation.Fields
import ToolSchema.Documentation.Sections

/-!
Reading documentation in a given layout, or in the layout that recognises the most.
-/

namespace ToolSchema.Documentation

open Text (lines)

/-- Reads lines without margin. Only underlined titles can leave a text without a reading. -/
def readLines (layout : Layout) (text : List (List Char)) : Option Documentation :=
  match layout with
  | .google => some (readGoogle text)
  | .rest => some (readFields .rest text)
  | .epydoc => some (readFields .epydoc text)
  | .numpy => readNumpy text

def readAs (layout : Layout) (text : String) : Option Documentation :=
  readLines layout (lines (clean text.toList))

/-- The reading that recognises the most, and the earliest one of several. -/
def mostRecognised : List Documentation → Option Documentation
  | [] => none
  | doc :: more =>
    match mostRecognised more with
    | some best => some (if doc.recognised < best.recognised then best else doc)
    | none => some doc

/-- The text in whichever layout fits best. A text that some layout cannot read has no reading. -/
def read (text : String) : Option Documentation := do
  let readings ← Layout.all.mapM fun layout => readAs layout text
  mostRecognised readings

end ToolSchema.Documentation
