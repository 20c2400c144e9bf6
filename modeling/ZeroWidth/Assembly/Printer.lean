import ZeroWidth.Program.Basic

/-!
# Printing assembly text

One operation a line. A label opens a paragraph: a blank line stands before it, and what follows it
is indented by one space.
-/

namespace ZeroWidth.Assembly

/-- Lines of operations: `inParagraph` if a label stands before them, `first` if nothing does. -/
def layout (inParagraph first : Bool) : List Operation → List String
  | []        => []
  | op :: ops =>
    if op.instruction = .label then
      if first then op.text :: layout true false ops
      else "" :: op.text :: layout true false ops
    else
      ((if inParagraph then " " else "") ++ op.text) :: layout inParagraph false ops

/-- Lines as a text, with a newline between any two and one at the end. -/
def joinLines (lines : List String) : String := "\n".intercalate lines ++ "\n"

def print (p : Program) : String := joinLines (layout false true p.operations)

end ZeroWidth.Assembly
