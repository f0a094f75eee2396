/-! Moving text to the right: all its lines, or all but the first. -/
namespace ShellTree.Text

/-- Puts `unit` before each line, given whether a line starts here. A line starts at its first
character, so that nothing follows the last line break of a text. -/
def indentFrom (unit : List Char) : Bool → List Char → List Char
  | _, [] => []
  | starts, c :: cs => (if starts then unit else []) ++ c :: indentFrom unit (c == '\n') cs

/-- Puts `unit` before every line, blank ones included. -/
def indent (unit text : String) : String :=
  String.ofList (indentFrom unit.toList true text.toList)

/-- Puts `margin` after every line break. -/
def indentBreaks (margin : List Char) (text : List Char) : List Char :=
  text.flatMap fun c => if c = '\n' then c :: margin else [c]

/-- Puts `unit` before every line but the first. -/
def hang (unit text : String) : String :=
  String.ofList (indentBreaks unit.toList text.toList)

end ShellTree.Text
