import ShellTree.Dialect

/-! What the dialects write around commands and blocks, word for word, each construct in all three
of them. What is said about their texts is said in these words. -/
namespace ShellTree

namespace Dialect

/-- How far a block stands to the right of its header. -/
def unit : Dialect → String
  | .bash => "  "
  | .xonsh | .fish => "    "

/-- The line that stands in a block without statements. Blocks may be empty in Fish. -/
def emptyBlock : Dialect → String
  | .bash => ":\n"
  | .xonsh => "pass\n"
  | .fish => ""

def ifHeader : Dialect → String → String
  | .bash, test => "if " ++ test ++ "; then\n"
  | .xonsh, test => "if " ++ test ++ ":\n"
  | .fish, test => "if " ++ test ++ "\n"

/-- The header of a conditional that stands for an else-if. -/
def elseIfHeader : Dialect → String → String
  | .bash, test => "elif " ++ test ++ "; then\n"
  | .xonsh, test => "elif " ++ test ++ ":\n"
  | .fish, test => "else if " ++ test ++ "\n"

/-- What an else-if has in front of the header of a conditional. -/
def elseIf : Dialect → String
  | .bash | .xonsh => "el"
  | .fish => "else "

def elseHeader : Dialect → String
  | .bash | .fish => "else\n"
  | .xonsh => "else:\n"

def forHeader : Dialect → String → String → String
  | .bash, target, iter => "for " ++ target ++ " in " ++ iter ++ "; do\n"
  | .xonsh, target, iter => "for " ++ target ++ " in " ++ iter ++ ":\n"
  | .fish, target, iter => "for " ++ target ++ " in " ++ iter ++ "\n"

def functionHeader : Dialect → String → String
  | .bash, name => "function " ++ name ++ " \x7b\n"
  | .xonsh, name => "def " ++ name ++ "():\n"
  | .fish, name => "function " ++ name ++ "\n"

/-- The line that ends a statement with blocks. In Xonsh there is none, as a block ends where the
lines go back to the left. -/
def closing : Dialect → Tag → String
  | .bash, .ifElse => "fi\n"
  | .bash, .forIn => "done\n"
  | .bash, .function => "\x7d\n"
  | .fish, .ifElse | .fish, .forIn | .fish, .function => "end\n"
  | _, _ => ""

/-- What stands before a command line and what stands behind it. -/
def bracket : Dialect → Mode → String × String
  | .xonsh, .streamed => ("![", "]")
  | .bash, .streamed | .fish, .streamed => ("", "")
  | .bash, .captured | .xonsh, .captured => ("$(", ")")
  | .fish, .captured => ("(", ")")

/-- What leads to the source or target of a stream. -/
def operator : Dialect → Stream → String
  | _, .input => " < "
  | _, .output => " > "
  | .xonsh, .error => " e> "
  | .bash, .error | .fish, .error => " 2> "

/-- What ends the line of a command in the background. -/
def background : Dialect → String
  | .bash => "  &"
  | .xonsh | .fish => " &"

theorem elseIf_ifHeader (d : Dialect) (test : String) :
    d.elseIf ++ d.ifHeader test = d.elseIfHeader test := by
  cases d <;> simp [elseIf, ifHeader, elseIfHeader, ← String.append_assoc]

end Dialect

/-- The phrases are those of a dialect, as far as they are set down here. -/
structure Phrasing.Speaks (ph : Phrasing) (d : Dialect) : Prop where
  unit : ph.unit = d.unit
  emptyBlock : ph.emptyBlock = d.emptyBlock
  ifHeader : ph.ifHeader = d.ifHeader
  elseIf : ph.elseIf = d.elseIf
  elseHeader : ph.elseHeader = d.elseHeader
  ifClose : ph.ifClose = d.closing .ifElse
  forHeader : ph.forHeader = d.forHeader
  forClose : ph.forClose = d.closing .forIn
  functionHeader : ph.functionHeader = d.functionHeader
  functionClose : ph.functionClose = d.closing .function
  command : ∀ mode line, ph.command mode line = (d.bracket mode).1 ++ line ++ (d.bracket mode).2
  redirect : ph.redirect = d.operator
  background : ph.background = d.background

theorem Dialect.speaks (d : Dialect) : d.phrasing.Speaks d where
  unit := by cases d <;> rfl
  emptyBlock := by cases d <;> rfl
  ifHeader := by cases d <;> rfl
  elseIf := by cases d <;> rfl
  elseHeader := by cases d <;> rfl
  ifClose := by cases d <;> rfl
  forHeader := by cases d <;> rfl
  forClose := by cases d <;> rfl
  functionHeader := by cases d <;> rfl
  functionClose := by cases d <;> rfl
  command mode line := by
    cases d <;> cases mode <;>
      simp [phrasing, Phrasing.bash, Phrasing.xonsh, Phrasing.fish, bracket]
  redirect := by
    funext s
    cases d <;> cases s <;> rfl
  background := by cases d <;> rfl

end ShellTree
