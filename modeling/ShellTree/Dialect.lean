import ShellTree.Node.Basic

/-! The shell languages that trees are rendered in, and how each writes its constructs. -/
namespace ShellTree

inductive Dialect where
  | bash
  | xonsh
  | fish
  deriving DecidableEq, Repr

/-- How a dialect writes an assignment: the same in every scope, or with the scope written out. -/
inductive Assignment where
  | unscoped (write : String → String → String)
  | scoped (write : Scope → String → String → String)

/-- The texts of a dialect around the texts of a construct's parts. -/
structure Phrasing where
  /-- One level of indentation. -/
  unit : String
  /-- The line that stands in a block without statements. -/
  emptyBlock : String
  var : String → String
  command : Mode → String → String
  /-- Whether a captured command may run in the background. -/
  capturesBackground : Bool
  /-- What leads to the source or target of a stream. -/
  redirect : Stream → String
  background : String
  connective : Connective → String
  negation : String
  assign : Assignment
  envAssign : String → String → String
  delete : String → String
  envDelete : String → String
  aliasAssign : String → String → String
  aliasDelete : String → String
  pass : String
  ifHeader : String → String
  /-- What turns the header of an `if` that follows into the header of an else-if. -/
  elseIf : String
  elseHeader : String
  ifClose : String
  /-- How a loop names the environment variable that it sets. -/
  envTarget : String → String
  forHeader : String → String → String
  forClose : String
  functionHeader : String → String
  functionClose : String

namespace Phrasing

def bash : Phrasing where
  unit := "  "
  emptyBlock := ":\n"
  var name := "$" ++ name
  command
    | .streamed, line => line
    | .captured, line => "$(" ++ line ++ ")"
  capturesBackground := true
  redirect
    | .input => " < "
    | .output => " > "
    | .error => " 2> "
  background := "  &"
  connective
    | .and => "&&"
    | .or => "||"
  negation := "! "
  assign := .unscoped fun name value => name ++ "=" ++ value ++ "\n"
  envAssign name value := "export " ++ name ++ "=" ++ value ++ "\n"
  delete name := "unset " ++ name ++ "\n"
  envDelete name := "unset " ++ name ++ "\n"
  aliasAssign name value := "alias " ++ name ++ "=" ++ value ++ "\n"
  aliasDelete name := "unalias " ++ name ++ "\n"
  pass := ":\n"
  ifHeader test := "if " ++ test ++ "; then\n"
  elseIf := "el"
  elseHeader := "else\n"
  ifClose := "fi\n"
  envTarget name := "$" ++ name
  forHeader target iter := "for " ++ target ++ " in " ++ iter ++ "; do\n"
  forClose := "done\n"
  functionHeader name := "function " ++ name ++ " \x7b\n"
  functionClose := "\x7d\n"

def xonsh : Phrasing where
  unit := "    "
  emptyBlock := "pass\n"
  var name := name
  command
    | .streamed, line => "![" ++ line ++ "]"
    | .captured, line => "$(" ++ line ++ ")"
  capturesBackground := true
  redirect
    | .input => " < "
    | .output => " > "
    | .error => " e> "
  background := " &"
  connective
    | .and => "and"
    | .or => "or"
  negation := "not "
  assign := .unscoped fun name value => name ++ " = " ++ value ++ "\n"
  envAssign name value := "$" ++ name ++ " = " ++ value ++ "\n"
  delete name := "del " ++ name ++ "\n"
  envDelete name := "del $" ++ name ++ "\n"
  aliasAssign name value := "aliases[\"" ++ name ++ "\"] = " ++ value ++ "\n"
  aliasDelete name := "del aliases[\"" ++ name ++ "\"]\n"
  pass := "pass\n"
  ifHeader test := "if " ++ test ++ ":\n"
  elseIf := "el"
  elseHeader := "else:\n"
  ifClose := ""
  envTarget name := "$" ++ name
  forHeader target iter := "for " ++ target ++ " in " ++ iter ++ ":\n"
  forClose := ""
  functionHeader name := "def " ++ name ++ "():\n"
  functionClose := ""

def fish : Phrasing where
  unit := "    "
  emptyBlock := ""
  var name := "$" ++ name
  command
    | .streamed, line => line
    | .captured, line => "(" ++ line ++ ")"
  capturesBackground := false
  redirect
    | .input => " < "
    | .output => " > "
    | .error => " 2> "
  background := " &"
  connective
    | .and => "&&"
    | .or => "||"
  negation := "not "
  assign := .scoped fun scope name value =>
    "set " ++ (match scope with
      | .localOnly => "-l"
      | .global => "-g") ++ " " ++ name ++ " " ++ value ++ "\n"
  envAssign name value := "set -gx " ++ name ++ " " ++ value ++ "\n"
  delete name := "set -e " ++ name ++ "\n"
  envDelete name := "set -e " ++ name ++ "\n"
  aliasAssign name value := "alias " ++ name ++ " " ++ value ++ "\n"
  aliasDelete name := "functions -e " ++ name ++ "\n"
  pass := "true\n"
  ifHeader test := "if " ++ test ++ "\n"
  elseIf := "else "
  elseHeader := "else\n"
  ifClose := "end\n"
  envTarget name := name
  forHeader target iter := "for " ++ target ++ " in " ++ iter ++ "\n"
  forClose := "end\n"
  functionHeader name := "function " ++ name ++ "\n"
  functionClose := "end\n"

end Phrasing

namespace Dialect

def all : List Dialect := [.bash, .xonsh, .fish]

def name : Dialect → String
  | .bash => "bash"
  | .xonsh => "xonsh"
  | .fish => "fish"

def phrasing : Dialect → Phrasing
  | .bash => .bash
  | .xonsh => .xonsh
  | .fish => .fish

/-- Case does not matter in the name of a dialect. Only ASCII letters have to be looked at: no
other character has one of the letters of the three names as its lower case. -/
def ofName? (s : String) : Option Dialect :=
  all.find? fun d => d.name.toList == s.toList.map Char.toLower

end Dialect

/-- A name that no dialect has. -/
structure UnknownDialect where
  name : String
  deriving DecidableEq, Repr

def UnknownDialect.message (e : UnknownDialect) : String :=
  "unknown dialect '" ++ e.name ++ "' (expected bash, xonsh or fish)"

def Dialect.named (s : String) : Except UnknownDialect Dialect :=
  match ofName? s with
  | some d => .ok d
  | none => .error ⟨s⟩

@[simp] theorem Dialect.ofName?_name (d : Dialect) : ofName? d.name = some d := by
  cases d <;> decide +kernel

end ShellTree
