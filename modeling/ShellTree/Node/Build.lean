import ShellTree.Node.Basic

/-! Building trees without positions. -/
namespace ShellTree

/-- A command line on which no stream is redirected. -/
def Command.ofArgs (args : List Node) : Command Node where
  args
  stdin := ⟨.stream .input, none⟩
  stdout := ⟨.stream .output, none⟩
  stderr := ⟨.stream .error, none⟩
  background := false

namespace Node

def ofKind (k : Kind Node) : Node := ⟨k, none⟩

/-- The node at a position in its source. -/
def placed (n : Node) (p : Position) : Node := { n with position := some p }

def script (body : List Node) : Node := ofKind (.script body)
def comment (value : String) : Node := ofKind (.comment value)
def string (parts : List Node) : Node := ofKind (.string parts)
def raw (value : String) : Node := ofKind (.rawString value)
def var (name : String) : Node := ofKind (.var name)
def envVar (name : String) : Node := ofKind (.envVar name)
def stream (s : Stream) : Node := ofKind (.stream s)
def command (args : List Node) : Node := ofKind (.command .streamed (.ofArgs args))
def captured (args : List Node) : Node := ofKind (.command .captured (.ofArgs args))
def both (lhs rhs : Node) : Node := ofKind (.logic .and lhs rhs)
def either (lhs rhs : Node) : Node := ofKind (.logic .or lhs rhs)
def negation (node : Node) : Node := ofKind (.not node)
def statement (node : Node) : Node := ofKind (.statement node)
def assign (name : String) (value : Node) (scope : Scope) : Node :=
  ofKind (.assign name value scope)
def envAssign (name : String) (value : Node) : Node := ofKind (.envAssign name value)
def delete (name : String) : Node := ofKind (.delete name)
def envDelete (name : String) : Node := ofKind (.envDelete name)
def aliasAssign (name : String) (value : Node) : Node := ofKind (.aliasAssign name value)
def aliasDelete (name : String) : Node := ofKind (.aliasDelete name)
def pass : Node := ofKind .pass
def ifElse (test : Node) (body orelse : List Node) : Node := ofKind (.ifElse test body orelse)
def forIn (target iter : Node) (body : List Node) : Node := ofKind (.forIn target iter body)
def function (name : String) (body : List Node) : Node := ofKind (.function name body)

/-- Changes the command line of a command, captured or not; other nodes have none. -/
def mapCommand? (f : Command Node → Command Node) (n : Node) : Option Node :=
  match n.kind with
  | .command mode c => some { n with kind := .command mode (f c) }
  | _ => none

end Node
end ShellTree
