import ShellTree.Node.Basic
import ShellTree.Text.Lines
import ShellTree.Text.Quoted

/-! The outline of a tree, for reading: `Type(attr=value, ...)` with one attribute or list element
a line, each level one unit further in. -/
namespace ShellTree.Node

/-- Members between brackets, one a line and one unit in. -/
def block (unit opening closing : String) (members : List String) : String :=
  opening ++ "\n" ++ unit ++ (",\n" ++ unit).intercalate (members.map (Text.hang unit)) ++
    "\n" ++ closing

/-- The text of an attribute whose nodes have been written. -/
def outlineValue (unit : String) : AttrValue String → String
  | .node text => text
  | .nodes [] => "[]"
  | .nodes texts => block unit "[" "]" texts
  | .text s => Text.quoted s
  | .flag b => if b then "true" else "false"
  | .scope s => Text.quoted s.name

def outlineKind (unit : String) (k : Kind String) : String :=
  match k.attributes with
  | [] => k.tag.name ++ "()"
  | attrs =>
    block unit (k.tag.name ++ "(") ")"
      (attrs.map fun (name, v) => name ++ "=" ++ outlineValue unit v)

def outline (unit : String) : Node → String := Node.fold fun k _ => outlineKind unit k

/-- The unit of an outline for which none is given. -/
def outlineUnit : String := " "

theorem outline_mk (unit : String) (k : Kind Node) (p : Option Position) :
    outline unit ⟨k, p⟩ = outlineKind unit (k.map (outline unit)) := fold_mk _ k p

end ShellTree.Node
