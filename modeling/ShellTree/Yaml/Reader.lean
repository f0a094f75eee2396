import ShellTree.Yaml.Resolve
import ShellTree.Yaml.Tree

/-! Reading a YAML document as a JSON value. -/
namespace ShellTree.Yaml

section
variable (d : Document)

/-- What an alias stands for. Following it costs one of the steps that are left. -/
def follow (t : Tree) : StateT Nat Option Tree :=
  match t with
  | .alias slot => fun steps =>
    if steps = 0 then none else (d.held? slot).map fun t => (t, steps - 1)
  | t => return t

/-- Only scalars are keys, and each is its text. -/
def keyText (t : Tree) : StateT Nat Option String := do
  match ← follow d t with
  | .scalar _ text _ => return text
  | _ => failure

/-- The value of a tree with at most `depth` lists and maps around one another. -/
def value : Nat → Tree → StateT Nat Option Json
  | depth, t => do
    match ← follow d t, depth with
    | .scalar tag text plain, _ => scalarValue tag text plain
    | .list tag items, depth+1 => do
      if tag.any isForeign then failure
      return .arr (← items.mapM (value depth))
    | .map tag members, depth+1 => do
      if tag.any isForeign then failure
      return .ofMembers (← members.mapM fun (k, v) => do
        return (← keyText d k, ← value depth v))
    | _, _ => failure

end

/-- The deepest nesting that documents may have. -/
def documentDepth : Nat := 128

/-- The value of a text that holds at most one document. Aliases may be followed a hundred times
for each mark of the document. -/
def read (text : String) : Option Json := do
  let d ← Document.ofTokens? (← tokens text)
  (value d documentDepth d.root).run' (100 * d.root.marks)

end ShellTree.Yaml
