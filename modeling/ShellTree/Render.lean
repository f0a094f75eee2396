import ShellTree.Codec
import ShellTree.Dialect
import ShellTree.Text.Lines

/-! Rendering trees as source text. Rendering reads maps itself and asks of them only what it
writes, so that some maps that are no trees can be rendered too. -/
namespace ShellTree

inductive RenderError where
  | shape (e : ShapeError)
  | unsupported (d : Dialect) (tag : String)
  | loopTarget (d : Dialect) (tag : String)
  | backgroundCapture (d : Dialect)
  deriving DecidableEq, Repr

def RenderError.message : RenderError → String
  | .shape e => e.message
  | .unsupported d tag => d.name ++ " does not support node '" ++ tag ++ "'"
  | .loopTarget d tag =>
    d.name ++ ": for loop must assign to a variable name (Var) or environment variable name " ++
      "(EnvVar), found '" ++ tag ++ "'"
  | .backgroundCapture d => d.name ++ " does not implement backgrounded CapturedCommand"

namespace Render

abbrev Result := Except RenderError

instance : MonadLift (Except ShapeError) Result := ⟨Except.mapError .shape⟩

/-- Whether a map is the bare sentinel of a stream, which redirects nothing. -/
def isSentinel (s : Stream) : Json → Bool
  | .obj [(tag, .obj [])] => tag == s.tag.name
  | _ => false

/-- Whether an `orelse` holds a single map with the tag of an `If`, which makes that an else-if. -/
def isElseIf : Option Json → Bool
  | some (.arr [m]) => Tagged.tagOf? m == some Tag.ifElse.name
  | _ => false

variable (d : Dialect) (t : Tagged (Result String))

def node (attr : String) : Result String := do
  let text ← t.node attr
  text

def nodes (attr : String) : Result (List String) := do
  let texts ← t.nodes attr
  Tagged.collect texts

/-- The statements of a block, one level in. -/
def indentBlock (statements : List String) : String :=
  Text.indent d.phrasing.unit
    (if statements.isEmpty then d.phrasing.emptyBlock else String.join statements)

/-- The part of a command line that redirects a stream: none, if it is left alone. -/
def redirect (s : Stream) : Result String :=
  match t.find? s.attr with
  | none => .ok ""
  | some a =>
    if isSentinel s a.value then .ok ""
    else do
      let target ← a.asNode
      return d.phrasing.redirect s ++ target

def commandLine : Result String := do
  let args ← nodes t "args"
  let error ← redirect d t .error
  let output ← redirect d t .output
  let input ← redirect d t .input
  let background ← t.flag "background" false
  return " ".intercalate args ++ error ++ output ++ input ++
    (if background then d.phrasing.background else "")

def command (mode : Mode) : Result String := do
  if mode = .captured ∧ !d.phrasing.capturesBackground then
    if ← t.flag "background" false then throw (.backgroundCapture d)
  return d.phrasing.command mode (← commandLine d t)

def assign : Result String :=
  match d.phrasing.assign with
  | .unscoped write => return write (← t.text "name") (← node t "value")
  | .scoped write => return write (← t.scope) (← t.text "name") (← node t "value")

def ifElse : Result String := do
  let test ← node t "test"
  let body ← nodes t "body"
  let orelse ← t.optionalNodes "orelse"
  let orelse ← Tagged.collect orelse
  let rest :=
    if orelse.isEmpty then d.phrasing.ifClose
    else if isElseIf ((t.find? "orelse").map (·.value)) then
      d.phrasing.elseIf ++ String.join orelse
    else d.phrasing.elseHeader ++ indentBlock d orelse ++ d.phrasing.ifClose
  return d.phrasing.ifHeader test ++ indentBlock d body ++ rest

/-- The name that a loop assigns to. -/
def loopTarget : Result String := do
  let a ← t.nested "target"
  let target ← Tagged.parse a.value
  match Tag.ofName? target.tag with
  | some .var => target.text "name"
  | some .envVar => return d.phrasing.envTarget (← target.text "name")
  | _ => throw (.loopTarget d target.tag)

def forIn : Result String := do
  let target ← loopTarget d t
  let iter ← node t "iter"
  let body ← nodes t "body"
  return d.phrasing.forHeader target iter ++ indentBlock d body ++ d.phrasing.forClose

def function : Result String := do
  let name ← t.text "name"
  let body ← nodes t "body"
  return d.phrasing.functionHeader name ++ indentBlock d body ++ d.phrasing.functionClose

def logic (op : Connective) : Result String := do
  let lhs ← node t "lhs"
  let rhs ← node t "rhs"
  return lhs ++ " " ++ d.phrasing.connective op ++ " " ++ rhs

/-- The text of a construct whose parts have been rendered. -/
def construct : Tag → Result String
  | .script => return String.join (← nodes t "body")
  | .comment => return "# " ++ (← t.text "value") ++ "\n"
  | .string => return "\"" ++ String.join (← nodes t "parts") ++ "\""
  | .rawString => t.text "value"
  | .var => return d.phrasing.var (← t.text "name")
  | .envVar => return "$" ++ (← t.text "name")
  | .stdIn => return Stream.input.device
  | .stdOut => return Stream.output.device
  | .stdErr => return Stream.error.device
  | .command => command d t .streamed
  | .capturedCommand => command d t .captured
  | .and => logic d t .and
  | .or => logic d t .or
  | .not => return d.phrasing.negation ++ (← node t "node")
  | .statement => return (← node t "node") ++ "\n"
  | .assign => assign d t
  | .envAssign => return d.phrasing.envAssign (← t.text "name") (← node t "value")
  | .delete => return d.phrasing.delete (← t.text "name")
  | .envDelete => return d.phrasing.envDelete (← t.text "name")
  | .aliasAssign => return d.phrasing.aliasAssign (← t.text "name") (← node t "value")
  | .aliasDelete => return d.phrasing.aliasDelete (← t.text "name")
  | .pass => return d.phrasing.pass
  | .ifElse => ifElse d t
  | .forIn => forIn d t
  | .function => function d t

/-- Renders an open map whose nested maps have been rendered. -/
def tagged : Result String :=
  match Tag.ofName? t.tag with
  | some tag => construct d t tag
  | none => .error (.unsupported d t.tag)

end Render

/-- The source text of a tagged map in a dialect. -/
def render (d : Dialect) : Json → Except RenderError String :=
  Tagged.read fun
    | .ok t => Render.tagged d t
    | .error e => .error (.shape e)

/-- The source text of a tree, which is that of its map. -/
def renderNode (d : Dialect) (n : Node) : Except RenderError String := render d (encode n)

/-- The source texts of some maps, or the first error among them. -/
def renderAll (d : Dialect) (maps : List Json) : Except RenderError (List String) :=
  Tagged.collect (maps.map (render d))

theorem render_eq (d : Dialect) (m : Json) :
    render d m = match Tagged.parse m with
      | .ok t => Render.tagged d (t.map (render d))
      | .error e => .error (.shape e) := by
  unfold render
  rw [Tagged.read_eq]
  cases Tagged.parse m <;> rfl

end ShellTree
