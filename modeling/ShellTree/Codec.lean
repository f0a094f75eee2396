import ShellTree.Node.Build
import ShellTree.Tagged

/-! Trees as tagged maps and back. Positions are read but never written. -/
namespace ShellTree

/-- Why a map is no tree. -/
inductive DecodeError where
  | shape (e : ShapeError)
  | unsupported (tag : String)
  | unknown (tag : Tag) (keys : List String)
  deriving DecidableEq, Repr

def DecodeError.message : DecodeError → String
  | .shape e => e.message
  | .unsupported tag => "unsupported node: '" ++ tag ++ "'"
  | .unknown tag keys =>
    "unknown attributes of node " ++ tag.name ++ ": " ++ ", ".intercalate keys

section Encode

def encodeAttr : AttrValue Json → Json
  | .node m => m
  | .nodes ms => .arr ms
  | .text s => .str s
  | .flag b => .bool b
  | .scope s => .str s.name

/-- The map of a node whose own nodes have been written. -/
def encodeKind (k : Kind Json) : Json :=
  .obj [(k.tag.name, .obj (k.attributes.map fun (name, value) => (name, encodeAttr value)))]

/-- The tagged map of a tree: every attribute is given, in declared order. -/
def encode : Node → Json := Node.fold fun k _ => encodeKind k

theorem encode_mk (k : Kind Node) (p : Option Position) :
    encode ⟨k, p⟩ = encodeKind (k.map encode) := Node.fold_mk _ k p

end Encode

namespace Decode

abbrev Result := Except DecodeError

instance : MonadLift (Except ShapeError) Result := ⟨Except.mapError .shape⟩

variable (t : Tagged (Result Node))

def node (attr : String) : Result Node := do
  let n ← t.node attr
  n

def nodes (attr : String) : Result (List Node) := do
  let ns ← t.nodes attr
  Tagged.collect ns

/-- Where a stream of a command goes: nowhere else, if it was not given. -/
def stream (s : Stream) : Result Node :=
  match t.find? s.attr with
  | none => .ok (Node.stream s)
  | some _ => node t s.attr

def command : Result (Command Node) := do
  let args ← nodes t "args"
  let stdin ← stream t .input
  let stdout ← stream t .output
  let stderr ← stream t .error
  let background ← t.flag "background" false
  return ⟨args, stdin, stdout, stderr, background⟩

/-- The attributes that a tag declares, read in declared order. -/
def kind : Tag → Result (Kind Node)
  | .script => return .script (← nodes t "body")
  | .comment => return .comment (← t.text "value")
  | .string => return .string (← nodes t "parts")
  | .rawString => return .rawString (← t.text "value")
  | .var => return .var (← t.text "name")
  | .envVar => return .envVar (← t.text "name")
  | .stdIn => return .stream .input
  | .stdOut => return .stream .output
  | .stdErr => return .stream .error
  | .command => return .command .streamed (← command t)
  | .capturedCommand => return .command .captured (← command t)
  | .and => return .logic .and (← node t "lhs") (← node t "rhs")
  | .or => return .logic .or (← node t "lhs") (← node t "rhs")
  | .not => return .not (← node t "node")
  | .statement => return .statement (← node t "node")
  | .assign => return .assign (← t.text "name") (← node t "value") (← t.scope)
  | .envAssign => return .envAssign (← t.text "name") (← node t "value")
  | .delete => return .delete (← t.text "name")
  | .envDelete => return .envDelete (← t.text "name")
  | .aliasAssign => return .aliasAssign (← t.text "name") (← node t "value")
  | .aliasDelete => return .aliasDelete (← t.text "name")
  | .pass => return .pass
  | .ifElse => return .ifElse (← node t "test") (← nodes t "body") (← nodes t "orelse")
  | .forIn => return .forIn (← node t "target") (← node t "iter") (← nodes t "body")
  | .function => return .function (← t.text "name") (← nodes t "body")

/-- The keys, beside the declared attributes, that any map may carry. -/
def positionKeys : List String := ["lineno", "column"]

/-- Every required attribute has to be there, and no key that is not declared. -/
def check (tag : Tag) : Result Unit :=
  match tag.required.find? fun attr => (t.find? attr).isNone with
  | some attr => .error (.shape (.missing t.tag attr))
  | none =>
    let unknown := (t.attrs.map (·.1)).filter fun key =>
      !tag.attributes.contains key && !positionKeys.contains key
    if unknown.isEmpty then .ok () else .error (.unknown tag (unknown.mergeSort (· ≤ ·)))

/-- Reads an open map whose nested maps have been read. -/
def tagged : Result Node :=
  match Tag.ofName? t.tag with
  | none => .error (.unsupported t.tag)
  | some tag => do
    check t tag
    let k ← kind t tag
    let p ← t.position
    return ⟨k, p⟩

end Decode

/-- The tree of a tagged map. The first fault is reported: the shape of the map, its tag, a missing
attribute, unknown attributes, then the attributes in declared order, and the position last. -/
def decode : Json → Except DecodeError Node :=
  Tagged.read fun
    | .ok t => Decode.tagged t
    | .error e => .error (.shape e)

theorem decode_eq (m : Json) :
    decode m = match Tagged.parse m with
      | .ok t => Decode.tagged (t.map decode)
      | .error e => .error (.shape e) := by
  unfold decode
  rw [Tagged.read_eq]
  cases Tagged.parse m <;> rfl

end ShellTree
