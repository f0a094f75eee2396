import ShellTree.Tag

/-! Syntax trees. A node is its kind, which holds exactly the attributes that its tag declares,
and perhaps a position in a source text. Positions never count in comparisons. -/
namespace ShellTree

structure Position where
  line : Nat
  column : Nat
  deriving DecidableEq, Repr

/-- The position that a missing half of a position takes its number from. -/
def Position.first : Position := ⟨1, 1⟩

/-- Where the variable of an assignment lives. -/
inductive Scope where
  | localOnly
  | global
  deriving DecidableEq, Repr

namespace Scope

def name : Scope → String
  | .localOnly => "local"
  | .global => "global"

def ofName? (s : String) : Option Scope := [localOnly, global].find? (·.name == s)

@[simp] theorem ofName?_name (s : Scope) : ofName? s.name = some s := by
  cases s <;> decide +kernel

end Scope

/-- Whether the output of a command runs through or is taken as a value. -/
inductive Mode where
  | streamed
  | captured
  deriving DecidableEq, Repr

inductive Connective where
  | and
  | or
  deriving DecidableEq, Repr

/-- A command line whose parts are of type `ν`. -/
structure Command (ν : Type) where
  args : List ν
  stdin : ν
  stdout : ν
  stderr : ν
  background : Bool

/-- One level of a tree, with `ν` in the place of the nodes below. -/
inductive Kind (ν : Type) where
  | script (body : List ν)
  | comment (value : String)
  | string (parts : List ν)
  | rawString (value : String)
  | var (name : String)
  | envVar (name : String)
  | stream (s : Stream)
  | command (mode : Mode) (c : Command ν)
  | logic (op : Connective) (lhs rhs : ν)
  | not (node : ν)
  | statement (node : ν)
  | assign (name : String) (value : ν) (scope : Scope)
  | envAssign (name : String) (value : ν)
  | delete (name : String)
  | envDelete (name : String)
  | aliasAssign (name : String) (value : ν)
  | aliasDelete (name : String)
  | pass
  | ifElse (test : ν) (body orelse : List ν)
  | forIn (target iter : ν) (body : List ν)
  | function (name : String) (body : List ν)

structure Node where
  kind : Kind Node
  position : Option Position

/-- The value of an attribute, as its kind shows it. -/
inductive AttrValue (ν : Type) where
  | node (n : ν)
  | nodes (ns : List ν)
  | text (s : String)
  | flag (b : Bool)
  | scope (s : Scope)

section
variable {ν ρ : Type}

def AttrValue.map (f : ν → ρ) : AttrValue ν → AttrValue ρ
  | .node n => .node (f n)
  | .nodes ns => .nodes (ns.map f)
  | .text s => .text s
  | .flag b => .flag b
  | .scope s => .scope s

def Command.map (f : ν → ρ) (c : Command ν) : Command ρ :=
  ⟨c.args.map f, f c.stdin, f c.stdout, f c.stderr, c.background⟩

namespace Kind

def map (f : ν → ρ) : Kind ν → Kind ρ
  | .script body => .script (body.map f)
  | .comment value => .comment value
  | .string parts => .string (parts.map f)
  | .rawString value => .rawString value
  | .var name => .var name
  | .envVar name => .envVar name
  | .stream s => .stream s
  | .command mode c => .command mode (c.map f)
  | .logic op lhs rhs => .logic op (f lhs) (f rhs)
  | .not node => .not (f node)
  | .statement node => .statement (f node)
  | .assign name value scope => .assign name (f value) scope
  | .envAssign name value => .envAssign name (f value)
  | .delete name => .delete name
  | .envDelete name => .envDelete name
  | .aliasAssign name value => .aliasAssign name (f value)
  | .aliasDelete name => .aliasDelete name
  | .pass => .pass
  | .ifElse test body orelse => .ifElse (f test) (body.map f) (orelse.map f)
  | .forIn target iter body => .forIn (f target) (f iter) (body.map f)
  | .function name body => .function name (body.map f)

def tag : Kind ν → Tag
  | .script _ => .script
  | .comment _ => .comment
  | .string _ => .string
  | .rawString _ => .rawString
  | .var _ => .var
  | .envVar _ => .envVar
  | .stream s => s.tag
  | .command .streamed _ => .command
  | .command .captured _ => .capturedCommand
  | .logic .and _ _ => .and
  | .logic .or _ _ => .or
  | .not _ => .not
  | .statement _ => .statement
  | .assign _ _ _ => .assign
  | .envAssign _ _ => .envAssign
  | .delete _ => .delete
  | .envDelete _ => .envDelete
  | .aliasAssign _ _ => .aliasAssign
  | .aliasDelete _ => .aliasDelete
  | .pass => .pass
  | .ifElse _ _ _ => .ifElse
  | .forIn _ _ _ => .forIn
  | .function _ _ => .function

/-- The attributes with their names, in declared order. -/
def attributes : Kind ν → List (String × AttrValue ν)
  | .script body => [("body", .nodes body)]
  | .comment value | .rawString value => [("value", .text value)]
  | .string parts => [("parts", .nodes parts)]
  | .var name | .envVar name | .delete name | .envDelete name | .aliasDelete name =>
    [("name", .text name)]
  | .stream _ | .pass => []
  | .command _ c =>
    [("args", .nodes c.args), ("stdin", .node c.stdin), ("stdout", .node c.stdout),
      ("stderr", .node c.stderr), ("background", .flag c.background)]
  | .logic _ lhs rhs => [("lhs", .node lhs), ("rhs", .node rhs)]
  | .not node | .statement node => [("node", .node node)]
  | .assign name value scope =>
    [("name", .text name), ("value", .node value), ("scope", .scope scope)]
  | .envAssign name value | .aliasAssign name value =>
    [("name", .text name), ("value", .node value)]
  | .ifElse test body orelse =>
    [("test", .node test), ("body", .nodes body), ("orelse", .nodes orelse)]
  | .forIn target iter body =>
    [("target", .node target), ("iter", .node iter), ("body", .nodes body)]
  | .function name body => [("name", .text name), ("body", .nodes body)]

@[simp] theorem tag_map (f : ν → ρ) (k : Kind ν) : (k.map f).tag = k.tag := by
  cases k with
  | command mode _ => cases mode <;> rfl
  | logic op _ _ => cases op <;> rfl
  | _ => rfl

@[simp] theorem attributes_map (f : ν → ρ) (k : Kind ν) :
    (k.map f).attributes = k.attributes.map fun a => (a.1, a.2.map f) := by
  cases k <;> rfl

/-- A kind holds the attributes that its tag declares. -/
theorem attributes_names (k : Kind ν) : k.attributes.map (·.1) = k.tag.attributes := by
  cases k with
  | command mode _ => cases mode <;> rfl
  | logic op _ _ => cases op <;> rfl
  | stream s => cases s <;> rfl
  | _ => rfl

end Kind
end

namespace Node

section
variable {ρ : Type} (f : Kind ρ → Option Position → ρ)

mutual

/-- Computes bottom up: `f` is given a kind whose nodes have been computed. -/
def fold : Node → ρ
  | ⟨k, p⟩ => f (foldKind k) p

def foldKind : Kind Node → Kind ρ
  | .script body => .script (foldList body)
  | .comment value => .comment value
  | .string parts => .string (foldList parts)
  | .rawString value => .rawString value
  | .var name => .var name
  | .envVar name => .envVar name
  | .stream s => .stream s
  | .command mode ⟨args, stdin, stdout, stderr, background⟩ =>
    .command mode ⟨foldList args, fold stdin, fold stdout, fold stderr, background⟩
  | .logic op lhs rhs => .logic op (fold lhs) (fold rhs)
  | .not node => .not (fold node)
  | .statement node => .statement (fold node)
  | .assign name value scope => .assign name (fold value) scope
  | .envAssign name value => .envAssign name (fold value)
  | .delete name => .delete name
  | .envDelete name => .envDelete name
  | .aliasAssign name value => .aliasAssign name (fold value)
  | .aliasDelete name => .aliasDelete name
  | .pass => .pass
  | .ifElse test body orelse => .ifElse (fold test) (foldList body) (foldList orelse)
  | .forIn target iter body => .forIn (fold target) (fold iter) (foldList body)
  | .function name body => .function name (foldList body)

def foldList : List Node → List ρ
  | [] => []
  | n :: ns => fold n :: foldList ns

end

theorem foldList_eq_map (ns : List Node) : foldList f ns = ns.map (fold f) := by
  induction ns with
  | nil => rfl
  | cons n ns ih => simp [foldList, ih]

theorem foldKind_eq_map (k : Kind Node) : foldKind f k = k.map (fold f) := by
  cases k <;> simp [foldKind, Kind.map, Command.map, foldList_eq_map]

theorem fold_mk (k : Kind Node) (p : Option Position) :
    fold f ⟨k, p⟩ = f (k.map (fold f)) p := by
  simp [fold, foldKind_eq_map]

end

def tag (n : Node) : Tag := n.kind.tag

/-- The tree without its positions, at every depth. -/
def erase : Node → Node := fold fun k _ => ⟨k, none⟩

/-- Whether two attributes agree, given a test for each node of the first. -/
def agree : AttrValue (Node → Bool) → AttrValue Node → Bool
  | .node p, .node n => p n
  | .nodes ps, .nodes ns => ps.length == ns.length && (ps.zip ns).all fun (p, n) => p n
  | .text a, .text b => a == b
  | .flag a, .flag b => a == b
  | .scope a, .scope b => a == b
  | _, _ => false

/-- Equality of trees, their positions left aside. -/
def same : Node → Node → Bool :=
  fold fun k _ other =>
    k.tag == other.tag &&
      (k.attributes.zip other.kind.attributes).all fun (a, b) => agree a.2 b.2

/-- One step down a tree: an attribute, and the place in its list if it is one. -/
structure Step where
  attr : String
  index : Option Nat
  deriving DecidableEq, Repr

/-- The positions in a tree with the ways that lead to them, a node before the nodes below it. -/
def positions (n : Node) : List (List Step × Position) :=
  go n []
where
  go : Node → List Step → List (List Step × Position) :=
    fold fun k p path =>
      (p.map (path, ·)).toList ++ k.attributes.flatMap fun (attr, value) =>
        match value with
        | .node below => below (path ++ [⟨attr, none⟩])
        | .nodes below => below.zipIdx.flatMap fun (g, i) => g (path ++ [⟨attr, some i⟩])
        | _ => []

/-- A way down a tree, as `$.attr[index].attr`. -/
def pathText (path : List Step) : String :=
  "$" ++ String.join (path.map fun s =>
    "." ++ s.attr ++ (match s.index with
      | some i => "[" ++ toString i ++ "]"
      | none => ""))

end Node
end ShellTree
