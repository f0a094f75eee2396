import ShellTree.Yaml.Token

/-! The document that YAML tokens spell: a tree, and the trees in it that aliases stand for. -/
namespace ShellTree.Yaml

/-- A tag is its bytes, which need not be text. -/
inductive Tree where
  | scalar (tag : Option (List UInt8)) (text : String) (plain : Bool)
  | list (tag : Option (List UInt8)) (items : List Tree)
  | map (tag : Option (List UInt8)) (members : List (Tree × Tree))
  /-- What a slot of the document holds. -/
  | alias (slot : Nat)

/-- A tree that was given a name, and the slot that it took. -/
structure Anchored where
  name : String
  slot : Nat
  tree : Tree

/-- A tree with the named trees in it, in the order in which they start. -/
structure Document where
  root : Tree
  anchored : List Anchored

/-- A slot holds the last of the trees that took it, which may start after an alias for it. -/
def Document.held? (d : Document) (slot : Nat) : Option Tree :=
  (d.anchored.reverse.find? (·.slot == slot)).map (·.tree)

namespace Tree

/-- What is left out is an empty plain scalar. -/
def empty : Tree := .scalar none "" true

mutual

/-- The number of marks that a tree is made of: one for a scalar or alias, a start and an end for a
list or map. -/
def marks : Tree → Nat
  | .scalar _ _ _ => 1
  | .alias _ => 1
  | .list _ items => 2 + itemMarks items
  | .map _ members => 2 + memberMarks members

def itemMarks : List Tree → Nat
  | [] => 0
  | t :: rest => marks t + itemMarks rest

def memberMarks : List (Tree × Tree) → Nat
  | [] => 0
  | (k, v) :: rest => marks k + marks v + memberMarks rest

end
end Tree

namespace Parse

/-- The tokens ahead, the named trees that have started, and the meanings of tag handles. A named
tree is empty while it is being read. -/
structure State where
  tokens : List Token
  anchored : List Anchored
  handles : List (String × List UInt8)

abbrev Parser := StateT State Option

def peek : Parser (Option Token) := do return (← get).tokens.head?

def skip : Parser Unit := modify fun s => { s with tokens := s.tokens.drop 1 }

/-- A tree, unless one of some tokens shows that it was left out. -/
def orEmpty (ends : List Token) (item : Parser Tree) : Parser Tree := do
  match ← peek with
  | some t => if ends.contains t then return .empty else item
  | none => item

/-- A value behind its sign; without the sign it was left out. -/
def valueOf (ends : List Token) (item : Parser Tree) : Parser Tree := do
  match ← peek with
  | some .value => skip; orEmpty ends item
  | _ => return .empty

section Collections
variable (item : Parser Tree)

/-- The entries of a list in a block of its own. -/
def blockList : Nat → Parser (List Tree)
  | 0 => failure
  | n+1 => do
    match ← peek with
    | some .blockEntry => do
      skip
      let x ← orEmpty [.blockEntry, .blockEnd] item
      return x :: (← blockList n)
    | some .blockEnd => skip; return []
    | _ => failure

/-- The entries of a list that is indented no further than the key that it belongs to. -/
def flushList : Nat → Parser (List Tree)
  | 0 => failure
  | n+1 => do
    match ← peek with
    | some .blockEntry => do
      skip
      let x ← orEmpty [.blockEntry, .key, .value, .blockEnd] item
      return x :: (← flushList n)
    | _ => return []

def blockMap : Nat → Parser (List (Tree × Tree))
  | 0 => failure
  | n+1 => do
    match ← peek with
    | some .key => do
      skip
      let ends := [Token.key, .value, .blockEnd]
      let k ← orEmpty ends item
      let v ← valueOf ends item
      return (k, v) :: (← blockMap n)
    | some .blockEnd => skip; return []
    | _ => failure

/-- One member of a list in brackets that is written as a key and a value. Where the key is left
out, the token that shows it is passed over. -/
def pair : Parser Tree := do
  let ends := [Token.flowEntry, .flowSequenceEnd]
  let k ← match ← peek with
    | some t => if t = .value || ends.contains t then (do skip; return Tree.empty) else item
    | none => item
  let v ← valueOf ends item
  return .map none [(k, v)]

/-- The members of a list in brackets; a comma stands before all but the first. -/
def flowList : Nat → Bool → Parser (List Tree)
  | 0, _ => failure
  | n+1, first => do
    if !first ∧ (← peek) ≠ some .flowSequenceEnd then
      if (← peek) ≠ some .flowEntry then failure
      skip
    match ← peek with
    | some .flowSequenceEnd => skip; return []
    | some .key => do
      skip
      let x ← pair item
      return x :: (← flowList n false)
    | _ => do
      let x ← item
      return x :: (← flowList n false)

/-- The members of a map in brackets. -/
def flowMap : Nat → Bool → Parser (List (Tree × Tree))
  | 0, _ => failure
  | n+1, first => do
    if !first ∧ (← peek) ≠ some .flowMappingEnd then
      if (← peek) ≠ some .flowEntry then failure
      skip
    match ← peek with
    | some .flowMappingEnd => skip; return []
    | some .key => do
      skip
      let k ← orEmpty [.value, .flowEntry, .flowMappingEnd] item
      let v ← valueOf [.flowEntry, .flowMappingEnd] item
      return (k, v) :: (← flowMap n false)
    | _ => do
      let k ← item
      return (k, .empty) :: (← flowMap n false)

end Collections

/-- The full tag of a handle and a suffix. -/
def fullTag (handle : String) (suffix : List UInt8) : Parser (List UInt8) := do
  if handle.isEmpty then return suffix
  match (← get).handles.lookup handle with
  | some meaning => return meaning ++ suffix
  | none => failure

/-- The anchor and the tag of a tree, in either order. -/
def properties : Parser (Option String × Option (List UInt8)) := do
  match ← peek with
  | some (.anchor name) => do
    skip
    match ← peek with
    | some (.tag handle suffix) => do
      skip
      return (some name, some (← fullTag handle suffix))
    | _ => return (some name, none)
  | some (.tag handle suffix) => do
    skip
    match ← peek with
    | some (.anchor name) => do
      skip
      return (some name, some (← fullTag handle suffix))
    | _ => return (none, some (← fullTag handle suffix))
  | _ => return (none, none)

/-- The slot for a new anchor: the number of names so far. A name that is given again does not add
to them, so that its new slot is taken again by the next name. -/
def freeSlot (anchored : List Anchored) : Nat := (anchored.map (·.name)).eraseDups.length

/-- The slot of the tree that was last given a name. -/
def slotOf? (anchored : List Anchored) (name : String) : Option Nat :=
  (anchored.reverse.find? (·.name == name)).map (·.slot)

/-- Reads a tree with the name that it was given, if any. The name is known within the tree. -/
def anchor (name : Option String) (item : Parser Tree) : Parser Tree := do
  match name with
  | none => item
  | some name => do
    let before := (← get).anchored
    let started : Anchored := ⟨name, freeSlot before, .empty⟩
    modify fun s => { s with anchored := before ++ [started] }
    let t ← item
    modify fun s =>
      { s with anchored := s.anchored.modify before.length fun a => { a with tree := t } }
    return t

/-- Where a tree stands: what starts a block may stand only in blocks, and a list that is flush
with its key only behind a key or its value. -/
inductive Place where
  | flow
  | block
  | member
  deriving DecidableEq

/-- A tree. Every level takes a token, and so does every member of a list or map, so that the number
of tokens is depth and fuel enough. -/
def tree (fuel : Nat) : Nat → Place → Parser Tree
  | 0, _ => failure
  | depth+1, place => do
    match ← peek with
    | some (.alias name) => do
      skip
      match slotOf? (← get).anchored name with
      | some slot => return .alias slot
      | none => failure
    | _ => do
      let (name, tag) ← properties
      let leftOut : Parser Tree :=
        if name.isSome || tag.isSome then return .scalar tag "" true else failure
      let inBlock := tree fuel depth .block
      anchor name do
        match ← peek with
        | some (.scalar text plain) => skip; return .scalar tag text plain
        | some .flowSequence => skip; .list tag <$> flowList (tree fuel depth .flow) fuel true
        | some .flowMapping => skip; .map tag <$> flowMap (tree fuel depth .flow) fuel true
        | some .blockEntry =>
          if place = .member then .list tag <$> flushList inBlock fuel else leftOut
        | some .blockSequence =>
          if place = .flow then leftOut else (do skip; .list tag <$> blockList inBlock fuel)
        | some .blockMapping =>
          if place = .flow then leftOut
          else (do skip; .map tag <$> blockMap (tree fuel depth .member) fuel)
        | _ => leftOut

/-- The directives before a document: at most one version, which has to be known, and each handle
given a meaning at most once. -/
def directives : Nat → Bool → List String → Parser Unit
  | 0, _, _ => failure
  | n+1, versioned, given => do
    match ← peek with
    | some (.versionDirective major minor) => do
      if versioned ∨ major ≠ 1 ∨ (minor ≠ 1 ∧ minor ≠ 2) then failure
      skip
      directives n true given
    | some (.tagDirective handle meaning) => do
      if given.contains handle then failure
      skip
      modify fun s => { s with handles := (handle, meaning) :: s.handles }
      directives n versioned (handle :: given)
    | _ => return ()

def skipEnds : Nat → Parser Unit
  | 0 => return ()
  | n+1 => do
    if (← peek) = some .documentEnd then
      skip
      skipEnds n

/-- The only document of a text. It needs a mark at its start only after directives. -/
def document : Parser Tree := do
  let fuel := (← get).tokens.length + 1
  let root := tree fuel fuel .block
  let t ← match ← peek with
    | none => pure Tree.empty
    | some .documentStart => do
      skip
      content root
    | some (.versionDirective _ _) | some (.tagDirective _ _) => do
      directives fuel false []
      if (← peek) ≠ some .documentStart then failure
      skip
      content root
    | _ => root
  skipEnds fuel
  if (← peek).isSome then failure
  return t
where
  /-- A document may be empty. -/
  content (root : Parser Tree) : Parser Tree := do
    match ← peek with
    | none | some .documentStart | some .documentEnd | some (.versionDirective _ _)
    | some (.tagDirective _ _) => return .empty
    | _ => root

end Parse

/-- What the handles mean that need no directive. -/
def standardHandles : List (String × List UInt8) :=
  [("!", ascii "!"), ("!!", ascii "tag:yaml.org,2002:")]

/-- The document of a text that holds no more than one. -/
def Document.ofTokens? (ts : List Token) : Option Document := do
  let (root, s) ← Parse.document.run ⟨ts, [], standardHandles⟩
  return ⟨root, s.anchored⟩

end ShellTree.Yaml
