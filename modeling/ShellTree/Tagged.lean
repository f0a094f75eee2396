import ShellTree.Json.Basic
import ShellTree.Node.Basic

/-! Tagged maps, the written form of a node: an object with the node's tag as its only key, whose
value is the object of its attributes. Every reader of maps goes through `Tagged`, so that a map
is checked in the same way wherever it is read. -/
namespace ShellTree

/-- What the value of an attribute has to be. -/
inductive Expected where
  | map
  | maps
  | text
  | flag
  | scope
  | natural
  deriving DecidableEq, Repr

def Expected.describe : Expected → String
  | .map => "a tagged map"
  | .maps => "a list of tagged maps"
  | .text => "a string"
  | .flag => "a boolean"
  | .scope => "\"local\" or \"global\""
  | .natural => "a non-negative integer"

/-- Why a value is no tagged map, or an attribute of one cannot be read. -/
inductive ShapeError where
  | notAnObject (found : Json.Kind)
  | notOneKey (count : Nat)
  | bodyNotAnObject (tag : String) (found : Json.Kind)
  | missing (tag attr : String)
  | invalid (tag attr : String) (expected : Expected)
  deriving DecidableEq, Repr

def ShapeError.message : ShapeError → String
  | .notAnObject found =>
    "malformed tagged map: expected a single-key object, found " ++ found.describe
  | .notOneKey count =>
    "malformed tagged map: expected exactly one top-level key, found " ++ toString count
  | .bodyNotAnObject tag found =>
    "malformed tagged map: attributes of '" ++ tag ++ "' must be an object, found " ++
      found.describe
  | .missing tag attr => "node " ++ tag ++ " is missing attribute '" ++ attr ++ "'"
  | .invalid tag attr expected =>
    "attribute '" ++ attr ++ "' of node " ++ tag ++ " must be " ++ expected.describe

/-- An attribute that was given: its value, what that reads as when taken for a map, and what
the elements read as if it is a list. -/
structure Attr (ρ : Type) where
  value : Json
  asNode : ρ
  asNodes : List ρ

/-- A tagged map opened: its tag, and its attributes in the order of the keys. -/
structure Tagged (ρ : Type) where
  tag : String
  attrs : List (String × Attr ρ)

namespace Tagged

section
variable {ρ σ : Type}

def map (f : ρ → σ) (t : Tagged ρ) : Tagged σ :=
  ⟨t.tag, t.attrs.map fun (name, a) => (name, ⟨a.value, f a.asNode, a.asNodes.map f⟩)⟩

/-- The attribute, if it was given. -/
def find? (t : Tagged ρ) (attr : String) : Option (Attr ρ) := t.attrs.lookup attr

def get (t : Tagged ρ) (attr : String) : Except ShapeError (Attr ρ) :=
  match t.find? attr with
  | some a => .ok a
  | none => .error (.missing t.tag attr)

/-- An attribute that is a map. Only that it is an object is checked here. -/
def nested (t : Tagged ρ) (attr : String) : Except ShapeError (Attr ρ) := do
  let a ← t.get attr
  match a.value with
  | .obj _ => .ok a
  | _ => .error (.invalid t.tag attr .map)

/-- What a nested map reads as. -/
def node (t : Tagged ρ) (attr : String) : Except ShapeError ρ := do
  let a ← t.nested attr
  .ok a.asNode

/-- A list of maps. Only that it is a list is checked here. -/
def nodes (t : Tagged ρ) (attr : String) : Except ShapeError (List ρ) := do
  let a ← t.get attr
  match a.value with
  | .arr _ => .ok a.asNodes
  | _ => .error (.invalid t.tag attr .maps)

/-- A list of maps, empty where it was not given. -/
def optionalNodes (t : Tagged ρ) (attr : String) : Except ShapeError (List ρ) :=
  match t.find? attr with
  | none => .ok []
  | some _ => t.nodes attr

def text (t : Tagged ρ) (attr : String) : Except ShapeError String := do
  let a ← t.get attr
  match a.value with
  | .str s => .ok s
  | _ => .error (.invalid t.tag attr .text)

/-- A flag, with its value where it was not given. -/
def flag (t : Tagged ρ) (attr : String) (absent : Bool) : Except ShapeError Bool :=
  match t.find? attr with
  | none => .ok absent
  | some a =>
    match a.value with
    | .bool b => .ok b
    | _ => .error (.invalid t.tag attr .flag)

def scope (t : Tagged ρ) : Except ShapeError Scope := do
  match Scope.ofName? (← t.text "scope") with
  | some s => .ok s
  | none => .error (.invalid t.tag "scope" .scope)

/-- Half of a position: the first line or column where only the other half was given. -/
def ordinal (t : Tagged ρ) (attr : String) (absent : Nat) : Except ShapeError Nat :=
  match t.find? attr with
  | none => .ok absent
  | some a =>
    match a.value with
    | .num n =>
      match n.natural? with
      | some k => .ok k
      | none => .error (.invalid t.tag attr .natural)
    | _ => .error (.invalid t.tag attr .natural)

/-- The position that a map carries, if it gives a line or a column. -/
def position (t : Tagged ρ) : Except ShapeError (Option Position) :=
  match t.find? "lineno", t.find? "column" with
  | none, none => .ok none
  | _, _ => do
    let line ← t.ordinal "lineno" Position.first.line
    let column ← t.ordinal "column" Position.first.column
    .ok (some ⟨line, column⟩)

end

section
variable {ρ : Type} (step : Except ShapeError (Tagged ρ) → ρ)

mutual

/-- Reads a map bottom up: `step` is given the map opened, with all that is nested in its
attributes read, or why it cannot be opened. -/
def read : Json → ρ
  | .obj [(tag, .obj attrs)] => step (.ok ⟨tag, readAttrs attrs⟩)
  | .obj [(tag, body)] => step (.error (.bodyNotAnObject tag body.kind))
  | .obj fields => step (.error (.notOneKey fields.length))
  | m => step (.error (.notAnObject m.kind))

def readAttrs : List (String × Json) → List (String × Attr ρ)
  | [] => []
  | (name, v) :: rest => (name, ⟨v, read v, readElements v⟩) :: readAttrs rest

/-- The elements of a list; no other value has any. -/
def readElements : Json → List ρ
  | .arr items => readItems items
  | _ => []

def readItems : List Json → List ρ
  | [] => []
  | m :: rest => read m :: readItems rest

end
end

/-- The elements of a list; no other value has any. -/
def elements : Json → List Json
  | .arr items => items
  | _ => []

/-- A map opened, with what is nested in it as it stands. -/
def parse : Json → Except ShapeError (Tagged Json)
  | .obj [(tag, .obj attrs)] => .ok ⟨tag, attrs.map fun (name, v) => (name, ⟨v, v, elements v⟩)⟩
  | .obj [(tag, body)] => .error (.bodyNotAnObject tag body.kind)
  | .obj fields => .error (.notOneKey fields.length)
  | m => .error (.notAnObject m.kind)

section
variable {ρ : Type} (step : Except ShapeError (Tagged ρ) → ρ)

theorem readItems_eq_map (items : List Json) : readItems step items = items.map (read step) := by
  induction items with
  | nil => rfl
  | cons m rest ih => simp [readItems, ih]

theorem readElements_eq_map (m : Json) : readElements step m = (elements m).map (read step) := by
  cases m <;> simp [readElements, elements, readItems_eq_map]

theorem readAttrs_eq_map (attrs : List (String × Json)) :
    readAttrs step attrs =
      attrs.map fun (name, v) => (name, ⟨v, read step v, (elements v).map (read step)⟩) := by
  induction attrs with
  | nil => rfl
  | cons a rest ih => obtain ⟨name, v⟩ := a; simp [readAttrs, ih, readElements_eq_map]

/-- Reading opens a map and reads what is nested in it. -/
theorem read_eq (m : Json) : read step m = step ((parse m).map (Tagged.map (read step))) := by
  unfold read parse
  split <;> simp [Except.map, Tagged.map, readAttrs_eq_map, Function.comp_def]

end

/-- All the results, or the first error among them. -/
def collect {ε α : Type} : List (Except ε α) → Except ε (List α)
  | [] => .ok []
  | x :: xs => do
    let a ← x
    let rest ← collect xs
    .ok (a :: rest)

/-- The only key of an object, whatever its value. -/
def tagOf? : Json → Option String
  | .obj [(tag, _)] => some tag
  | _ => none

end Tagged
end ShellTree
