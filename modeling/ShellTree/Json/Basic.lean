import ShellTree.Double.Basic

/-! JSON values whose objects keep the order of their keys. -/
namespace ShellTree

/-- A number is an exact integer of 64 bits, signed or unsigned, or a double. -/
inductive Number where
  | int (n : Int) (inRange : -0x8000000000000000 ≤ n ∧ n < 0x10000000000000000)
  | double (x : Double)
  deriving DecidableEq, Repr

namespace Number

/-- An exact integer, where it fits. -/
def ofInt? (n : Int) : Option Number :=
  if h : -0x8000000000000000 ≤ n ∧ n < 0x10000000000000000 then some (.int n h) else none

/-- Exact integers are never equal to doubles. -/
def sameValue : Number → Number → Bool
  | .int a _, .int b _ => a == b
  | .double a, .double b => a.sameValue b
  | _, _ => false

/-- Only exact integers count, `1.0` does not. -/
def natural? : Number → Option Nat
  | .int (.ofNat n) _ => some n
  | _ => none

end Number

inductive Json where
  | null
  | bool (b : Bool)
  | num (n : Number)
  | str (s : String)
  | arr (items : List Json)
  | obj (fields : List (String × Json))

namespace Json

/-- Sets a key. A key that is there keeps its place and takes the new value. -/
def insertField (fields : List (String × Json)) (key : String) (value : Json) :
    List (String × Json) :=
  if fields.any (·.1 == key) then
    fields.map fun field => if field.1 == key then (key, value) else field
  else fields ++ [(key, value)]

/-- The object of some members: a repeated key has its first place and its last value. -/
def ofMembers (members : List (String × Json)) : Json :=
  .obj (members.foldl (fun fields (key, value) => insertField fields key value) [])

mutual

/-- Equality of values, whatever the order of the keys. -/
def equiv : Json → Json → Bool
  | .null, .null => true
  | .bool a, .bool b => a == b
  | .num a, .num b => a.sameValue b
  | .str a, .str b => a == b
  | .arr as, .arr bs => equivItems as bs
  | .obj as, .obj bs => as.length == bs.length && equivFields as bs
  | _, _ => false

def equivItems : List Json → List Json → Bool
  | [], [] => true
  | a :: as, b :: bs => equiv a b && equivItems as bs
  | _, _ => false

/-- Each field has its counterpart, which is looked up by key. -/
def equivFields : List (String × Json) → List (String × Json) → Bool
  | [], _ => true
  | (key, a) :: as, bs =>
    (match bs.lookup key with
      | some b => equiv a b
      | none => false) && equivFields as bs

end

/-- What a value is, as error messages name it. -/
inductive Kind where
  | null | boolean | number | string | list | object
  deriving DecidableEq, Repr

def kind : Json → Kind
  | .null => .null
  | .bool _ => .boolean
  | .num _ => .number
  | .str _ => .string
  | .arr _ => .list
  | .obj _ => .object

def Kind.describe : Kind → String
  | .null => "null"
  | .boolean => "a boolean"
  | .number => "a number"
  | .string => "a string"
  | .list => "a list"
  | .object => "an object"

end Json
end ShellTree
