import ShellTree.Double.Shortest
import ShellTree.Json.Basic

/-! JSON text of a value: on one line, or with one member a line. -/
namespace ShellTree

/-- Positional between `1e-5` and `1e16`, with at least one decimal; elsewhere one digit before
the point and a signed exponent. -/
def Double.text (x : Double) : String :=
  let sign := if x.negative then "-" else ""
  if x.isZero then sign ++ "0.0" else
  let d := x.shortest.trim
  let digits := Nat.toDigits 10 d.digits
  let point := digits.length + d.exponent
  let magnitude : List Char :=
    if 0 ≤ d.exponent ∧ point ≤ 16 then
      digits ++ List.replicate d.exponent.toNat '0' ++ ['.', '0']
    else if 0 < point ∧ point ≤ 16 then
      digits.take point.toNat ++ '.' :: digits.drop point.toNat
    else if -5 < point ∧ point ≤ 0 then
      '0' :: '.' :: List.replicate (-point).toNat '0' ++ digits
    else
      let fraction := if digits.length = 1 then [] else '.' :: digits.drop 1
      let exponent := point - 1
      digits.take 1 ++ fraction ++
        'e' :: (if exponent < 0 then '-' else '+') :: Nat.toDigits 10 exponent.natAbs
  sign ++ String.ofList magnitude

def Number.text : Number → String
  | .int n _ => toString n
  | .double x => x.text

namespace Json

/-- Only quotes, backslashes and control characters below the space are escaped. -/
def escape (c : Char) : List Char :=
  if c = '"' then ['\\', '"']
  else if c = '\\' then ['\\', '\\']
  else if c = '\x08' then ['\\', 'b']
  else if c = '\x0c' then ['\\', 'f']
  else if c = '\n' then ['\\', 'n']
  else if c = '\r' then ['\\', 'r']
  else if c = '\t' then ['\\', 't']
  else if c.toNat < 0x20 then
    ['\\', 'u', '0', '0', Nat.digitChar (c.toNat / 16), Nat.digitChar (c.toNat % 16)]
  else [c]

def quote (s : String) : String :=
  String.ofList ('"' :: s.toList.flatMap escape ++ ['"'])

mutual

/-- The text on one line without spaces. -/
def compact : Json → String
  | .null => "null"
  | .bool b => if b then "true" else "false"
  | .num n => n.text
  | .str s => quote s
  | .arr items => "[" ++ ",".intercalate (compactItems items) ++ "]"
  | .obj fields => "\x7b" ++ ",".intercalate (compactFields fields) ++ "\x7d"

def compactItems : List Json → List String
  | [] => []
  | v :: rest => compact v :: compactItems rest

def compactFields : List (String × Json) → List String
  | [] => []
  | (key, v) :: rest => (quote key ++ ":" ++ compact v) :: compactFields rest

end

/-- Members on lines of their own inside the brackets; brackets without members stay together. -/
def bracket (opening closing margin unit : String) : List String → String
  | [] => opening ++ closing
  | members =>
    opening ++ "\n" ++ margin ++ unit ++ (",\n" ++ margin ++ unit).intercalate members ++
      "\n" ++ margin ++ closing

mutual

/-- The text with one member a line, each level `unit` deeper than the `margin` around it. -/
def indented (unit margin : String) : Json → String
  | .null => "null"
  | .bool b => if b then "true" else "false"
  | .num n => n.text
  | .str s => quote s
  | .arr items => bracket "[" "]" margin unit (indentedItems unit (margin ++ unit) items)
  | .obj fields =>
    bracket "\x7b" "\x7d" margin unit (indentedFields unit (margin ++ unit) fields)

def indentedItems (unit margin : String) : List Json → List String
  | [] => []
  | v :: rest => indented unit margin v :: indentedItems unit margin rest

def indentedFields (unit margin : String) : List (String × Json) → List String
  | [] => []
  | (key, v) :: rest =>
    (quote key ++ ": " ++ indented unit margin v) :: indentedFields unit margin rest

end

/-- The text of a whole document with one member a line. -/
def pretty (unit : String) (m : Json) : String := indented unit "" m

end Json
end ShellTree
