import ShellTree.Json.Reader
import ShellTree.Yaml.Spot

/-! What the text of a plain YAML scalar stands for: nothing, a truth value, a number or text. -/
namespace ShellTree.Yaml

def isNull (s : List Char) : Bool := ["null", "Null", "NULL", "~"].any (·.toList == s)

def bool? (s : List Char) : Option Bool :=
  if ["true", "True", "TRUE"].any (·.toList == s) then some true
  else if ["false", "False", "FALSE"].any (·.toList == s) then some false
  else none

/-- Digits of a base, at least one. -/
def digits? (base : Nat) (s : List Char) : Option Nat := do
  let ds ← s.mapM Json.hexValue?
  if ds.isEmpty || ds.any (base ≤ ·) then none else some (ds.foldl (fun n d => base*n + d) 0)

/-- The magnitude of an integer: decimal, or in the base that its first two characters tell. -/
def magnitude? : List Char → Option Nat
  | '0' :: 'x' :: ds => digits? 16 ds
  | '0' :: 'o' :: ds => digits? 8 ds
  | '0' :: 'b' :: ds => digits? 2 ds
  | ds => digits? 10 ds

def dropPlus : List Char → List Char
  | '+' :: s => s
  | s => s

/-- Digits behind a zero, which are text and no number. -/
def isPadded (s : List Char) : Bool :=
  match (match s with
    | '-' :: s => s
    | s => dropPlus s) with
  | '0' :: d :: ds => (d :: ds).all Char.isDigit
  | _ => false

def int? (s : List Char) : Option Int :=
  if isPadded s then none else
  match s with
  | '-' :: s => (magnitude? s).map fun n => -n
  | s => (magnitude? (dropPlus s)).map fun n => n

/-- The value of digits with a power of ten. Far outside the range of doubles no power is worked
out. -/
def decimal? (negative : Bool) (digits : List Char) (exponent : Int) : Option Double :=
  let n := digits.foldl (fun n c => 10*n + Json.digitValue c) 0
  let leading := exponent + digits.length
  if n = 0 ∨ leading < -400 then some (.zero negative)
  else if 400 < leading - (digits.takeWhile (· == '0')).length then none
  else match exponent with
    | .ofNat e => Double.ofRatio? negative (n * Nat.pow 10 e) 1
    | .negSucc e => Double.ofRatio? negative n (Nat.pow 10 (e+1))

/-- The power of ten after the digits of a number: nothing, or a mark and a whole number. -/
def exponent? : List Char → Option Int
  | [] => some 0
  | c :: s =>
    if c ≠ 'e' ∧ c ≠ 'E' then none else
    match s with
    | '-' :: s => (digits? 10 s).map fun n => -n
    | s => (digits? 10 (dropPlus s)).map fun n => n

/-- A finite double. There is a digit before or after the point; the rest may be left out. -/
def float? (s : List Char) : Option Double :=
  let (negative, s) := match s with
    | '-' :: s => (true, s)
    | s => (false, dropPlus s)
  let (whole, s) := s.span Char.isDigit
  let (fraction, s) := match s with
    | '.' :: s => s.span Char.isDigit
    | s => ([], s)
  if whole.isEmpty && fraction.isEmpty then none else do
    let e ← exponent? s
    decimal? negative (whole ++ fraction) (e - fraction.length)

def isInfinity (s : List Char) : Bool :=
  let unsigned := match s with
    | '-' :: s => s
    | s => dropPlus s
  [".inf", ".Inf", ".INF"].any (·.toList == unsigned)

def isNan (s : List Char) : Bool := [".nan", ".NaN", ".NAN"].any (·.toList == s)

/-- The widest integers that are still told apart from doubles, though no value holds them. -/
def isWide (n : Int) : Bool :=
  -0x80000000000000000000000000000000 ≤ n && n < 0x100000000000000000000000000000000

/-- An integer as a value: nothing for one that no text and no double may stand for. -/
def intValue? (n : Int) : Option (Option Json) :=
  match Number.ofInt? n with
  | some n => some (some (.num n))
  | none => if isWide n then some none else none

/-- A double as a value. Infinities and what is no number become null. -/
def floatValue? (s : List Char) : Option Json :=
  if isInfinity s || isNan s then some .null else (float? s).map fun x => .num (.double x)

/-- The value of a plain scalar without a tag. An integer too wide for a value is an error. -/
def plainValue (text : String) : Option Json :=
  let s := text.toList
  if s.isEmpty || isNull s then some .null else
  match bool? s with
  | some b => some (.bool b)
  | none =>
    match (int? s).bind intValue? with
    | some v => v
    | none =>
      if isPadded s then some (.str text) else some ((floatValue? s).getD (.str text))

def standardTag (word : String) : List UInt8 := ascii ("tag:yaml.org,2002:" ++ word)

/-- Whether a tag begins as the tags do that a document makes up for itself. -/
def isLocal (tag : List UInt8) : Bool := tag.head? == some 0x21

/-- A tag of the document's own names no JSON value. One that is no text is passed over. -/
def isForeign (tag : List UInt8) : Bool :=
  isLocal tag && (String.fromUTF8? ⟨tag.toArray⟩).isSome

/-- The value of a scalar with a tag. The standard tags count whatever the style of the scalar. -/
def taggedValue (tag : List UInt8) (text : String) (plain : Bool) : Option Json :=
  let s := text.toList
  if isForeign tag then none
  else if tag = standardTag "bool" then (bool? s).map .bool
  else if tag = standardTag "int" then ((int? s).bind intValue?).join
  else if tag = standardTag "float" then floatValue? s
  else if tag = standardTag "null" then (if isNull s then some .null else none)
  else if isLocal tag && plain then plainValue text
  else some (.str text)

/-- The value of a scalar. Without a tag only plain text may stand for something else. -/
def scalarValue (tag : Option (List UInt8)) (text : String) (plain : Bool) : Option Json :=
  match tag with
  | some tag => taggedValue tag text plain
  | none => if plain then plainValue text else some (.str text)

end ShellTree.Yaml
