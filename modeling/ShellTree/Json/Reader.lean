import ShellTree.Json.Basic

/-! Reading JSON text, strictly and with a limit on the nesting. -/
namespace ShellTree.Json

/-- The text ended too early, or it went wrong before its end. -/
inductive ReadError where
  | ended
  | malformed
  deriving DecidableEq, Repr

/-- The result of reading a piece of text. It holds the text that follows, unless it is the last. -/
abbrev Reading := Except ReadError

def isBlank (c : Char) : Bool := c == ' ' || c == '\t' || c == '\n' || c == '\r'

def skipBlank (s : List Char) : List Char := s.dropWhile isBlank

/-- What went wrong where some other character was needed. -/
def unexpected {α : Type} : List Char → Reading α
  | [] => .error .ended
  | _ => .error .malformed

/-- The word that is left to read. -/
def word : List Char → List Char → Reading (List Char)
  | [], s => .ok s
  | c :: cs, d :: s => if c = d then word cs s else .error .malformed
  | _, [] => .error .ended

section Numbers

/-- A number as it is written: the digits, and the power of ten written after them. -/
structure Literal where
  negative : Bool
  whole : List Char
  fraction : Option (List Char)
  exponent : Option Int

def digitValue (c : Char) : Nat := c.toNat - '0'.toNat

/-- Appends digits to a significand until it would pass 64 bits, and gives the digits left over. -/
def accumulate (significand : Nat) : List Char → Nat × List Char
  | [] => (significand, [])
  | c :: cs =>
    let next := 10*significand + digitValue c
    if next < 0x10000000000000000 then accumulate next cs else (significand, c :: cs)

/-- Digits that do not fit the significand count as zeros before the point and are dropped
after it. The significand is rounded to a double before the power of ten is applied. -/
def Literal.toDouble? (l : Literal) : Option Double :=
  let (whole, dropped) := accumulate 0 l.whole
  let fraction := l.fraction.getD []
  let (significand, ignored) := accumulate whole fraction
  let exponent : Int :=
    l.exponent.getD 0 + dropped.length - (fraction.length - ignored.length : Nat)
  Double.ofRatio? l.negative significand 1 >>= (·.scalePow10? exponent)

/-- A literal of digits alone is an exact integer if it fits; `-0` is not, having a sign. -/
def Literal.toNumber? (l : Literal) : Option Number :=
  match l.fraction, l.exponent with
  | none, none =>
    let magnitude := l.whole.foldl (fun n c => 10*n + digitValue c) 0
    let exact :=
      if l.negative then if magnitude = 0 then none else Number.ofInt? (-magnitude)
      else Number.ofInt? magnitude
    exact <|> l.toDouble?.map .double
  | _, _ => l.toDouble?.map .double

/-- The digits up to the first other character; there is at least one. -/
def digits (s : List Char) : Reading (List Char × List Char) :=
  match s.span Char.isDigit with
  | ([], rest) => unexpected rest
  | (ds, rest) => .ok (ds, rest)

/-- A zero in front stands alone. -/
def wholePart (s : List Char) : Reading (List Char × List Char) := do
  let (ds, rest) ← digits s
  match ds with
  | '0' :: _ :: _ => .error .malformed
  | _ => .ok (ds, rest)

def fractionPart : List Char → Reading (Option (List Char) × List Char)
  | '.' :: s => do
    let (ds, rest) ← digits s
    .ok (some ds, rest)
  | s => .ok (none, s)

def exponentPart : List Char → Reading (Option Int × List Char)
  | [] => .ok (none, [])
  | c :: s =>
    if c = 'e' ∨ c = 'E' then do
      let (negative, s) := match s with
        | '+' :: s => (false, s)
        | '-' :: s => (true, s)
        | s => (false, s)
      let (ds, rest) ← digits s
      let n : Int := (ds.foldl (fun n c => 10*n + digitValue c) 0 : Nat)
      .ok (some (if negative then -n else n), rest)
    else .ok (none, c :: s)

def number (s : List Char) : Reading (Number × List Char) := do
  let (negative, s) := match s with
    | '-' :: s => (true, s)
    | s => (false, s)
  let (whole, s) ← wholePart s
  let (fraction, s) ← fractionPart s
  let (exponent, s) ← exponentPart s
  match Literal.toNumber? ⟨negative, whole, fraction, exponent⟩ with
  | some n => .ok (n, s)
  | none => .error .malformed

end Numbers

section Strings

def hexValue? (c : Char) : Option Nat :=
  if '0' ≤ c ∧ c ≤ '9' then some (c.toNat - '0'.toNat)
  else if 'a' ≤ c ∧ c ≤ 'f' then some (c.toNat - 'a'.toNat + 10)
  else if 'A' ≤ c ∧ c ≤ 'F' then some (c.toNat - 'A'.toNat + 10)
  else none

/-- Four hexadecimal digits. Text of fewer than four bytes is too short, whatever it holds. -/
def hex4 (s : List Char) : Reading (Nat × List Char) :=
  if (s.take 4).foldl (fun n c => n + c.utf8Size) 0 < 4 then .error .ended else
  match (s.take 4).mapM hexValue? with
  | some ds => .ok (ds.foldl (fun n d => 16*n + d) 0, s.drop 4)
  | none => .error .malformed

/-- What follows the `u` of an escape. Surrogates come in pairs, the high one first. -/
def unicodeEscape (s : List Char) : Reading (Char × List Char) := do
  let (high, s) ← hex4 s
  if 0xDC00 ≤ high ∧ high ≤ 0xDFFF then .error .malformed
  else if 0xD800 ≤ high ∧ high ≤ 0xDBFF then
    let s ← word ['\\', 'u'] s
    let (low, s) ← hex4 s
    if 0xDC00 ≤ low ∧ low ≤ 0xDFFF then
      .ok (Char.ofNat (0x10000 + (high - 0xD800) * 0x400 + (low - 0xDC00)), s)
    else .error .malformed
  else .ok (Char.ofNat high, s)

/-- What follows the backslash of an escape. -/
def escaped : List Char → Reading (Char × List Char)
  | [] => .error .ended
  | '"' :: s => .ok ('"', s)
  | '\\' :: s => .ok ('\\', s)
  | '/' :: s => .ok ('/', s)
  | 'b' :: s => .ok ('\x08', s)
  | 'f' :: s => .ok ('\x0c', s)
  | 'n' :: s => .ok ('\n', s)
  | 'r' :: s => .ok ('\r', s)
  | 't' :: s => .ok ('\t', s)
  | 'u' :: s => unicodeEscape s
  | _ => .error .malformed

/-- The characters of a string up to its closing quote. Each step takes one character at least, so
the length of the text is fuel enough. -/
def characters : Nat → List Char → Reading (List Char × List Char)
  | 0, _ => .error .ended
  | _, [] => .error .ended
  | _, '"' :: s => .ok ([], s)
  | n+1, '\\' :: s => do
    let (c, s) ← escaped s
    let (cs, s) ← characters n s
    .ok (c :: cs, s)
  | n+1, c :: s =>
    if c.toNat < 0x20 then .error .malformed else do
      let (cs, s) ← characters n s
      .ok (c :: cs, s)

/-- The rest of a string after its opening quote. -/
def string (fuel : Nat) (s : List Char) : Reading (String × List Char) := do
  let (cs, s) ← characters fuel s
  .ok (String.ofList cs, s)

end Strings

section Values

/-- Items separated by commas up to the closing bracket, at least one. Each round takes one
character at least, so the length of the text is fuel enough. -/
def items {α : Type} (closing : Char) (item : List Char → Reading (α × List Char)) :
    Nat → List Char → Reading (List α × List Char)
  | 0, _ => .error .ended
  | n+1, s => do
    let (x, s) ← item s
    match skipBlank s with
    | [] => .error .ended
    | c :: s =>
      if c = closing then .ok ([x], s)
      else if c = ',' then
        let (xs, s) ← items closing item n (skipBlank s)
        .ok (x :: xs, s)
      else .error .malformed

/-- What follows an opening bracket. -/
def bracketed {α : Type} (fuel : Nat) (closing : Char)
    (item : List Char → Reading (α × List Char)) (s : List Char) : Reading (List α × List Char) :=
  match skipBlank s with
  | [] => .error .ended
  | c :: s => if c = closing then .ok ([], s) else items closing item fuel (c :: s)

def member (fuel : Nat) (value : List Char → Reading (Json × List Char)) (s : List Char) :
    Reading ((String × Json) × List Char) :=
  match s with
  | '"' :: s => do
    let (key, s) ← string fuel s
    match skipBlank s with
    | ':' :: s => do
      let (v, s) ← value (skipBlank s)
      .ok ((key, v), s)
    | s => unexpected s
  | s => unexpected s

/-- A value that starts here, with at most `depth` lists and objects around one another. -/
def value (fuel : Nat) : Nat → List Char → Reading (Json × List Char)
  | _, [] => .error .ended
  | _, 'n' :: s => do .ok (.null, ← word ['u', 'l', 'l'] s)
  | _, 't' :: s => do .ok (.bool true, ← word ['r', 'u', 'e'] s)
  | _, 'f' :: s => do .ok (.bool false, ← word ['a', 'l', 's', 'e'] s)
  | _, '"' :: s => do
    let (text, s) ← string fuel s
    .ok (.str text, s)
  | depth, c :: s =>
    if c = '[' then
      match depth with
      | 0 => .error .malformed
      | depth+1 => do
        let (xs, s) ← bracketed fuel ']' (value fuel depth) s
        .ok (.arr xs, s)
    else if c = '\x7b' then
      match depth with
      | 0 => .error .malformed
      | depth+1 => do
        let (members, s) ← bracketed fuel '\x7d' (member fuel (value fuel depth)) s
        .ok (ofMembers members, s)
    else do
      let (n, s) ← number (c :: s)
      .ok (.num n, s)

/-- A whole document: one value, blanks around it. -/
def read (depth : Nat) (text : String) : Reading Json := do
  let cs := text.toList
  let (v, s) ← value cs.length depth (skipBlank cs)
  if (skipBlank s).isEmpty then .ok v else .error .malformed

/-- The deepest nesting that documents may have. -/
def documentDepth : Nat := 127

end Values
end ShellTree.Json
