import ShellTree.Json.Reader
import ShellTree.Yaml.Spot

/-! The texts of scalars in a YAML text: plain, quoted and in blocks. -/
namespace ShellTree.Yaml

/-- Blanks and breaks between the words of a scalar. -/
structure Gap where
  /-- Whether there was a break, after which blanks no longer count. -/
  broken : Bool
  blanks : List Char
  first : List Char
  more : List Char

namespace Gap

def none : Gap := ⟨false, [], [], []⟩

/-- An escaped break: the gap goes on over the lines that follow, but is no space itself. -/
def escaped : Gap := ⟨true, [], [], []⟩

def blank (g : Gap) (c : Char) : Gap := if g.broken then g else { g with blanks := g.blanks ++ [c] }

def lineBreak (g : Gap) (c : Char) : Gap :=
  if g.broken then { g with more := g.more ++ [c] } else ⟨true, [], [c], []⟩

/-- What a gap stands for: its blanks if it has no break, one space for one break, and a break
less than it has for more. -/
def text (g : Gap) : List Char :=
  if !g.broken then g.blanks
  else if g.first = ['\n'] then (if g.more.isEmpty then [' '] else g.more)
  else g.first ++ g.more

/-- The gap that starts here. On lines after the first no tab may stand left of `indent`. -/
def scan (indent : Nat) : Gap → List Spot → Option (Gap × List Spot)
  | g, [] => some (g, [])
  | g, s :: rest =>
    if isBlank s.char then
      if g.broken && s.char == '\t' && s.column < indent then Option.none
      else scan indent (g.blank s.char) rest
    else if isBreak s.char then scan indent (g.lineBreak s.char) rest
    else some (g, s :: rest)

end Gap

section Plain

def isFlowIndicator (c : Char) : Bool :=
  c == ',' || c == '[' || c == ']' || c == '\x7b' || c == '\x7d'

/-- A word of a plain scalar. A colon ends it before a gap; inside brackets the signs of lists and
maps end it too, and a colon right before one of them is an error. -/
def plainWord (inFlow : Bool) : List Spot → Option (List Char × List Spot)
  | [] => some ([], [])
  | s :: rest =>
    let next := ahead? rest 0
    if isGap (some s.char) then some ([], s :: rest)
    else if inFlow && s.char == ':' && next.any (fun c => isFlowIndicator c || c == '?') then none
    else if (s.char == ':' && isGap next) || (inFlow && isFlowIndicator s.char) then
      some ([], s :: rest)
    else do
      let (word, rest) ← plainWord inFlow rest
      return (s.char :: word, rest)

structure Plain where
  text : List Char
  /-- Whether the lines of the scalar were left for another one. -/
  broken : Bool
  rest : List Spot

/-- The words of a plain scalar, with the gap before them. In a block its lines go on as long as
they are indented. Each round takes a word. -/
def plainWords (inFlow : Bool) (indent : Nat) : Nat → Gap → List Spot → Option Plain
  | 0, _, _ => none
  | n+1, gap, s =>
    if isDocumentMark s || ahead? s 0 == some '#' then some ⟨[], gap.broken, s⟩ else do
      let (word, s) ← plainWord inFlow s
      if word.isEmpty then return ⟨[], gap.broken, s⟩
      let text := gap.text ++ word
      match s with
      | [] => return ⟨text, false, []⟩
      | c :: _ =>
        if isGap (some c.char) then
          let (gap, s) ← Gap.none.scan indent s
          if !inFlow && s.head?.any (fun c => c.column < indent) then
            return ⟨text, gap.broken, s⟩
          let p ← plainWords inFlow indent n gap s
          return { p with text := text ++ p.text }
        else return ⟨text, false, s⟩

/-- A plain scalar. The length of the text is fuel enough, as for all scalars. -/
def plain (fuel : Nat) (inFlow : Bool) (indent : Nat) (s : List Spot) : Option Plain :=
  plainWords inFlow indent fuel .none s

end Plain

section Quoted

/-- A character given by its code in hexadecimal digits. -/
def hexEscape (digits : Nat) (s : List Spot) : Option (Char × List Spot) := do
  let ds ← (s.take digits).mapM fun s => Json.hexValue? s.char
  let code := ds.foldl (fun n d => 16*n + d) 0
  if ds.length < digits then none
  else if (0xD800 ≤ code ∧ code ≤ 0xDFFF) ∨ 0x10FFFF < code then none
  else some (Char.ofNat code, s.drop digits)

/-- What follows the backslash of an escape that is no break. -/
def escape : List Spot → Option (Char × List Spot)
  | [] => none
  | s :: rest =>
    match s.char with
    | '0' => some ('\x00', rest)
    | 'a' => some ('\x07', rest)
    | 'b' => some ('\x08', rest)
    | 't' => some ('\t', rest)
    | '\t' => some ('\t', rest)
    | 'n' => some ('\n', rest)
    | 'v' => some ('\x0b', rest)
    | 'f' => some ('\x0c', rest)
    | 'r' => some ('\r', rest)
    | 'e' => some ('\x1b', rest)
    | ' ' => some (' ', rest)
    | '"' => some ('"', rest)
    | '/' => some ('/', rest)
    | '\\' => some ('\\', rest)
    | 'N' => some ('\u0085', rest)
    | '_' => some ('\u00a0', rest)
    | 'L' => some ('\u2028', rest)
    | 'P' => some ('\u2029', rest)
    | 'x' => hexEscape 2 rest
    | 'u' => hexEscape 4 rest
    | 'U' => hexEscape 8 rest
    | _ => none

/-- The text of a quoted scalar up to the closing quote. Each round takes one character at least. -/
def quoted (double : Bool) : Nat → List Spot → Option (List Char × List Spot)
  | 0, _ => none
  | _, [] => none
  | n+1, c :: rest =>
    if isDocumentMark (c :: rest) then none
    else if c.char = (if double then '"' else '\'') then
      if !double && ahead? rest 0 == some '\'' then do
        let (text, rest) ← quoted double n (rest.drop 1)
        return ('\'' :: text, rest)
      else some ([], rest)
    else if double && c.char == '\\' then
      if (ahead? rest 0).any isBreak then do
        let (gap, rest) ← Gap.escaped.scan 0 (rest.drop 1)
        let (text, rest) ← quoted double n rest
        return (gap.text ++ text, rest)
      else do
        let (d, rest) ← escape rest
        let (text, rest) ← quoted double n rest
        return (d :: text, rest)
    else if isGap (some c.char) then do
      let (gap, rest) ← Gap.none.scan 0 (c :: rest)
      let (text, rest) ← quoted double n rest
      return (gap.text ++ text, rest)
    else do
      let (text, rest) ← quoted double n rest
      return (c.char :: text, rest)

end Quoted

section Block

/-- What is done with the breaks at the end of a block scalar. -/
inductive Chomping where
  | strip
  | clip
  | keep
  deriving DecidableEq, Repr

def chomping? : Option Char → Option Chomping
  | some '+' => some .keep
  | some '-' => some .strip
  | _ => none

def increment? : Option Char → Option Nat
  | some c => if c.isDigit then some (c.toNat - '0'.toNat) else none
  | none => none

/-- The header of a block scalar after its indicator: what to do with the last breaks, and the
indentation in relation to the block around it, unless it is found by looking. -/
def blockHeader (s : List Spot) : Option (Chomping × Option Nat × List Spot) := do
  let (chomping, increment, s) :=
    match chomping? (ahead? s 0), increment? (ahead? s 0) with
    | some c, _ =>
      match increment? (ahead? s 1) with
      | some n => (c, some n, s.drop 2)
      | none => (c, none, s.drop 1)
    | none, some n =>
      match chomping? (ahead? s 1) with
      | some c => (c, some n, s.drop 2)
      | none => (.clip, some n, s.drop 1)
    | none, none => (.clip, none, s)
  if increment = some 0 then none
  let s := s.dropWhile (isBlank ·.char)
  let s := if ahead? s 0 = some '#' then s.dropWhile (!isBreak ·.char) else s
  match s with
  | [] => some (chomping, increment, [])
  | c :: rest => if isBreak c.char then some (chomping, increment, rest) else none

/-- The breaks of the blank lines that start here, and the widest indentation seen. The
indentation of the next line is passed, up to `indent` columns, or all of it where that is not
known; no tab may stand in it. -/
def blankLines (indent : Option Nat) :
    Nat → List Spot → Option (Nat × List Char × List Spot)
  | widest, [] => some (widest, [], [])
  | widest, s :: rest =>
    let inside := indent.all (s.column < ·)
    if inside && s.char == ' ' then blankLines indent widest rest
    else if inside && s.char == '\t' then none
    else if isBreak s.char then do
      let (widest, breaks, rest) ← blankLines indent (max widest s.column) rest
      return (widest, s.char :: breaks, rest)
    else some (max widest s.column, [], s :: rest)

/-- What the lines of a block scalar hold, the break of the last of them apart, which is kept with
the breaks of the blank lines behind it. -/
structure BlockText where
  text : List Char
  last : List Char
  breaks : List Char
  rest : List Spot

/-- What stands between two lines: `last` ends the first, `breaks` are those of blank lines. In
folded text a line feed is a space, or nothing where more breaks follow it, unless one of the lines
starts with a blank. -/
def lineJoint (folded : Bool) (last breaks : List Char) (startsBlank : Bool) : List Char :=
  if folded ∧ last = ['\n'] ∧ !startsBlank then (if breaks.isEmpty then [' '] else breaks)
  else last ++ breaks

/-- The lines of a block scalar, given the break of the line before, whether that line started with
a blank, and the breaks of blank lines since. Each round takes a line. -/
def blockLines (folded : Bool) (indent : Nat) :
    Nat → List Char → Bool → List Char → List Spot → Option BlockText
  | 0, _, _, _, _ => none
  | _, last, _, breaks, [] => some ⟨[], last, breaks, []⟩
  | n+1, last, afterBlank, breaks, c :: s =>
    if c.column ≠ indent then some ⟨[], last, breaks, c :: s⟩ else do
      let startsBlank := isBlank c.char
      let (line, rest) := (c :: s).span (!isBreak ·.char)
      let text := lineJoint folded last breaks (afterBlank || startsBlank) ++ line.map (·.char)
      let (_, more, after) ← blankLines (some indent) 0 (rest.drop 1)
      let b ← blockLines folded indent n ((rest.take 1).map (·.char)) startsBlank more after
      return { b with text := text ++ b.text }

/-- A block scalar after its indicator, in a block that is indented by `outer` columns. -/
def block (fuel : Nat) (folded : Bool) (outer : Option Nat) (s : List Spot) :
    Option (List Char × List Spot) := do
  let (chomping, increment, s) ← blockHeader s
  let least := (outer.map (· + 1)).getD 0
  let given := increment.map fun n => outer.getD 0 + n
  let (widest, breaks, s) ← blankLines given 0 s
  let indent := given.getD (max widest (max least 1))
  let b ← blockLines folded indent fuel [] false breaks s
  let tail := match chomping with
    | .strip => []
    | .clip => b.last
    | .keep => b.last ++ b.breaks
  return (b.text ++ tail, b.rest)

end Block
end ShellTree.Yaml
