import ShellTree.Yaml.Scalar

/-! The tokens of a YAML text. Blocks are bracketed by tokens of their own, found from the
indentation, and a key is marked by a token before it, although only the colon after it shows
that it is one. -/
namespace ShellTree.Yaml

inductive Token where
  | versionDirective (major minor : Nat)
  | tagDirective (handle : String) (meaning : List UInt8)
  | documentStart
  | documentEnd
  | blockSequence
  | blockMapping
  | blockEnd
  | flowSequence
  | flowSequenceEnd
  | flowMapping
  | flowMappingEnd
  | blockEntry
  | flowEntry
  | key
  | value
  | anchor (name : String)
  | alias (name : String)
  | tag (handle : String) (suffix : List UInt8)
  | scalar (text : String) (plain : Bool)
  deriving DecidableEq, Repr

/-- A place where a key may have started. -/
structure KeyPlace where
  /-- Whether what starts here can be nothing but a key. -/
  required : Bool
  /-- The number of tokens before it. -/
  place : Nat
  spot : Spot

/-- How far the text has been cut into tokens. -/
structure Lexer where
  /-- The tokens so far, the latest first. -/
  tokens : List Token
  /-- Their number. -/
  count : Nat
  /-- The columns of the blocks that are open, the innermost first. -/
  indents : List Nat
  /-- Whether a key may start here. -/
  keyAllowed : Bool
  /-- Where a key may have started within the innermost brackets. -/
  pending : Option KeyPlace
  /-- The same for the brackets around them, and for the text around all brackets. -/
  outer : List (Option KeyPlace)

namespace Lexer

def start : Lexer := ⟨[], 0, [], true, none, []⟩

def inFlow (l : Lexer) : Bool := !l.outer.isEmpty

/-- Puts tokens behind the first `place` tokens. -/
def insert (l : Lexer) (place : Nat) (ts : List Token) : Lexer :=
  let behind := l.count - place
  let tokens := l.tokens.take behind ++ ts.reverse ++ l.tokens.drop behind
  { l with tokens, count := l.count + ts.length }

def append (l : Lexer) (ts : List Token) : Lexer := l.insert l.count ts

def push (l : Lexer) (t : Token) : Lexer := l.append [t]

/-- A required key that turned out to be none is an error. -/
def forget (k : Option KeyPlace) : Option (Option KeyPlace) :=
  if k.any (·.required) then none else some none

/-- Forgets the possible key of this level. -/
def dropKey (l : Lexer) : Option Lexer := do
  let k ← forget l.pending
  return { l with pending := k }

/-- Forgets the keys that started on an earlier line or too far back. -/
def expire (l : Lexer) (s : Spot) : Option Lexer := do
  let check (k : Option KeyPlace) : Option (Option KeyPlace) :=
    if k.any fun k => k.spot.line < s.line || k.spot.index + 1024 < s.index then forget k
    else some k
  let pending ← check l.pending
  let outer ← l.outer.mapM check
  return { l with pending, outer }

/-- Notes that a key may start here. -/
def noteKey (l : Lexer) (s : Spot) : Option Lexer :=
  if l.keyAllowed then do
    let l ← l.dropKey
    let required := !l.inFlow && l.indents.head? == some s.column
    return { l with pending := some ⟨required, l.count, s⟩ }
  else some l

/-- Closes the blocks that are indented further than a column, or all blocks. -/
def unroll (l : Lexer) (column : Option Nat) : Lexer :=
  if l.inFlow then l else
  let inside (n : Nat) : Bool := column.all (· < n)
  let closed := (l.indents.takeWhile inside).map fun _ => Token.blockEnd
  { l.append closed with indents := l.indents.dropWhile inside }

/-- The token that opens a block at a column, unless that block is open already. -/
def opening (l : Lexer) (column : Nat) (t : Token) : List Token :=
  if l.inFlow || l.indents.head?.any (column ≤ ·) then [] else [t]

/-- Opens a block at a column, if it is not open already. -/
def roll (l : Lexer) (column : Nat) (t : Token) : Lexer :=
  match l.opening column t with
  | [] => l
  | ts => { l.append ts with indents := column :: l.indents }

def allowKey (l : Lexer) (allowed : Bool) : Lexer := { l with keyAllowed := allowed }

/-- Takes a character that is a token. -/
def sign (l : Lexer) (t : Token) (rest : List Spot) : Option (Lexer × List Spot) :=
  some (l.push t, rest)

end Lexer

section Signs
variable (l : Lexer) (s : Spot) (rest : List Spot)

def openFlow (t : Token) : Option (Lexer × List Spot) := do
  let l ← l.noteKey s
  ({ l with outer := l.pending :: l.outer, pending := none }.allowKey true).sign t rest

def closeFlow (t : Token) : Option (Lexer × List Spot) := do
  let l ← l.dropKey
  let l := match l.outer with
    | [] => l
    | k :: outer => { l with pending := k, outer }
  (l.allowKey false).sign t rest

def flowEntry : Option (Lexer × List Spot) := do
  ((← l.dropKey).allowKey true).sign .flowEntry rest

def blockEntry : Option (Lexer × List Spot) :=
  if !l.inFlow && !l.keyAllowed then none else do
    ((← (l.roll s.column .blockSequence).dropKey).allowKey true).sign .blockEntry rest

/-- The question mark before a key. -/
def keySign : Option (Lexer × List Spot) :=
  if !l.inFlow && !l.keyAllowed then none else do
    ((← (l.roll s.column .blockMapping).dropKey).allowKey (!l.inFlow)).sign .key rest

/-- The colon before a value. What may have been a key before it was one. -/
def valueSign : Option (Lexer × List Spot) :=
  match l.pending with
  | some k =>
    let opened := l.opening k.spot.column .blockMapping
    let l := l.insert k.place (opened ++ [.key])
    let indents := if opened.isEmpty then l.indents else k.spot.column :: l.indents
    ({ l with indents, pending := none }.allowKey false).sign .value rest
  | none =>
    if !l.inFlow && !l.keyAllowed then none
    else ((l.roll s.column .blockMapping).allowKey (!l.inFlow)).sign .value rest

end Signs

section Properties

def isWordChar (c : Char) : Bool := c.isAlphanum || c == '_' || c == '-'

def take (p : Char → Bool) (s : List Spot) : List Char × List Spot :=
  let (taken, rest) := s.span (p ·.char)
  (taken.map (·.char), rest)

/-- The name of an anchor or alias, which a gap or some sign has to end. -/
def anchorName (s : List Spot) : Option (String × List Spot) :=
  let (name, rest) := take isWordChar s
  let ended := isGap (ahead? rest 0) || (ahead? rest 0).any ("?:,]\x7d%@`".toList.contains ·)
  if name.isEmpty || !ended then none else some (String.ofList name, rest)

/-- A handle: an exclamation mark, perhaps with a word and another mark behind it. -/
def tagHandle : List Spot → Option (List Char × List Spot)
  | [] => none
  | s :: rest =>
    if s.char ≠ '!' then none else
    let (word, rest) := take isWordChar rest
    if ahead? rest 0 = some '!' then some ('!' :: word ++ ['!'], rest.drop 1)
    else some ('!' :: word, rest)

/-- Bytes that are each written as `%` and two digits. -/
def percentBytes : Nat → List Spot → Option (List UInt8 × List Spot)
  | 0, s => some ([], s)
  | n+1, s => do
    if ahead? s 0 ≠ some '%' then none
    let high ← Json.hexValue? (← ahead? s 1)
    let low ← Json.hexValue? (← ahead? s 2)
    let (bytes, rest) ← percentBytes n (s.drop 3)
    return ((16*high + low).toUInt8 :: bytes, rest)

/-- The number of bytes of a character, by the first of them. -/
def widthOf? (lead : UInt8) : Option Nat :=
  if lead &&& 0x80 = 0 then some 1
  else if lead &&& 0xe0 = 0xc0 then some 2
  else if lead &&& 0xf0 = 0xe0 then some 3
  else if lead &&& 0xf8 = 0xf0 then some 4
  else none

/-- The bytes of one character. Only their kinds are checked, so that they need not be text. -/
def percentEscape (s : List Spot) : Option (List UInt8 × List Spot) := do
  let (lead, _) ← percentBytes 1 s
  let width ← lead.head?.bind widthOf?
  let (bytes, rest) ← percentBytes width s
  if bytes.tail.all (· &&& 0xc0 == 0x80) then some (bytes, rest) else none

/-- The bytes of a tag. Signs of brackets and lists may stand only in full tags. -/
def tagBytes (full : Bool) : Nat → List Spot → Option (List UInt8 × List Spot)
  | 0, _ => none
  | _, [] => some ([], [])
  | n+1, s :: rest =>
    if s.char = '%' then do
      let (bs, rest) ← percentEscape (s :: rest)
      let (more, rest) ← tagBytes full n rest
      return (bs ++ more, rest)
    else if isWordChar s.char || ";/?:@&=+$.!~*'()".toList.contains s.char ||
        (full && ",[]".toList.contains s.char) then do
      let (more, rest) ← tagBytes full n rest
      return (s.char.toNat.toUInt8 :: more, rest)
    else some ([], s :: rest)

/-- The bytes of a tag up to a zero byte, which ends it wherever it comes. -/
def beforeZero (bytes : List UInt8) : List UInt8 := bytes.takeWhile (· != 0)

/-- A tag of which at least one byte is written. -/
def tagSuffix (fuel : Nat) (full : Bool) (s : List Spot) : Option (List UInt8 × List Spot) := do
  let (bytes, rest) ← tagBytes full fuel s
  if bytes.isEmpty then none else some (beforeZero bytes, rest)

/-- A tag from its exclamation mark on: in full between angle brackets, a handle and a suffix, or
a suffix that belongs to the shortest handle. A mark alone is a tag without a handle. -/
def tagToken (fuel : Nat) (inFlow : Bool) (s : List Spot) : Option (Token × List Spot) := do
  let (handle, suffix, rest) ←
    if ahead? s 1 = some '<' then do
      let (suffix, rest) ← tagSuffix fuel true (s.drop 2)
      if ahead? rest 0 = some '>' then some ([], suffix, rest.drop 1) else none
    else do
      let (handle, rest) ← tagHandle s
      if handle.length ≥ 2 && handle.getLast? == some '!' then do
        let (suffix, rest) ← tagSuffix fuel false rest
        some (handle, suffix, rest)
      else do
        let (bytes, rest) ← tagBytes false fuel (s.drop 1)
        match beforeZero bytes with
        | [] => some ([], ascii "!", rest)
        | suffix => some (['!'], suffix, rest)
  let ended := isGap (ahead? rest 0) || (inFlow && ahead? rest 0 == some ',')
  if ended then some (.tag (String.ofList handle) suffix, rest) else none

/-- Blanks and a comment up to the end of the line, which has to come. -/
def lineEnd (s : List Spot) : Option (List Spot) :=
  let s := s.dropWhile (isBlank ·.char)
  let s := if ahead? s 0 = some '#' then s.dropWhile (!isBreak ·.char) else s
  match s with
  | [] => some []
  | c :: rest => if isBreak c.char then some rest else none

def versionNumber (s : List Spot) : Option (Nat × List Spot) :=
  let (digits, rest) := take Char.isDigit s
  if digits.isEmpty || 9 < digits.length then none
  else some (digits.foldl (fun n c => 10*n + Json.digitValue c) 0, rest)

/-- A directive after its percent sign. -/
def directive (fuel : Nat) (s : List Spot) : Option (Token × List Spot) := do
  let (name, rest) := take isWordChar s
  if !isGap (ahead? rest 0) then none
  let rest := rest.dropWhile (isBlank ·.char)
  if name = "YAML".toList then do
    let (major, rest) ← versionNumber rest
    if ahead? rest 0 ≠ some '.' then none
    let (minor, rest) ← versionNumber (rest.drop 1)
    return (.versionDirective major minor, ← lineEnd rest)
  else if name = "TAG".toList then do
    let (handle, rest) ← tagHandle rest
    if handle.length ≥ 2 && handle.getLast? != some '!' then none
    if !(ahead? rest 0).any isBlank then none
    let (meaning, rest) ← tagSuffix fuel true (rest.dropWhile (isBlank ·.char))
    if !isGap (ahead? rest 0) then none
    return (.tagDirective (String.ofList handle) meaning, ← lineEnd rest)
  else none

end Properties

/-- Passes blanks, comments and line ends, and a byte order mark at the start of a line. A new line
allows a key, except in brackets; where a key may start, tabs are no blanks. -/
def skipGap (inFlow : Bool) : Bool → Bool → List Spot → Bool × List Spot
  | allowed, _, [] => (allowed, [])
  | allowed, inComment, s :: rest =>
    if isBreak s.char then skipGap inFlow (allowed || !inFlow) false rest
    else if inComment || s.char == '#' then skipGap inFlow allowed true rest
    else if isOrderMark s || s.char == ' ' || (s.char == '\t' && (inFlow || !allowed)) then
      skipGap inFlow allowed false rest
    else (allowed, s :: rest)

/-- Whether a plain scalar starts here. -/
def startsPlain (inFlow : Bool) (c : Char) (next : Option Char) : Bool :=
  if c = '-' then !next.any isBlank
  else if c = '?' ∨ c = ':' then !inFlow && !isGap next
  else !isGap (some c) && !",[]\x7b\x7d#&*!|>'\"%@`".toList.contains c

/-- The token that starts with this character. The length of the text is fuel enough for it. -/
def token (fuel : Nat) (l : Lexer) (s : Spot) (rest : List Spot) : Option (Lexer × List Spot) :=
  let here := s :: rest
  let next := ahead? rest 0
  let scalar (l : Lexer) (text : List Char) (plain : Bool) : Lexer :=
    l.push (.scalar (String.ofList text) plain)
  if s.column = 0 ∧ s.char = '%' then do
    let l ← (l.unroll none).dropKey
    let (t, rest) ← directive fuel rest
    return ((l.allowKey false).push t, rest)
  else if isMark '-' here then do
    ((← (l.unroll none).dropKey).allowKey false).sign .documentStart (here.drop 3)
  else if isMark '.' here then do
    ((← (l.unroll none).dropKey).allowKey false).sign .documentEnd (here.drop 3)
  else if s.char = '[' then openFlow l s rest .flowSequence
  else if s.char = '\x7b' then openFlow l s rest .flowMapping
  else if s.char = ']' then closeFlow l rest .flowSequenceEnd
  else if s.char = '\x7d' then closeFlow l rest .flowMappingEnd
  else if s.char = ',' then flowEntry l rest
  else if s.char = '-' ∧ isGap next then blockEntry l s rest
  else if s.char = '?' ∧ (l.inFlow || isGap next) then keySign l s rest
  else if s.char = ':' ∧ (l.inFlow || isGap next) then valueSign l s rest
  else if s.char = '*' then do
    let (name, rest) ← anchorName rest
    return (((← l.noteKey s).allowKey false).push (.alias name), rest)
  else if s.char = '&' then do
    let (name, rest) ← anchorName rest
    return (((← l.noteKey s).allowKey false).push (.anchor name), rest)
  else if s.char = '!' then do
    let (t, rest) ← tagToken fuel l.inFlow here
    return (((← l.noteKey s).allowKey false).push t, rest)
  else if (s.char = '|' ∨ s.char = '>') ∧ !l.inFlow then do
    let l ← l.dropKey
    let (text, rest) ← block fuel (s.char == '>') l.indents.head? rest
    return (scalar (l.allowKey true) text false, rest)
  else if s.char = '\'' ∨ s.char = '"' then do
    let (text, rest) ← quoted (s.char == '"') fuel rest
    return (scalar ((← l.noteKey s).allowKey false) text false, rest)
  else if startsPlain l.inFlow s.char next then do
    let l ← l.noteKey s
    let p ← plain fuel l.inFlow (l.indents.head?.elim 0 (· + 1)) here
    return (scalar (l.allowKey p.broken) p.text true, p.rest)
  else none

/-- The tokens from here on. Each round takes one character at least, so the length of the text is
fuel enough. -/
def tokensFrom : Nat → Lexer → List Spot → Option (List Token)
  | 0, _, _ => none
  | n+1, l, s =>
    let (allowed, s) := skipGap l.inFlow l.keyAllowed false s
    let l := l.allowKey allowed
    match s with
    | [] => do
      let l ← (l.unroll none).dropKey
      if l.outer.any fun k => k.any (·.required) then none
      return l.tokens.reverse
    | c :: rest => do
      let l ← l.expire c
      let (l, rest) ← token (n+1) (l.unroll (some c.column)) c rest
      tokensFrom n l rest

/-- The tokens of a YAML text, if it can be cut into tokens. -/
def tokens (text : String) : Option (List Token) :=
  let cs := text.toList
  if cs.all isAllowed then tokensFrom (cs.length + 1) .start (spots cs) else none

end ShellTree.Yaml
