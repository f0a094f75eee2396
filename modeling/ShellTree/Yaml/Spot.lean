/-! The characters of a YAML text with the places where they stand. -/
namespace ShellTree.Yaml

/-- A character, its line and column, and the number of UTF-8 bytes before it. -/
structure Spot where
  char : Char
  line : Nat
  column : Nat
  index : Nat
  deriving Repr

/-- Whether a character may stand in a YAML text: most control characters may not. -/
def isAllowed (c : Char) : Bool :=
  let n := c.toNat
  c == '\t' || c == '\n' || c == '\r' || (0x20 ≤ n && n ≤ 0x7e) || n == 0x85 ||
    (0xa0 ≤ n && n ≤ 0xfffd) || 0x10000 ≤ n

def isBlank (c : Char) : Bool := c == ' ' || c == '\t'

/-- Line breaks, in a text whose ordinary breaks have been made one. -/
def isBreak (c : Char) : Bool := c == '\n' || c == '\u2028' || c == '\u2029'

/-- The places of the characters. All breaks but the separators of lines and paragraphs become
line feeds, a carriage return with its line feed one of them. -/
def locate (line column index : Nat) : List Char → List Spot
  | [] => []
  | '\r' :: '\n' :: rest => ⟨'\n', line, column, index⟩ :: locate (line+1) 0 (index+2) rest
  | c :: rest =>
    let next := index + c.utf8Size
    if c = '\n' ∨ c = '\r' ∨ c = '\u0085' then
      ⟨'\n', line, column, index⟩ :: locate (line+1) 0 next rest
    else if isBreak c then ⟨c, line, column, index⟩ :: locate (line+1) 0 next rest
    else ⟨c, line, column, index⟩ :: locate line (column+1) next rest

def spots (text : List Char) : List Spot := locate 0 0 0 text

/-- Whether a byte order mark starts a line here. -/
def isOrderMark (s : Spot) : Bool := s.column == 0 && s.char == '\ufeff'

/-- The bytes of a text of ASCII characters. -/
def ascii (s : String) : List UInt8 := s.toList.map fun c => c.toNat.toUInt8

/-- The character some places further on. -/
def ahead? (s : List Spot) (n : Nat) : Option Char := s[n]?.map (·.char)

/-- A blank, a break or the end. -/
def isGap : Option Char → Bool
  | some c => isBlank c || isBreak c
  | none => true

/-- Whether a line starts here with three times the character and then a blank or its end. -/
def isMark (c : Char) (s : List Spot) : Bool :=
  match s with
  | a :: b :: d :: _ =>
    a.column == 0 && a.char == c && b.char == c && d.char == c && isGap (ahead? s 3)
  | _ => false

/-- Whether a document starts or ends here. -/
def isDocumentMark (s : List Spot) : Bool := isMark '-' s || isMark '.' s

end ShellTree.Yaml
