import ShellTree.Dialect

/-! The command line of the tool. -/
namespace ShellTree.Tool

inductive InputFormat where
  | json
  | yaml
  deriving DecidableEq, Repr

inductive Emission where
  /-- Source text in the dialect. -/
  | code
  /-- The normal form of the tagged map, as JSON. -/
  | tagged
  /-- The outline of the tree. -/
  | outline
  deriving DecidableEq, Repr

def InputFormat.ofName? : String → Option InputFormat
  | "json" => some .json
  | "yaml" => some .yaml
  | _ => none

def Emission.ofName? : String → Option Emission
  | "code" => some .code
  | "tagged" => some .tagged
  | "pretty" => some .outline
  | _ => none

structure Options where
  dialect : Dialect := .bash
  input : InputFormat := .json
  emission : Emission := .code
  indent : Nat := 1
  file : Option String := none
  deriving DecidableEq, Repr

/-- An option that takes a value. -/
inductive Setting where
  | dialect
  | input
  | emission
  | indent
  deriving DecidableEq, Repr

/-- An option that takes none, and ends the reading of the command line. -/
inductive Notice where
  | help
  | version
  deriving DecidableEq, Repr

/-- Why a command line asks for no run. -/
inductive UsageError where
  /-- No value, or one that is none of the values of the option. -/
  | noSuchValue (s : Setting) (value : Option String)
  /-- A value that cannot be read. -/
  | unreadable (s : Setting) (value : String)
  | unknown (arg : String)
  | repeated (s : Setting)
  | valueNotTaken (n : Notice) (value : String)
  | asked (n : Notice)
  deriving DecidableEq, Repr

/-- A number that fits 64 bits, in decimal digits, perhaps behind a plus. -/
def indentOf? (text : String) : Option Nat :=
  let digits := match text.toList with
    | '+' :: ds => ds
    | ds => ds
  let n := digits.foldl (fun n c => 10*n + (c.toNat - '0'.toNat)) 0
  if !digits.isEmpty && digits.all Char.isDigit && n < 0x10000000000000000 then some n else none

def Options.set (o : Options) (s : Setting) (value : String) : Except UsageError Options :=
  match s with
  | .dialect =>
    match Dialect.ofName? value with
    | some dialect => .ok { o with dialect }
    | none => .error (.unreadable s value)
  | .input =>
    match InputFormat.ofName? value with
    | some input => .ok { o with input }
    | none => .error (.noSuchValue s value)
  | .emission =>
    match Emission.ofName? value with
    | some emission => .ok { o with emission }
    | none => .error (.noSuchValue s value)
  | .indent =>
    match indentOf? value with
    | some indent => .ok { o with indent }
    | none => .error (.unreadable s value)

def Setting.ofLetter? : Char → Option Setting
  | 'd' => some .dialect
  | 'i' => some .input
  | 'e' => some .emission
  | _ => none

def Setting.ofName? : String → Option Setting
  | "dialect" => some .dialect
  | "input" => some .input
  | "emit" => some .emission
  | "indent" => some .indent
  | _ => none

def Notice.ofLetter? : Char → Option Notice
  | 'h' => some .help
  | 'V' => some .version
  | _ => none

def Notice.ofName? : String → Option Notice
  | "help" => some .help
  | "version" => some .version
  | _ => none

/-- What an argument is by its looks. -/
inductive Argument where
  | plain
  /-- Two dashes alone: all that follows is plain. -/
  | separator
  | setting (s : Setting) (value : Option String)
  | notice (n : Notice) (value : Option String)
  | unknown
  deriving DecidableEq, Repr

/-- A long option may have its value behind an equals sign. A short one may have it right behind
the letter, with or without the sign; the letters of notices have none. -/
def Argument.of (arg : String) : Argument :=
  match arg.toList with
  | ['-', '-'] => .separator
  | '-' :: '-' :: long =>
    let (name, value) := long.span (· != '=')
    let value := if value.isEmpty then none else some (String.ofList (value.drop 1))
    match Setting.ofName? (String.ofList name), Notice.ofName? (String.ofList name) with
    | some s, _ => .setting s value
    | none, some n => .notice n value
    | none, none => .unknown
  | '-' :: letter :: rest =>
    match Setting.ofLetter? letter, Notice.ofLetter? letter with
    | some s, _ =>
      let value := match rest with
        | [] => none
        | '=' :: v => some (String.ofList v)
        | v => some (String.ofList v)
      .setting s value
    | none, some n => .notice n none
    | none, none => .unknown
  | _ => .plain

/-- How far a command line has been read. The last option, with its value if that came as an
argument of its own, waits until what follows it is known. -/
structure Progress where
  options : Options
  given : List Setting
  waiting : Option (Setting × Option String)
  separated : Bool

namespace Progress

def start : Progress := ⟨{}, [], none, false⟩

/-- Takes a value for an option. -/
def assign (p : Progress) (s : Setting) (value : Option String) : Except UsageError Progress :=
  match value with
  | none => .error (.noSuchValue s none)
  | some v =>
    if p.given.contains s then .error (.repeated s) else do
      let options ← p.options.set s v
      return { p with options, given := s :: p.given }

/-- Takes the option that waits. -/
def settle (p : Progress) : Except UsageError Progress :=
  match p.waiting with
  | none => .ok p
  | some (s, value) => { p with waiting := none }.assign s value

/-- The file to read, of which there is one at most. -/
def file (p : Progress) (arg : String) : Except UsageError Progress :=
  if p.options.file.isSome then .error (.unknown arg) else do
    let p ← p.settle
    return { p with options := { p.options with file := some arg } }

/-- Takes an argument. One that is not known is reported before a fault of the option that waits. -/
def take (p : Progress) (arg : String) : Except UsageError Progress :=
  if p.separated then p.file arg else
  match Argument.of arg with
  | .separator => .ok { p with separated := true }
  | .setting s none => do return { ← p.settle with waiting := some (s, none) }
  | .setting s (some v) => do (← p.settle).assign s (some v)
  | .notice n none => do
    let _ ← p.settle
    .error (.asked n)
  | .notice n (some v) => .error (.valueNotTaken n v)
  | .unknown => .error (.unknown arg)
  | .plain =>
    match p.waiting with
    | some (s, none) => .ok { p with waiting := some (s, some arg) }
    | _ => p.file arg

end Progress

/-- The options that a command line gives. -/
def Options.ofArguments (args : List String) : Except UsageError Options := do
  let p ← args.foldlM Progress.take .start
  return (← p.settle).options

end ShellTree.Tool
