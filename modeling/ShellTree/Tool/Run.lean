import ShellTree.Json.Printer
import ShellTree.Json.Reader
import ShellTree.Node.Outline
import ShellTree.Render
import ShellTree.Tool.Options
import ShellTree.Yaml.Reader

/-! What the tool does with the text of a tree document, and what it leaves behind. -/
namespace ShellTree.Tool

inductive RunError where
  | json (e : Json.ReadError)
  | yaml
  | decode (e : DecodeError)
  | render (e : RenderError)
  deriving DecidableEq, Repr

def RunError.message : RunError → String
  | .json .ended => "the JSON document ends too early"
  | .json .malformed => "the document is not JSON"
  | .yaml => "the document is not YAML"
  | .decode e => e.message
  | .render e => e.message

def readDocument (input : InputFormat) (source : String) : Except RunError Json :=
  match input with
  | .json => (Json.read Json.documentDepth source).mapError .json
  | .yaml =>
    match Yaml.read source with
    | some m => .ok m
    | none => .error .yaml

/-- The output for a tree document. Code is given as it is, the other forms end their last line. -/
def run (o : Options) (source : String) : Except RunError String := do
  let m ← readDocument o.input source
  let unit := "".pushn ' ' o.indent
  match o.emission with
  | .code => (render o.dialect m).mapError .render
  | .tagged => do
    let n ← (decode m).mapError .decode
    return (encode n).pretty unit ++ "\n"
  | .outline => do
    let n ← (decode m).mapError .decode
    return n.outline unit ++ "\n"

/-- Why a document could not be read. -/
inductive AccessError where
  | notFound
  | isDirectory
  | notDirectory
  | notText
  | other (reason : String)
  deriving DecidableEq, Repr

def AccessError.message : AccessError → String
  | .notFound => "No such file or directory (os error 2)"
  | .isDirectory => "Is a directory (os error 21)"
  | .notDirectory => "Not a directory (os error 20)"
  | .notText => "stream did not contain valid UTF-8"
  | .other reason => reason

/-- What a run leaves behind. -/
structure Outcome where
  code : Nat
  stdout : String
  stderr : String
  deriving DecidableEq, Repr

def Outcome.failure (message : String) : Outcome := ⟨1, "", "Error: " ++ message ++ "\n"⟩

/-- The text of the document that was read, from the file or from the standard input. -/
def documentText (source : Except AccessError ByteArray) : Except AccessError String := do
  match String.fromUTF8? (← source) with
  | some text => return text
  | none => throw .notText

/-- The outcome for options and the document that they ask for. -/
def finish (o : Options) (source : Except AccessError ByteArray) : Outcome :=
  match documentText source with
  | .error e =>
    match o.file with
    | some file => .failure ("Cannot read tree file: " ++ file ++ ": " ++ e.message)
    | none => .failure ("Cannot read stdin: " ++ e.message)
  | .ok text =>
    match run o text with
    | .ok output => ⟨0, output, ""⟩
    | .error e => .failure e.message

def usage : String :=
  "Render a tagged-map shell syntax tree as bash, xonsh or fish\n\n" ++
  "Usage: shelltree [OPTIONS] [FILE]\n\n" ++
  "Arguments:\n" ++
  "  [FILE]  Tagged map file to read (stdin when omitted)\n\n" ++
  "Options:\n" ++
  "  -d, --dialect <DIALECT>  Target shell dialect (bash, xonsh, fish) [default: bash]\n" ++
  "  -i, --input <INPUT>      Format of the input tree (json, yaml) [default: json]\n" ++
  "  -e, --emit <EMIT>        What to print (code, tagged, pretty) [default: code]\n" ++
  "      --indent <INDENT>    Spaces per nesting level of the output [default: 1]\n" ++
  "  -h, --help               Print help\n" ++
  "  -V, --version            Print version\n"

def Setting.name : Setting → String
  | .dialect => "--dialect"
  | .input => "--input"
  | .emission => "--emit"
  | .indent => "--indent"

def Notice.name : Notice → String
  | .help => "--help"
  | .version => "--version"

def UsageError.message : UsageError → String
  | .noSuchValue s none => "a value is required for '" ++ s.name ++ "'"
  | .noSuchValue s (some v) => "invalid value '" ++ v ++ "' for '" ++ s.name ++ "'"
  | .unreadable s v => "invalid value '" ++ v ++ "' for '" ++ s.name ++ "'"
  | .unknown arg => "unexpected argument '" ++ arg ++ "' found"
  | .repeated s => "the argument '" ++ s.name ++ "' cannot be used multiple times"
  | .valueNotTaken n v => "unexpected value '" ++ v ++ "' for '" ++ n.name ++ "' found"
  | .asked n => n.name

/-- The outcome of a command line that asks for no run. -/
def refuse : UsageError → Outcome
  | .asked .help => ⟨0, usage, ""⟩
  | .asked .version => ⟨0, "shelltree 0.1.0\n", ""⟩
  | e => ⟨2, "", "error: " ++ e.message ++ "\n\n" ++ usage⟩

/-- A whole run, given what reading the standard input or a file yields. -/
def outcome (args : List String) (read : Option String → Except AccessError ByteArray) : Outcome :=
  match Options.ofArguments args with
  | .ok o => finish o (read o.file)
  | .error e => refuse e

end ShellTree.Tool
