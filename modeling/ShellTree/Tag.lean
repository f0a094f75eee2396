/-! The closed list of node types, with the attributes that each declares. -/
namespace ShellTree

/-- The type of a node, in catalogue order. -/
inductive Tag where
  | script
  | comment
  | string
  | rawString
  | var
  | envVar
  | stdIn
  | stdOut
  | stdErr
  | command
  | capturedCommand
  | and
  | or
  | not
  | statement
  | assign
  | envAssign
  | delete
  | envDelete
  | aliasAssign
  | aliasDelete
  | pass
  | ifElse
  | forIn
  | function
  deriving DecidableEq, Repr

namespace Tag

def all : List Tag :=
  [.script, .comment, .string, .rawString, .var, .envVar, .stdIn, .stdOut, .stdErr, .command,
    .capturedCommand, .and, .or, .not, .statement, .assign, .envAssign, .delete, .envDelete,
    .aliasAssign, .aliasDelete, .pass, .ifElse, .forIn, .function]

/-- The key under which a node of this type is written. -/
def name : Tag → String
  | .script => "Script"
  | .comment => "Comment"
  | .string => "String"
  | .rawString => "RawString"
  | .var => "Var"
  | .envVar => "EnvVar"
  | .stdIn => "StdIn"
  | .stdOut => "StdOut"
  | .stdErr => "StdErr"
  | .command => "Command"
  | .capturedCommand => "CapturedCommand"
  | .and => "And"
  | .or => "Or"
  | .not => "Not"
  | .statement => "Statement"
  | .assign => "Assign"
  | .envAssign => "EnvAssign"
  | .delete => "Delete"
  | .envDelete => "EnvDelete"
  | .aliasAssign => "AliasAssign"
  | .aliasDelete => "AliasDelete"
  | .pass => "Pass"
  | .ifElse => "If"
  | .forIn => "For"
  | .function => "Function"

def ofName? (s : String) : Option Tag := all.find? (·.name == s)

/-- The declared attributes, in the order in which they are written and read. -/
def attributes : Tag → List String
  | .script => ["body"]
  | .comment | .rawString => ["value"]
  | .string => ["parts"]
  | .var | .envVar | .delete | .envDelete | .aliasDelete => ["name"]
  | .stdIn | .stdOut | .stdErr | .pass => []
  | .command | .capturedCommand => ["args", "stdin", "stdout", "stderr", "background"]
  | .and | .or => ["lhs", "rhs"]
  | .not | .statement => ["node"]
  | .assign => ["name", "value", "scope"]
  | .envAssign | .aliasAssign => ["name", "value"]
  | .ifElse => ["test", "body", "orelse"]
  | .forIn => ["target", "iter", "body"]
  | .function => ["name", "body"]

/-- The attributes that have a default where they are left out. -/
def defaulted : Tag → List String
  | .command | .capturedCommand => ["stdin", "stdout", "stderr", "background"]
  | _ => []

def required (t : Tag) : List String := t.attributes.filter (!t.defaulted.contains ·)

end Tag

/-- The three standard streams. As a node, a stream stands for itself: given as the source or
target of the stream of the same name it means that nothing is redirected. -/
inductive Stream where
  | input
  | output
  | error
  deriving DecidableEq, Repr

namespace Stream

def all : List Stream := [.input, .output, .error]

def tag : Stream → Tag
  | .input => .stdIn
  | .output => .stdOut
  | .error => .stdErr

/-- The attribute of a command that says where the stream goes. -/
def attr : Stream → String
  | .input => "stdin"
  | .output => "stdout"
  | .error => "stderr"

/-- The device file through which another stream can be redirected to this one. -/
def device : Stream → String
  | .input => "/dev/stdin"
  | .output => "/dev/stdout"
  | .error => "/dev/stderr"

end Stream

/-- The stream that a tag stands for, if it is one of the three. -/
def Tag.stream? (t : Tag) : Option Stream := Stream.all.find? (·.tag == t)

@[simp] theorem Tag.ofName?_name (t : Tag) : Tag.ofName? t.name = some t := by
  cases t <;> decide +kernel

@[simp] theorem Tag.stream?_tag (s : Stream) : s.tag.stream? = some s := by cases s <;> rfl

end ShellTree
