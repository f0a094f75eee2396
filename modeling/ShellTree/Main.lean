import ShellTree.Tool.Run

/-! The program: reads a tree document and prints what the command line asks for. -/
open ShellTree Tool

/-- Why the system could not read a file. -/
def accessError : IO.Error → AccessError
  | .noFileOrDirectory .. => .notFound
  | .inappropriateType _ 21 _ => .isDirectory
  | .inappropriateType .. => .notDirectory
  | e => .other (toString e)

/-- All bytes of a stream that is left. -/
partial def readAll (stream : IO.FS.Stream) (read : ByteArray) : IO ByteArray := do
  let more ← stream.read 65536
  if more.isEmpty then return read
  readAll stream (read ++ more)

def access (file : Option String) : IO (Except AccessError ByteArray) := do
  try
    match file with
    | some path => return .ok (← IO.FS.readBinFile path)
    | none => return .ok (← readAll (← IO.getStdin) .empty)
  catch e => return .error (accessError e)

def main (args : List String) : IO UInt32 := do
  let outcome ← match Options.ofArguments args with
    | .ok o => do pure (finish o (← access o.file))
    | .error e => pure (refuse e)
  (← IO.getStdout).putStr outcome.stdout
  (← IO.getStderr).putStr outcome.stderr
  return outcome.code.toUInt32
