import ShellTree.Text.Printable

/-! Quoted text in which every character that shows nothing by itself is spelt out. -/
namespace ShellTree.Text

/-- The spelling of one character: short for the common ones, else its code point in hexadecimal. -/
def spell (c : Char) : List Char :=
  if c = '"' then ['\\', '"']
  else if c = '\\' then ['\\', '\\']
  else if c = '\n' then ['\\', 'n']
  else if c = '\r' then ['\\', 'r']
  else if c = '\t' then ['\\', 't']
  else if c.toNat = 0 then ['\\', '0']
  else if isPrintable c then [c]
  else ['\\', 'u', '\x7b'] ++ Nat.toDigits 16 c.toNat ++ ['\x7d']

def quoted (s : String) : String := String.ofList ('"' :: s.toList.flatMap spell ++ ['"'])

end ShellTree.Text
