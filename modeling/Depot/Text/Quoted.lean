import Depot.Text.Visible
/-!
# Quoted texts

A text between double quotes in a message or a line of the log: quotes, backslashes and what
cannot be shown are escaped, so the end of the text can be told.
-/

namespace Depot

def numbered (c : Char) : List Char :=
  ['\\', 'u', '{'] ++ Nat.toDigits 16 c.toNat ++ ['}']

def quotedChar (c : Char) : List Char :=
  match c with
  | '"' => ['\\', '"']
  | '\\' => ['\\', '\\']
  | '\n' => ['\\', 'n']
  | '\r' => ['\\', 'r']
  | '\t' => ['\\', 't']
  | '\x00' => ['\\', '0']
  | c => if isVisible c then [c] else numbered c

def quoted (s : String) : String :=
  String.ofList ('"' :: s.toList.flatMap quotedChar ++ ['"'])

example : quoted "a\"\\\n\u007f" = "\"a\\\"\\\\\\n\\u\x7b7f\x7d\"" := by decide

end Depot
