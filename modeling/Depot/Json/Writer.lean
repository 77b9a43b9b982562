import Depot.Json.Text
/-!
# Writing JSON

A `Document` is what is written; `compact` writes it without blanks, `pretty` with one member or
element on a line.
-/

namespace Depot.Json

inductive Document
  | text (s : String)
  | natural (n : Nat)
  | list (elements : List Document)
  | record (members : List (String × Document))
deriving Inhabited

namespace Document

mutual

def compact : Document → List Char
  | .text s => writeString s
  | .natural n => Nat.toDigits 10 n
  | .list elements => '[' :: compactElements elements ++ [']']
  | .record members => '\x7b' :: compactMembers members ++ ['\x7d']

def compactElements : List Document → List Char
  | [] => []
  | [d] => compact d
  | d :: rest => compact d ++ ',' :: compactElements rest

def compactMembers : List (String × Document) → List Char
  | [] => []
  | [(k, d)] => writeString k ++ ':' :: compact d
  | (k, d) :: rest => writeString k ++ ':' :: compact d ++ ',' :: compactMembers rest

end

def newLine (depth : Nat) : List Char := '\n' :: List.replicate (2 * depth) ' '

mutual

def prettyAt (depth : Nat) : Document → List Char
  | .text s => writeString s
  | .natural n => Nat.toDigits 10 n
  | .list [] => ['[', ']']
  | .list elements => '[' :: prettyElements (depth + 1) elements ++ newLine depth ++ [']']
  | .record [] => ['\x7b', '\x7d']
  | .record members => '\x7b' :: prettyMembers (depth + 1) members ++ newLine depth ++ ['\x7d']

def prettyElements (depth : Nat) : List Document → List Char
  | [] => []
  | [d] => newLine depth ++ prettyAt depth d
  | d :: rest => newLine depth ++ prettyAt depth d ++ ',' :: prettyElements depth rest

def prettyMembers (depth : Nat) : List (String × Document) → List Char
  | [] => []
  | [(k, d)] => newLine depth ++ writeString k ++ ':' :: ' ' :: prettyAt depth d
  | (k, d) :: rest =>
    newLine depth ++ writeString k ++ ':' :: ' ' :: prettyAt depth d ++
      ',' :: prettyMembers depth rest

end

def pretty (d : Document) : List Char := prettyAt 0 d

end Document

end Depot.Json
