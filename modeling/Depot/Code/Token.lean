/-!
# Tokens of source code

Source code is a list of tokens in which delimiters enclose lists of their own, so they always
match.  `Token.words` lists what a reader sees, one text for each name, mark, literal and
delimiter.
-/

namespace Depot.Code

inductive Delimiter
  | parenthesis
  | bracket
  | brace
deriving DecidableEq, Repr

namespace Delimiter

def opening : Delimiter → Char
  | parenthesis => '('
  | bracket => '['
  | brace => '\x7b'

def closing : Delimiter → Char
  | parenthesis => ')'
  | bracket => ']'
  | brace => '\x7d'

def all : List Delimiter := [parenthesis, bracket, brace]

def ofOpening? (c : Char) : Option Delimiter := all.find? fun d => d.opening = c

def ofClosing? (c : Char) : Option Delimiter := all.find? fun d => d.closing = c

end Delimiter

inductive Token
  /-- A name, with the mark of a raw name if it has one. -/
  | name (text : String)
  /-- A punctuation mark; `joint` tells that another one follows at once. -/
  | mark (c : Char) (joint : Bool)
  /-- The name of a lifetime, without its quote. -/
  | lifetime (text : String)
  /-- A literal as it is written. -/
  | literal (text : String)
  | group (delimiter : Delimiter) (content : List Token)
deriving Inhabited

namespace Token

mutual

def words : Token → List String
  | .name text => [text]
  | .mark c _ => [String.singleton c]
  | .lifetime text => ["'" ++ text]
  | .literal text => [text]
  | .group d content =>
    String.singleton d.opening :: (wordsOf content ++ [String.singleton d.closing])

def wordsOf : List Token → List String
  | [] => []
  | t :: rest => words t ++ wordsOf rest

end

mutual

def same : Token → Token → Bool
  | .name s, .name t => s == t
  | .mark c j, .mark d k => c == d && j == k
  | .lifetime s, .lifetime t => s == t
  | .literal s, .literal t => s == t
  | .group d ts, .group e us => d == e && sameAll ts us
  | _, _ => false

def sameAll : List Token → List Token → Bool
  | [], [] => true
  | t :: ts, u :: us => same t u && sameAll ts us
  | _, _ => false

end

end Token

def shown (ts : List Token) : String := " ".intercalate (Token.wordsOf ts)

end Depot.Code
