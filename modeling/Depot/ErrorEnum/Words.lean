import Depot.ErrorEnum.Expansion
/-!
# The generated code of an error enumeration

`Expansion.words` lists the texts of the generated tokens: the enumeration itself, the trait that
adds contexts, the conversions, and the function that shows a context.
-/

namespace Depot.ErrorEnum

open Code

def words (text : String) : List String :=
  (text.toList.splitOn ' ').map String.ofList

def braced (inner : List String) : List String := "\x7b" :: inner ++ ["\x7d"]

def parenthesized (inner : List String) : List String := "(" :: inner ++ [")"]

def marked (inner : String) : List String := "#" :: "[" :: words inner ++ ["]"]

/-- The type of a text that may be borrowed for ever. -/
def staticText : List String := words ": : std : : borrow : : Cow < 'static , str >"

def resultType (failure : List String) : List String :=
  words ": : std : : result : : Result < T ," ++ failure ++ [">"]

def contextParameter : List String :=
  words "self , context : impl Into <" ++ staticText ++ [">"]

def contextMethod : List String := words "fn context"

def guardWords (guards : List Attribute) : List String :=
  guards.flatMap fun a => Token.wordsOf a.tokens

/-- The name of the trait that adds contexts; the mark of a raw name is dropped. -/
def traitName (name : String) : String :=
  let plain := match name.toList with
    | 'r' :: '#' :: rest => String.ofList rest
    | _ => name
  plain ++ "Ext"

def derivationWords (missing : List Derivation) : List String :=
  let path : Derivation → List String
    | .debug => ["Debug"]
    | .error => words ": : thiserror : : Error"
  if missing.isEmpty then []
  else "#" :: "[" :: "derive" :: parenthesized ([","].intercalate (missing.map path)) ++ ["]"]

def ContextArm.words (name : String) (arm : ContextArm) : List String :=
  guardWords arm.guards ++ [name, ":", ":", arm.variant] ++
    braced (ErrorEnum.words "context : slot , . .") ++
    ErrorEnum.words "= > * slot = Some ( context . into ( ) ) ,"

/-- The trait that adds contexts, for results with the errors of the enumeration. -/
def traitWords (x : Expansion) : List String :=
  let name := x.item.name
  let catchAll := if x.catchAll then words "_ = >" ++ braced [] else []
  let arms := x.arms.flatMap (·.words name)
  ["pub", "trait", traitName name, "<", "T", ">"] ++
    braced (contextMethod ++ parenthesized (contextParameter ++ [","]) ++ ["-", ">"] ++
      resultType [name] ++ [";"]) ++
    marked "automatically_derived" ++ ["impl", "<", "T", ">", traitName name, "<", "T", ">"] ++
    ["for"] ++ resultType [name] ++
    braced (marked "inline" ++ contextMethod ++ parenthesized contextParameter ++
      words "- > Self" ++
      braced (words "self . map_err" ++ parenthesized (words "| mut err |" ++
        braced (words "match & mut err" ++ braced (arms ++ catchAll) ++ ["err"]))))

def SourceConversion.words (name : String) (c : SourceConversion) : List String :=
  let guards := guardWords c.guards
  let type := Token.wordsOf c.type.tokens
  let derived := marked "automatically_derived"
  guards ++ derived ++ ErrorEnum.words "impl : : std : : convert : : From <" ++ type ++
    [">", "for", name] ++
    braced (marked "inline" ++ ["fn", "from"] ++ parenthesized (c.field :: ":" :: type) ++
      ErrorEnum.words "- > Self" ++
      braced (["Self", ":", ":", c.variant] ++
        braced ([c.field] ++ ErrorEnum.words ", context : None"))) ++
  guards ++ derived ++ ["impl", "<", "T", ">", traitName name, "<", "T", ">", "for"] ++
    resultType type ++
    braced (marked "inline" ++ contextMethod ++ parenthesized (contextParameter ++ [","]) ++
      ["-", ">"] ++ resultType [name] ++
      braced (ErrorEnum.words "self . map_err" ++ parenthesized (["|", c.field, "|"] ++
        [name, ":", ":", c.variant] ++
        braced ([c.field] ++ ErrorEnum.words ", context : Some ( context . into ( ) )"))))

/-- One conversion from a text of the given type, which becomes a message in the given form. -/
def TextConversion.wordsFor (name : String) (c : TextConversion) (type : List String)
    (form : String) : List String :=
  let context := if c.hasContext then ErrorEnum.words "context : None" else []
  guardWords c.guards ++ ErrorEnum.words "impl : : std : : convert : : From <" ++ type ++
    [">", "for", name] ++
    braced (marked "inline" ++ ["fn", "from"] ++ parenthesized ("s" :: ":" :: type) ++
      ErrorEnum.words "- > Self" ++
      braced (["Self", ":", ":", internalName] ++
        braced (ErrorEnum.words "message : : : std : : borrow : : Cow : :" ++ [form] ++
          parenthesized ["s"] ++ [","] ++ context)))

def TextConversion.words (name : String) (c : TextConversion) : List String :=
  c.wordsFor name (ErrorEnum.words "& 'static str") "Borrowed" ++
    c.wordsFor name ["String"] "Owned"

def formatContextWords : List String :=
  let cow := words ": : std : : borrow : : Cow : :"
  marked "allow ( dead_code )" ++ ["fn", "format_context"] ++
    parenthesized (words "context : & Option <" ++ staticText ++ [">", ","]) ++ ["-", ">"] ++
    staticText ++
    braced (words "context . as_ref ( ) . map_or" ++
      parenthesized (cow ++ ["Borrowed"] ++ parenthesized ["\"\""] ++ [","] ++ ["|", "c", "|"] ++
        braced (cow ++ ["Owned"] ++
          parenthesized (["format", "!"] ++ parenthesized ["\" (\x7bc\x7d)\""]))))

def Expansion.words (x : Expansion) : List String :=
  let name := x.item.name
  marked "allow ( non_shorthand_field_patterns )" ++ derivationWords x.derivations ++
    Token.wordsOf x.item.tokens ++ traitWords x ++
    x.sources.flatMap (·.words name) ++
    (match x.texts with
      | some c => c.words name
      | none => []) ++
    formatContextWords

/-- The words that report a rejection where the code would be. -/
def Rejection.words (r : Rejection) : List String :=
  ErrorEnum.words ": : core : : compile_error !" ++ braced ["\"" ++ r.message ++ "\""]

def expand (item : Item) : List String :=
  match Expansion.ofItem item with
  | .ok x => x.words
  | .error r => r.words

end Depot.ErrorEnum
