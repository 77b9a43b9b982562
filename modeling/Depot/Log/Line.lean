import Depot.Json.Writer
import Depot.Log.Event
import Depot.Text.Quoted
/-!
# Lines of the log

An event becomes one line: as text for people, with or without colours, or as a record of JSON.
What a message holds must not steer the terminal that shows it, so a text line spells out the
characters that terminals act on; line breaks stay.

The example at the end fixes the spelling.
-/

namespace Depot

def spelledOut : List (Char × String) :=
  [('\x1b', "\\x1b"), ('\x07', "\\x07"), ('\x08', "\\x08"), ('\x0c', "\\x0c"), ('\x7f', "\\x7f")]

def harmlessChar (c : Char) : List Char :=
  match spelledOut.lookup c with
  | some text => text.toList
  | none => if 0x80 ≤ c.toNat && c.toNat ≤ 0x9F then numbered c else [c]

def harmless (message : String) : String := String.ofList (message.toList.flatMap harmlessChar)

/-- The ways in which a coloured line sets off its parts. -/
inductive Emphasis
  | dimmed
  | italic
  | level (level : Level)
deriving DecidableEq, Repr

namespace Emphasis

def code : Emphasis → Nat
  | dimmed => 2
  | italic => 3
  | level .error => 31
  | level .warn => 33
  | level .info => 32
  | level .debug => 34
  | level .trace => 35

def paint (e : Emphasis) (coloured : Bool) (text : String) : String :=
  if coloured then s!"\x1b[{e.code}m{text}\x1b[0m" else text

@[simp] theorem paint_plain (e : Emphasis) (text : String) : e.paint false text = text := rfl

end Emphasis

def FieldValue.line : FieldValue → String
  | quoted text => Depot.quoted text
  | plain text => text
  | number n => toString n

def FieldValue.document : FieldValue → Json.Document
  | quoted text => .text text
  | plain text => .text text
  | number n => .natural n

namespace Event

def levelColumn (level : Level) : String :=
  String.ofList (List.replicate (5 - level.name.length) ' ') ++ level.name

def line (coloured : Bool) (stamp : String) (e : Event) : String :=
  let field := fun (name, value) =>
    " " ++ Emphasis.italic.paint coloured name ++ Emphasis.dimmed.paint coloured "=" ++
      FieldValue.line value
  Emphasis.dimmed.paint coloured stamp ++ " " ++
    (Emphasis.level e.level).paint coloured (levelColumn e.level) ++ " " ++
    Emphasis.dimmed.paint coloured e.target ++ Emphasis.dimmed.paint coloured ":" ++ " " ++
    harmless e.message ++ String.join (e.fields.map field)

def document (stamp : String) (e : Event) : Json.Document :=
  .record
    [("timestamp", .text stamp), ("level", .text e.level.name),
      ("fields", .record (("message", .text e.message) ::
        e.fields.map fun (name, value) => (name, value.document))),
      ("target", .text e.target)]

def recordLine (stamp : String) (e : Event) : String := String.ofList (e.document stamp).compact

end Event

example : harmless "a\x1b[1m\n\u009b" = "a\\x1b[1m\n\\u\x7b9b\x7d" := by decide

end Depot
