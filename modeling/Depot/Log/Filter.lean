import Depot.Log.Threshold
import Depot.Text.Blank
import Depot.Text.Identifier
/-!
# Filters

A filter decides which events a log shows.  Its text is a list of directives, separated by commas.
A directive sets the threshold of the parts whose name begins with its target, `target=level`, or of
all parts, `level`.  In square brackets it can be bound to a span of work, `[name]`, to the presence
of a field, `[{field}]`, or to the value of one, `[{field=value}]`.  Events that lie in
no span are decided by the directives that name no span and no value, which become `Rule`s; of the
rules that fit an event the most specific one decides.

A log is given its filter by a `FilterReader`.  The standard one does not look into the values of
fields, so it takes a value that is no regular expression, and beyond ASCII it takes for letters and
digits what may stand in an identifier.
-/

namespace Depot

structure Directive where
  /-- The beginning of the names of the parts it is about; none for all parts. -/
  target : Option (List Char)
  /-- The span it is bound to. -/
  span : Option (List Char)
  /-- The fields it asks for, and whether it asks for a value. -/
  fields : List (List Char × Bool)
  threshold : Threshold
deriving DecidableEq, Repr

inductive DirectiveFault
  | invalid
  /-- The part behind the equals sign is no threshold. -/
  | threshold
deriving DecidableEq, Repr

def DirectiveFault.message : DirectiveFault → String
  | invalid => "invalid filter directive"
  | threshold => Threshold.faultText

def trimmed (text : List Char) : List Char :=
  ((text.dropWhile isWhite).reverse.dropWhile isWhite).reverse

namespace Directive

def wholeDetail : Threshold := .upTo .trace

def startsTarget (c : Char) : Bool :=
  c.isAlphanum || c = '-' || c = ':' || c = '_' || (128 ≤ c.toNat && isIdentifierPart c)

def readThreshold (d : Directive) (text : List Char) : Except DirectiveFault Directive :=
  if text = [] then .ok { d with threshold := wholeDetail }
  else
    match Threshold.read text with
    | some t => .ok { d with threshold := t }
    | none => .error .threshold

def readEnd (text : List Char) (place : Nat) (d : Directive) :
    List Char → Except DirectiveFault Directive
  | [] => .ok d
  | '=' :: _ => d.readThreshold (text.drop (place + 1))
  | _ => .error .invalid

def readField (text : List Char) (place : Nat) (d : Directive) (rest : List Char) :
    Except DirectiveFault Directive :=
  let n := rest.findIdx (· = '\x7d')
  match rest.drop n with
  | _ :: ']' :: rest =>
    if n = 0 then .error .invalid
    else
      let field := (text.drop place).take n
      let d := { d with fields := [(field.takeWhile (· ≠ '='), field.contains '=')] }
      readEnd text (place + n + 2) d rest
  | _ => .error .invalid

def readSpan (text : List Char) (place : Nat) (d : Directive) (rest : List Char) :
    Except DirectiveFault Directive :=
  let n := rest.findIdx fun c => c = ']' || c = '\x7b'
  let name := (text.drop place).take n
  match rest.drop n with
  | ']' :: rest => readEnd text (place + n + 1) { d with span := some name } rest
  | _ :: rest =>
    readField text (place + n + 1) { d with span := if n = 0 then none else some name } rest
  | [] => .error .invalid

/-- Reads a directive without commas.  Places are counted without the blanks at the front, but the
parts are cut out of the text with them. -/
def read (text : List Char) : Except DirectiveFault Directive :=
  let d : Directive := ⟨none, none, [], wholeDetail⟩
  match trimmed text with
  | [] => .error .invalid
  | '[' :: rest => readSpan text 1 d rest
  | c :: rest =>
    if !startsTarget c then .error .invalid
    else
      let n := (c :: rest).findIdx fun c => c = '=' || c = '['
      match (c :: rest).drop n with
      | [] =>
        match Threshold.read text with
        | some t => .ok { d with threshold := t }
        | none => .ok { d with target := some text }
      | '=' :: _ => readThreshold { d with target := some (text.take n) } (text.drop (n + 1))
      | _ :: rest => readSpan text (n + 1) { d with target := some (text.take n) } rest

def split (text : List Char) : List (List Char) :=
  (text.splitOn ',').filter fun part => part ≠ []

end Directive

structure Rule where
  target : Option (List Char)
  /-- The fields that an event must have. -/
  fields : List (List Char)
  threshold : Threshold
deriving DecidableEq, Repr

namespace Rule

def ofDirective? (d : Directive) : Option Rule :=
  if d.span.isSome || d.fields.any (·.2) then none
  else some ⟨d.target, d.fields.map (·.1), d.threshold⟩

def fits (r : Rule) (e : Event) : Bool :=
  (match r.target with
    | none => true
    | some target => target.isPrefixOf e.target.toList) &&
  r.fields.all fun f => f = "message".toList || (e.fields.any fun (name, _) => name.toList = f)

/-- How specific a rule is: by the length of its target, then by the number of its fields; rules of
one rank are told apart by their texts. -/
def compareRank (a b : Rule) : Ordering :=
  let length (r : Rule) : Nat :=
    match r.target with
    | none => 0
    | some target => (String.ofList target).utf8ByteSize + 1
  ((compare (length a) (length b)).then (compare a.fields.length b.fields.length)).then
    (((compare (String.ofList (a.target.getD [])) (String.ofList (b.target.getD [])))).then
      (compare (a.fields.map String.ofList) (b.fields.map String.ofList)))

end Rule

/-- A filter: its rules, the most specific first. -/
structure Filter where
  rules : List Rule
deriving DecidableEq, Repr

namespace Filter

/-- Puts a rule into its place; it replaces the one of the same target and fields. -/
def insert (r : Rule) : List Rule → List Rule
  | [] => [r]
  | s :: rest =>
    match r.compareRank s with
    | .gt => r :: s :: rest
    | .eq => r :: rest
    | .lt => s :: insert r rest

def uniform (t : Threshold) : Filter := ⟨[⟨none, [], t⟩]⟩

/-- The filter of directives; without any the default counts for all parts.  A directive about a
span or a field comes after the plain ones. -/
def ofDirectives (default : Threshold) (ds : List Directive) : Filter :=
  if ds = [] then uniform default
  else
    let plain := ds.filter fun d => d.span.isNone && d.fields.isEmpty
    let bound := ds.filter fun d => !(d.span.isNone && d.fields.isEmpty)
    ⟨(plain ++ bound).filterMap Rule.ofDirective? |>.foldl (fun rules r => insert r rules) []⟩

def admits (f : Filter) (e : Event) : Bool :=
  match f.rules.find? (·.fits e) with
  | some r => r.threshold.admits e.level
  | none => false

def read (default : Threshold) (text : List Char) : Except DirectiveFault Filter :=
  ofDirectives default <$> (Directive.split text).mapM Directive.read

def readLenient (default : Threshold) (text : List Char) :
    Filter × List (List Char × DirectiveFault) :=
  let parts := (Directive.split text).map fun part => (part, Directive.read part)
  (ofDirectives default (parts.filterMap fun p => p.2.toOption),
    parts.filterMap fun p => match p.2 with
      | .ok _ => none
      | .error fault => some (p.1, fault))

example : (readLenient .off "other=warn,info".toList) =
    (⟨[⟨some "other".toList, [], .upTo .warn⟩, ⟨none, [], .upTo .info⟩]⟩, []) := by decide

example : Directive.read "a=b=c".toList = .error .threshold := rfl

example : Directive.read "a[s\x7bf=1\x7d]=1".toList =
    .ok ⟨some ['a'], some ['s'], [(['f'], true)], .upTo .error⟩ := rfl

end Filter

/-- How filters are read, with what is wrong with a bad directive. -/
structure FilterReader where
  /-- One bad directive spoils the filter. -/
  strict : Threshold → List Char → Except String Filter
  /-- The bad directives are left out, and named. -/
  lenient : Threshold → List Char → Filter × List (List Char × String)

def FilterReader.standard : FilterReader where
  strict default text := (Filter.read default text).mapError DirectiveFault.message
  lenient default text :=
    let (filter, bad) := Filter.readLenient default text
    (filter, bad.map fun (part, fault) => (part, fault.message))

end Depot
