import Depot.CommandLine.Usage
/-!
# Reading a command line

The arguments are read from the left.  An option whose value is an argument of its own waits until
the next option, the next plain argument or the end of its level: only then is it settled, so a
fault of its value can come after a fault further to the right.  The name of a command begins a
level of its own, which is settled before the level around it.

Main facts: `readArguments_nil`, and the examples at the end.
-/

namespace Depot.CommandLine

/-- The value of an option or an argument. -/
inductive Value
  | flag
  | path (p : Pathname)
  | text (s : String)
  | number (n : Nat)
  | threshold (t : Threshold)
deriving DecidableEq, Repr

abbrev Values := List (String × Value)

/-- What can be given at one level of a command line. -/
structure Grammar where
  options : List OptionDecl
  arguments : List ArgumentDecl
  commands : List CommandDecl
deriving DecidableEq, Repr

def programGrammar : Grammar := ⟨sharedOptions, [], commands⟩

def CommandDecl.grammar (c : CommandDecl) : Grammar := ⟨c.options ++ sharedOptions, c.arguments, []⟩

/-- Something that was given and waits to be settled. -/
inductive Waiting
  /-- An option, with the value that follows it, if one did. -/
  | option (decl : OptionDecl) (value : Option Bytes)
  | argument (decl : ArgumentDecl) (value : Bytes)
deriving DecidableEq, Repr

/-- How far the reading of a level has come. -/
structure Reading where
  waiting : Option Waiting
  values : Values
  /-- The arguments that may still come. -/
  arguments : List ArgumentDecl
  /-- Whether two dashes were read: all that follows is plain. -/
  plain : Bool
deriving DecidableEq, Repr

def Grammar.start (g : Grammar) : Reading := ⟨none, [], g.arguments, false⟩

def refuse {α : Type} (f : UsageFault) : Except Stop α := .error (.fault f)

def readValueText (bytes : Bytes) : Except Stop String :=
  match bytes.text? with
  | some s => .ok s
  | none => refuse .notText

def ValueKind.read (kind : ValueKind) (option : String) (bytes : Bytes) : Except Stop Value :=
  match kind with
  | path => if bytes = [] then refuse (.missingValue option) else .ok (.path ⟨bytes⟩)
  | text => .text <$> readValueText bytes
  | number => do
    let s ← readValueText bytes
    match readNat64 s.toList with
    | .ok n => return .number n
    | .error fault => refuse (.badValue s option fault.message)
  | threshold => do
    let s ← readValueText bytes
    match Threshold.read s.toList with
    | some t => return .threshold t
    | none => refuse (.badValue s option Threshold.faultText)

namespace Reading

def keep (r : Reading) (o : OptionDecl) (value : Except Stop Value) : Except Stop Reading := do
  if (r.values.lookup o.name).isSome then refuse (.repeated o.display)
  else return { r with values := (o.name, ← value) :: r.values }

def settleOption (r : Reading) (o : OptionDecl) (value : Option Bytes) : Except Stop Reading :=
  match o.value, value with
  | none, _ => r.keep o (.ok .flag)
  | some _, none => refuse (.missingValue o.display)
  | some (_, kind), some bytes => r.keep o (kind.read o.display bytes)

def settle (r : Reading) : Except Stop Reading :=
  let free := { r with waiting := none }
  match r.waiting with
  | none => .ok r
  | some (.option o value) => free.settleOption o value
  | some (.argument a bytes) => do
    return { free with values := (a.name, .text (← readValueText bytes)) :: r.values }

def awaitsValue (r : Reading) : Bool :=
  !r.plain && match r.waiting with
    | some (.option _ none) => true
    | _ => false

def takeValue (r : Reading) (bytes : Bytes) : Reading :=
  match r.waiting with
  | some (.option o none) => { r with waiting := some (.option o (some bytes)) }
  | _ => r

def takeOption (r : Reading) (o : OptionDecl) (attached : Option Bytes) : Except Stop Reading := do
  let r ← if o.value.isNone ∧ attached.isSome then pure r else r.settle
  match o.value, attached with
  | none, some bytes => refuse (.unwantedValue bytes.lossy o.display)
  | some _, none => return { r with waiting := some (.option o none) }
  | _, _ => r.settleOption o attached

def showText (r : Reading) (text : String) : Except Stop Reading := do
  let _ ← r.settle
  .error (.shown text)

end Reading

/-- What asks for help and what for the version. -/
structure Information where
  help : String
  /-- The line that tells the version, where it can be asked for. -/
  version : Option String
deriving DecidableEq, Repr

/-- The first character of a byte string that begins with one, and the bytes after it. -/
def firstChar? (bytes : Bytes) : Option (Char × Bytes) :=
  [1, 2, 3, 4].findSome? fun n =>
    match (Bytes.text? (bytes.take n)).map String.toList with
    | some (c :: _) => some (c, bytes.drop n)
    | _ => none

def equalsSign : UInt8 := 61

def dash : UInt8 := 45

def readLong (g : Grammar) (info : Information) (r : Reading) (bytes : Bytes) :
    Except Stop Reading :=
  let name := bytes.takeWhile (· ≠ equalsSign)
  let attached := match bytes.dropWhile (· ≠ equalsSign) with
    | [] => none
    | _ :: value => some value
  let isNamed (text : String) : Bool := Bytes.ofString text = name
  let showInformation (text : String) : Except Stop Reading :=
    match attached with
    | some value => refuse (.unwantedValue value.lossy ("--" ++ Bytes.lossy name))
    | none => r.showText text
  match g.options.find? fun o => isNamed o.name with
  | some o => r.takeOption o attached
  | none =>
    if isNamed "help" then showInformation info.help
    else
      match info.version with
      | some line =>
        if isNamed "version" then showInformation line
        else refuse (.unknownArgument ("--" ++ Bytes.lossy name))
      | none => refuse (.unknownArgument ("--" ++ Bytes.lossy name))

/-- Reads an option that is a letter behind one dash, which is cut off.  Only options with a value
have letters, so all that follows the letter is the value. -/
def readShort (g : Grammar) (info : Information) (r : Reading) (bytes : Bytes) :
    Except Stop Reading :=
  match firstChar? bytes with
  | none => refuse (.unknownArgument ("-" ++ bytes.lossy))
  | some (c, rest) =>
    match g.options.find? fun o => o.letter = some c with
    | some o =>
      r.takeOption o <|
        match rest with
        | [] => none
        | b :: value => some (if b = equalsSign then value else b :: value)
    | none =>
      match c, info.version with
      | 'h', _ => r.showText info.help
      | 'V', some line => r.showText line
      | _, _ => refuse (.unknownArgument ("-" ++ String.ofList [c]))

def readPlain (g : Grammar) (r : Reading) (bytes : Bytes) : Except Stop Reading :=
  match r.arguments with
  | a :: rest => do
    let r ← r.settle
    return { r with waiting := some (.argument a bytes), arguments := rest }
  | [] =>
    let known := bytes = Bytes.ofString helpCommand ∨
      g.commands.any fun c => Bytes.ofString c.name = bytes
    refuse <|
      if g.commands = [] ∨ (r.plain ∧ known) then .unknownArgument bytes.lossy
      else .unknownCommand bytes.lossy

def readArgument (g : Grammar) (info : Information) (r : Reading) (bytes : Bytes) :
    Except Stop Reading :=
  if r.plain then readPlain g r bytes
  else
    match bytes with
    | 45 :: 45 :: rest => readLong g info r rest
    | 45 :: b :: rest => readShort g info r (b :: rest)
    | _ => if r.awaitsValue then .ok (r.takeValue bytes) else readPlain g r bytes

/-- What follows the options and arguments of a level. -/
inductive Next
  | finish
  /-- A command and the arguments after it. -/
  | command (decl : CommandDecl) (rest : List Bytes)
  /-- The command that shows help, and the arguments after it. -/
  | help (rest : List Bytes)
deriving DecidableEq, Repr

def Grammar.command? (g : Grammar) (bytes : Bytes) (rest : List Bytes) : Option Next :=
  if g.commands = [] then none
  else if bytes = Bytes.ofString helpCommand then some (.help rest)
  else (g.commands.find? fun c => Bytes.ofString c.name = bytes).map (.command · rest)

def readArguments (g : Grammar) (info : Information) (r : Reading) :
    List Bytes → Except Stop (Reading × Next)
  | [] => .ok (r, .finish)
  | bytes :: rest =>
    let command := if r.plain || r.awaitsValue then none else g.command? bytes rest
    match command with
    | some next => .ok (r, next)
    | none =>
      if !r.plain && bytes = [dash, dash] then readArguments g info { r with plain := true } rest
      else do readArguments g info (← readArgument g info r bytes) rest

def Grammar.isComplete (g : Grammar) (values : Values) : Bool :=
  let has (name : String) : Bool := (values.lookup name).isSome
  (g.arguments.all fun a => has a.name) &&
    g.options.all fun o => !has o.name || match o.needs with
      | some other => has other
      | none => true

def Grammar.finish (g : Grammar) (r : Reading) : Except Stop Values := do
  let r ← r.settle
  if g.isComplete r.values then return r.values else refuse .missingArguments

def showHelp : List Bytes → Stop
  | [] => .shown programHelp
  | bytes :: rest =>
    let next := match rest with
      | [] => none
      | bytes :: _ => some bytes
    let shown := if bytes = Bytes.ofString helpCommand then some helpHelp
      else (commands.find? fun c => Bytes.ofString c.name = bytes).map CommandDecl.help
    match shown, next with
    | none, _ => .fault (.unknownCommand bytes.lossy)
    | some _, some other => .fault (.unknownCommand other.lossy)
    | some text, none => .shown text

/-- Reads a command line; yields the command and the values, of which those given after the command
come first. -/
def readCommandLine (args : List Bytes) : Except Stop (CommandDecl × Values) := do
  let (r, next) ←
    readArguments programGrammar ⟨programHelp, some versionLine⟩ programGrammar.start args
  match next with
  | .help rest => .error (showHelp rest)
  | .command c rest =>
    let (inner, _) ← readArguments c.grammar ⟨c.help, none⟩ c.grammar.start rest
    let own ← c.grammar.finish inner
    let shared ← programGrammar.finish r
    return (c, own ++ shared)
  | .finish =>
    let r ← r.settle
    if r.values = [] then .error .nothing else refuse .missingCommand

@[simp] theorem readArguments_nil (g : Grammar) (info : Information) (r : Reading) :
    readArguments g info r [] = .ok (r, .finish) := rfl

end Depot.CommandLine
