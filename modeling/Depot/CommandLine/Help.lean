import Depot.CommandLine.Declaration
/-!
# Help texts

The help of the program and of its commands, laid out in columns from the declarations.  The options
of a command and the shared ones are merged by their places in the two lists; of two in one place
the one comes first whose letter, or else name, does.
-/

namespace Depot.CommandLine

abbrev HelpRow := String × String

def helpTable (head : String) (rows : List HelpRow) : String :=
  let width := rows.foldl (fun w row => max w row.1.length) 0
  head ++ ":\n" ++ String.join (rows.map fun (left, right) =>
    "  " ++ left ++ String.ofList (List.replicate (width - left.length + 2) ' ') ++ right ++ "\n")

def OptionDecl.row (o : OptionDecl) : HelpRow :=
  ((match o.letter with
    | some c => s!"-{c}, "
    | none => "    ") ++ o.display,
   match o.default with
    | some text => s!"{o.help} [default: {text}]"
    | none => o.help)

def OptionDecl.sortName (o : OptionDecl) : String :=
  match o.letter with
  | some c => s!"{c}0"
  | none => o.name

def mergeOptions : List OptionDecl → List OptionDecl → List OptionDecl
  | a :: own, b :: shared =>
    (if a.sortName < b.sortName then [a, b] else [b, a]) ++ mergeOptions own shared
  | own, [] => own
  | [], shared => shared

def helpRow : HelpRow := ("-h, --help", "Print help")

def versionRow : HelpRow := ("-V, --version", "Print version")

def paragraphs (parts : List String) : String := "\n".intercalate parts

def programHelp : String :=
  paragraphs [
    s!"{programAbout}\n",
    s!"Usage: {programName} [OPTIONS] <COMMAND>\n",
    helpTable "Commands" (commands.map (fun c => (c.name, c.about)) ++ [(helpCommand, helpAbout)]),
    helpTable "Options" (sharedOptions.map OptionDecl.row ++ [helpRow, versionRow])]

def CommandDecl.help (c : CommandDecl) : String :=
  paragraphs <|
    [s!"{c.about}\n",
      s!"Usage: {programName} {c.name} [OPTIONS]" ++
        String.join (c.arguments.map fun a => " " ++ a.display) ++ "\n"] ++
    (if c.arguments = [] then []
      else [helpTable "Arguments" (c.arguments.map fun a => (a.display, a.help))]) ++
    [helpTable "Options" ((mergeOptions c.options sharedOptions).map OptionDecl.row ++ [helpRow])]

def helpHelp : String :=
  paragraphs [
    s!"{helpAbout}\n",
    s!"Usage: {programName} {helpCommand} [COMMAND]...\n",
    helpTable "Arguments" [("[COMMAND]...", "Print help for the subcommand(s)")]]

def versionLine : String := s!"{programName} {programVersion}\n"

end Depot.CommandLine
