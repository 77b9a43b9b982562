import Depot.FileSystem.IoError
/-!
# Failures of the store

Every failure of the store carries a context: what the store was doing, or the rule that was
broken.  `StorageError.message` is the text, `StorageError.withContext` replaces the context and
nothing else.

Main facts: `context_withContext`, `withContext_withContext` (the last context wins).
-/

namespace Depot

/-- A context as messages show it: in brackets after a space, or nothing. -/
def formatContext : Option String → String
  | some context => s!" ({context})"
  | none => ""

inductive StorageError
  | invalidConfig (text : String) (context : Option String)
  | invalidName (text : String) (context : Option String)
  | notFound (text : String) (context : Option String)
  /-- The object is there and has no bytes. -/
  | empty (text : String) (context : Option String)
  | io (source : IoError) (context : Option String)
deriving DecidableEq, Repr, Inhabited

namespace StorageError

def message : StorageError → String
  | invalidConfig text context => s!"Invalid configuration{formatContext context}: {text}"
  | invalidName text context => s!"Invalid object name{formatContext context}: {text}"
  | notFound text context => s!"Object not found{formatContext context}: {text}"
  | empty text context => s!"Object is empty{formatContext context}: {text}"
  | io source context => s!"I/O failure{formatContext context}: {source.message}"

def context : StorageError → Option String
  | invalidConfig _ context => context
  | invalidName _ context => context
  | notFound _ context => context
  | empty _ context => context
  | io _ context => context

def withContext (e : StorageError) (context : String) : StorageError :=
  match e with
  | invalidConfig text _ => invalidConfig text (some context)
  | invalidName text _ => invalidName text (some context)
  | notFound text _ => notFound text (some context)
  | empty text _ => empty text (some context)
  | io source _ => io source (some context)

/-- The failure of the system behind a failure of the store. -/
def source? : StorageError → Option IoError
  | io source _ => some source
  | _ => none

/-- The texts of the failures behind a failure, the nearest first. -/
def causes : StorageError → List String
  | io source _ => source.message :: source.causes.map IoError.message
  | _ => []

def isNotFound : StorageError → Bool
  | notFound .. => true
  | _ => false

def isEmptyObject : StorageError → Bool
  | empty .. => true
  | _ => false

@[simp] theorem context_withContext (e : StorageError) (c : String) :
    (e.withContext c).context = some c := by cases e <;> rfl

@[simp] theorem withContext_withContext (e : StorageError) (c d : String) :
    (e.withContext c).withContext d = e.withContext d := by cases e <;> rfl

@[simp] theorem source?_withContext (e : StorageError) (c : String) :
    (e.withContext c).source? = e.source? := by cases e <;> rfl

end StorageError

end Depot
