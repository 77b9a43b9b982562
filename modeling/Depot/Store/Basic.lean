import Depot.Store.ObjectName
import Depot.World
/-!
# Stores

A `Store` keeps every object as one regular file below its root directory, at the path that
`Store.resolve` computes from the name alone.
-/

namespace Depot

structure Store where
  /-- The path of the directory, fixed when the store was opened. -/
  root : Pathname
deriving DecidableEq, Repr, Inhabited

namespace Store

def pathOf (s : Store) (names : List Bytes) : Pathname := s.root.join (.ofNames names)

def resolve (s : Store) (name : String) : Except StorageError Pathname :=
  match ObjectName.ofObject name with
  | .ok names => .ok (s.pathOf names)
  | .error fault => .error (fault.toError name)

def resolveBeginning (s : Store) (name : String) : Except StorageError Pathname :=
  match ObjectName.ofBeginning name with
  | .ok names => .ok (s.pathOf names)
  | .error fault => .error (fault.toError name)

end Store

/-- A failure of the system while the store was doing something. -/
def StorageError.during (doing : String) (e : IoError) : StorageError := .io e (some doing)

def Op.during {α : Type} (doing : String) (op : Op IoError α) : Op StorageError α :=
  op.mapError (StorageError.during doing)

end Depot
