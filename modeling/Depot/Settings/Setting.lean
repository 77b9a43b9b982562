/-!
# Settings

A `Setting` is a value of a configuration; values that a message may have to point at remember where
they came from.  `Setting.putAt` stores a value under a path of keys: what is in the way of the path
is replaced, tables are merged key by key, and everything else is replaced as a whole.

Main facts: `member?_alterKey_self` and `member?_alterKey_of_ne`, a value changed under a key is
found there and disturbs no other key.
-/

namespace Depot

inductive Setting
  | nothing (origin : Option String)
  | boolean (b : Bool)
  | integer (i : Int)
  | real (x : Float)
  | text (s : String)
  | list (origin : Option String) (elements : List Setting)
  | table (origin : Option String) (members : List (String × Setting))
deriving Inhabited

inductive SettingStep
  | key (name : String)
  /-- An element of a list; a negative number counts from its end. -/
  | index (i : Int)
deriving DecidableEq, Repr

namespace Setting

def emptyTable : Setting := .table none []

def members : Setting → List (String × Setting)
  | .table _ ms => ms
  | _ => []

def member? (s : Setting) (key : String) : Option Setting := s.members.lookup key

/-- The setting if it is a table, an empty table otherwise. -/
def asTable : Setting → Setting
  | .table origin ms => .table origin ms
  | _ => emptyTable

/-- Members with the value under one key changed; it starts as nothing. -/
def alterMembers (key : String) (f : Setting → Setting) :
    List (String × Setting) → List (String × Setting)
  | [] => [(key, f (.nothing none))]
  | (k, v) :: rest => if k = key then (k, f v) :: rest else (k, v) :: alterMembers key f rest

/-- A setting, made a table, with the value under one key changed. -/
def alterKey (key : String) (f : Setting → Setting) : Setting → Setting
  | .table origin ms => .table origin (alterMembers key f ms)
  | _ => .table none (alterMembers key f [])

/-- Elements with one of them changed; missing ones before it are nothing. -/
def alterElements (f : Setting → Setting) : Nat → List Setting → List Setting
  | 0, [] => [f (.nothing none)]
  | 0, v :: rest => f v :: rest
  | n + 1, [] => .nothing none :: alterElements f n []
  | n + 1, v :: rest => v :: alterElements f n rest

def alterIndex (i : Int) (f : Setting → Setting) (s : Setting) : Setting :=
  let (origin, elements) := match s with
    | .list origin elements => (origin, elements)
    | _ => (none, [])
  let before := (-i - elements.length).toNat
  let elements := List.replicate before (.nothing none) ++ elements
  let n := if 0 ≤ i then i.toNat else (elements.length + i).toNat
  .list origin (alterElements f n elements)

/-- A setting with the value at the end of a path changed. -/
def alterAt : List SettingStep → (Setting → Setting) → Setting → Setting
  | [], f => f
  | .key name :: rest, f => alterKey name (alterAt rest f)
  | .index i :: rest, f => alterIndex i (alterAt rest f)

mutual

/-- A value put where another one is: tables are merged, all else is replaced. -/
def put : Setting → Setting → Setting
  | .table _ ms, old => putMembers ms old.asTable
  | .nothing origin, _ => .nothing origin
  | .boolean b, _ => .boolean b
  | .integer i, _ => .integer i
  | .real x, _ => .real x
  | .text s, _ => .text s
  | .list origin elements, _ => .list origin elements

def putMembers : List (String × Setting) → Setting → Setting
  | [], old => old
  | (k, v) :: rest, old => putMembers rest (alterKey k (put v) old)

end

def putAt (path : List SettingStep) (value : Setting) (s : Setting) : Setting :=
  alterAt path (put value) s

private theorem lookup_alterMembers_self (key : String) (f : Setting → Setting)
    (ms : List (String × Setting)) :
    (alterMembers key f ms).lookup key =
      some (f ((ms.lookup key).getD (.nothing none))) := by
  induction ms with
  | nil => simp [alterMembers]
  | cons m ms ih =>
    obtain ⟨k, v⟩ := m
    by_cases h : k = key
    · subst h
      simp [alterMembers]
    · have h' : (key == k) = false := by simpa using Ne.symm h
      simp [alterMembers, h, List.lookup_cons, h', ih]

private theorem lookup_alterMembers_of_ne {key other : String} (hne : other ≠ key)
    (f : Setting → Setting) (ms : List (String × Setting)) :
    (alterMembers key f ms).lookup other = ms.lookup other := by
  induction ms with
  | nil =>
    have h' : (other == key) = false := by simpa using hne
    simp [alterMembers, List.lookup_cons, h']
  | cons m ms ih =>
    obtain ⟨k, v⟩ := m
    by_cases h : k = key
    · subst h
      have h' : (other == k) = false := by simpa using hne
      simp [alterMembers, List.lookup_cons, h']
    · by_cases ho : other = k
      · subst ho
        simp [alterMembers, h]
      · have h' : (other == k) = false := by simpa using ho
        simp [alterMembers, h, List.lookup_cons, h', ih]

theorem member?_alterKey_self (key : String) (f : Setting → Setting) (s : Setting) :
    (alterKey key f s).member? key = some (f ((s.member? key).getD (.nothing none))) := by
  cases s <;> simp [alterKey, member?, members, lookup_alterMembers_self]

theorem member?_alterKey_of_ne {key other : String} (hne : other ≠ key) (f : Setting → Setting)
    (s : Setting) : (alterKey key f s).member? other = s.member? other := by
  cases s <;> simp [alterKey, member?, members, lookup_alterMembers_of_ne hne]

end Setting

end Depot
