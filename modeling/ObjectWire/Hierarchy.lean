/-!
# Types and their declared parents

Types are known by name.  A type may declare supertypes it extends and interfaces it implements;
declarations add up.  `Hierarchy.ancestors` lists everything above a type in the order in which
codecs are looked for: supertypes level by level, then interfaces level by level.
-/

namespace ObjectWire

/-- The name of a runtime type. -/
structure TypeKey where
  name : String
  deriving Repr, DecidableEq

namespace TypeKey

/-- The family of all portable objects. -/
def portable : TypeKey := ⟨"hazelcast.Portable"⟩

/-- The family of all identified objects. -/
def identified : TypeKey := ⟨"hazelcast.DataSerializable"⟩

/-- The family of all records that are written as documents. -/
def document : TypeKey := ⟨"hazelcast.Serializable"⟩

/-- Whether a key is that of a family whose codec cannot be replaced. -/
def isReservedFamily (key : TypeKey) : Bool := key = portable || key = identified

end TypeKey

/-- The declared parents of a type, each list in the order of declaration. -/
structure Parents where
  supertypes : List TypeKey
  interfaces : List TypeKey
  deriving Repr, DecidableEq

namespace Parents

/-- No parents. -/
def none : Parents := ⟨[], []⟩

/-- Appends what a list does not have yet, item by item. -/
def addNew (known : List TypeKey) : List TypeKey → List TypeKey
  | [] => known
  | key :: keys => addNew (if key ∈ known then known else known ++ [key]) keys

/-- Parents together with more of them. -/
def merge (known more : Parents) : Parents :=
  ⟨addNew known.supertypes more.supertypes, addNew known.interfaces more.interfaces⟩

/-- All parents, interfaces first. -/
def all (parents : Parents) : List TypeKey := parents.interfaces ++ parents.supertypes

end Parents

/-- The declared parents of every type. -/
structure Hierarchy where
  types : List (TypeKey × Parents)
  deriving Repr, DecidableEq

namespace Hierarchy

/-- No declarations. -/
def empty : Hierarchy := ⟨[]⟩

/-- The declared parents of a type, if it is declared. -/
def parents? (hierarchy : Hierarchy) (key : TypeKey) : Option Parents :=
  hierarchy.types.lookup key

/-- The declared parents of a type; an undeclared type has none. -/
def parents (hierarchy : Hierarchy) (key : TypeKey) : Parents :=
  (hierarchy.parents? key).getD .none

/-- Whether a type is declared. -/
def isDeclared (hierarchy : Hierarchy) (key : TypeKey) : Bool := (hierarchy.parents? key).isSome

/-- Declares parents of a type, in addition to those it has. -/
def declare (key : TypeKey) (more : Parents) (hierarchy : Hierarchy) : Hierarchy :=
  if hierarchy.isDeclared key then
    ⟨hierarchy.types.map fun (known, parents) =>
      if known = key then (known, parents.merge more) else (known, parents)⟩
  else ⟨hierarchy.types ++ [(key, Parents.none.merge more)]⟩

/-- What of a list is neither among `seen` nor repeated. -/
def unseen (seen : List TypeKey) : List TypeKey → List TypeKey
  | [] => []
  | key :: keys => if key ∈ seen then unseen seen keys else key :: unseen (key :: seen) keys

/-- Visits everything that `links` lead to, level by level, beginning with a queue; what is found
    new is listed in `found` and queued.  Each type enters the queue at most once, so as many
    rounds as there are types suffice. -/
def visit (links : TypeKey → List TypeKey) :
    (rounds : Nat) → (queue seen found : List TypeKey) → List TypeKey
  | 0, _, _, found => found
  | _ + 1, [], _, found => found
  | rounds + 1, key :: queue, seen, found =>
    let new := unseen seen (links key)
    visit links rounds (queue ++ new) (seen ++ new) (found ++ new)

/-- An upper bound for the number of types in a hierarchy, one more type included. -/
def bound (hierarchy : Hierarchy) : Nat :=
  (hierarchy.types.map fun (_, parents) => parents.all.length + 1).foldr (· + ·) 0 + 1

/-- The types above a type through supertypes alone, level by level. -/
def supertypesAbove (hierarchy : Hierarchy) (key : TypeKey) : List TypeKey :=
  visit (fun t => (hierarchy.parents t).supertypes) hierarchy.bound [key] [key] []

/-- Every type above a type: the supertypes level by level, then the interfaces that it and they
    implement and whatever is above those, level by level. -/
def ancestors (hierarchy : Hierarchy) (key : TypeKey) : List TypeKey :=
  let classes := hierarchy.supertypesAbove key
  let seen := key :: classes
  let direct := unseen seen ((key :: classes).flatMap fun t => (hierarchy.parents t).interfaces)
  classes ++ visit (fun t => (hierarchy.parents t).all) hierarchy.bound direct (seen ++ direct)
    direct

/-- Whether a type is another one or has it above. -/
def isA (hierarchy : Hierarchy) (key ancestor : TypeKey) : Bool :=
  key = ancestor || ancestor ∈ hierarchy.ancestors key

end Hierarchy

end ObjectWire
