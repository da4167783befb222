import ObjectWire.Keyed
import ObjectWire.Value

/-!
# Factories of identified objects

An identified object is made by the factory that its factory id names, and knows itself how to
read what follows.
-/

namespace ObjectWire

/-- What an identified object reads: input steps, each chosen by what the earlier ones came to. -/
inductive InputPlan
  | done
  | step (read : InputStep) (next : InputResult → InputPlan)

namespace InputPlan

/-- The steps in order, whatever they come to. -/
def ofSteps : List InputStep → InputPlan
  | [] => done
  | read :: reads => step read fun _ => ofSteps reads

end InputPlan

/-- An identified object that is yet to read itself. -/
inductive BlankIdentified
  /-- An object that performs the steps of a plan, up to the first one that fails. -/
  | planned (factoryId classId : Int32) (plan : InputPlan)
  | reading

namespace BlankIdentified

/-- An object that performs the input steps, in order. -/
def scripted (factoryId classId : Int32) (reads : List InputStep) : BlankIdentified :=
  planned factoryId classId (.ofSteps reads)

/-- A blank object as it is before reading. -/
def toIdentified : BlankIdentified → Identified
  | planned factoryId classId _ => .scripted factoryId classId [] none []
  | reading => .reading Reading.blank

end BlankIdentified

/-- Makes blank objects of the classes it knows. -/
abbrev IdentifiedFactory : Type := Int32 → Option BlankIdentified

/-- Factories by their ids. -/
structure Factories where
  entries : List (Int32 × IdentifiedFactory)

namespace Factories

/-- No factories. -/
def empty : Factories := ⟨[]⟩

/-- Files a factory under an id, in place of the one that is filed there. -/
def register (id : Int32) (factory : IdentifiedFactory) (factories : Factories) : Factories :=
  ⟨Keyed.put id factory factories.entries⟩

/-- Takes the factory with an id away. -/
def unregister (id : Int32) (factories : Factories) : Factories :=
  ⟨Keyed.erase id factories.entries⟩

/-- The factory with an id. -/
def get? (factories : Factories) (id : Int32) : Option IdentifiedFactory :=
  factories.entries.lookup id

/-- Whether there is a factory with an id. -/
def contains (factories : Factories) (id : Int32) : Bool := (factories.get? id).isSome

/-- A blank object of a class of a factory. -/
def create (factories : Factories) (id classId : Int32) : Option BlankIdentified := do
  (← factories.get? id) classId

/-- The number of factories. -/
def size (factories : Factories) : Nat := factories.entries.length

/-- The ids of all factories, in ascending order. -/
def ids (factories : Factories) : List Int32 :=
  (factories.entries.map Prod.fst).mergeSort fun a b => a ≤ b

/-- Factories as shown in messages. -/
def shown (factories : Factories) : String :=
  "FactoryRegistry \x7b factory_ids: " ++ Quoted.list (factories.ids.map toString) ++ " \x7d"

/-- The codec of identified objects over these factories, as shown in messages. -/
def codecShown (factories : Factories) : String :=
  "DataSerializer \x7b factories: " ++ factories.shown ++ " \x7d"

end Factories

end ObjectWire
