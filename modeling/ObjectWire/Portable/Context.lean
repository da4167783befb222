import ObjectWire.ClassDefinition.Forms
import ObjectWire.ClassDefinition.Layout
import ObjectWire.Pool

/-!
# The class definitions in use

Definitions are registered once under a class and version and never replaced: whoever comes first
decides, and everybody else gets what is registered.  Registering a definition registers the
definitions nested in it as well, and the compressed form of every registered definition is at
hand.
-/

namespace ObjectWire

/-- The definitions in use, the version of objects that name none, the buffers that writing
    borrows, and the compressed forms at hand. -/
structure PortableContext where
  version : Int32
  definitions : List (ClassKey × ClassDefinition)
  pool : Pool
  forms : CompressedForms

namespace PortableContext

/-- A context without definitions. -/
def start (version : Int32) (pool : Pool) : PortableContext :=
  ⟨version, [], pool, .empty⟩

/-- The definition registered for a class and version. -/
def lookup (context : PortableContext) (key : ClassKey) : Option ClassDefinition :=
  context.definitions.lookup key

/-- The definition registered for a class at the context's own version. -/
def lookupCurrent (context : PortableContext) (classId : Int32) : Option ClassDefinition :=
  context.lookup ⟨classId, context.version⟩

/-- Adds a definition under a new key. -/
def insert (key : ClassKey) (definition : ClassDefinition) (context : PortableContext) :
    PortableContext :=
  { context with definitions := context.definitions ++ [(key, definition)] }

/-- Runs a step with a buffer of the pool, which goes back whatever happens. -/
def withBuffer {α : Type} (step : Act (Output × PortableContext) α) : Act PortableContext α :=
  fun context =>
    let (buffer, pool) := context.pool.acquire
    match step (buffer, { context with pool := pool }) with
    | (outcome, (buffer, reached)) =>
      (outcome, { reached with pool := reached.pool.release buffer })

/-- Keeps the compressed form of a definition. -/
def keepForm (definition : ClassDefinition) (form : Bytes) (context : PortableContext) :
    PortableContext :=
  { context with forms := context.forms.keep definition form }

/-- The compressed form of a definition; if it is not at hand, it is made in a buffer. -/
def binaryOf (definition : ClassDefinition) : Act PortableContext Bytes := do
  match (← get).forms.formOf definition with
  | some form => pure form
  | none => withBuffer do
    let layout ← Act.lift definition.layout
    let form := Zlib.compress layout
    modify fun (buffer, context) => (buffer.append layout, context.keepForm definition form)
    pure form

/-- Gives labels to a definition that is about to be held here. -/
def label (definition : ClassDefinition) : Act PortableContext ClassDefinition := do
  let (labelled, forms) := (← get).forms.label definition
  modify fun context => { context with forms := forms }
  pure labelled

/-- The definition under a key: the one that is there, or else this one, which is put there. -/
def settle (key : ClassKey) (definition : ClassDefinition) :
    Act PortableContext ClassDefinition := do
  match (← get).lookup key with
  | some known => pure known
  | none =>
    let definition ← label definition
    modify (insert key definition)
    pure definition

/-- Registers a definition under a key, unless one is registered there, and then the definitions
    nested in whichever it is.  Walking from a definition to a nested one `levels` times in a row
    means that a definition contains itself. -/
def registerWithin : (levels : Nat) → ClassKey → ClassDefinition →
    Act PortableContext ClassDefinition
  | 0, key, _ => Act.fail (.endlessDefinition key.classId key.version)
  | levels + 1, key, definition => do
    let settled ← settle key definition
    let _ ← binaryOf settled
    Act.forEach (fun nested => do
      let _ ← registerWithin levels nested.key nested) settled.nested
    pure settled

/-- Registers a definition under a key.  A walk that meets no definition twice is at most as long
    as there are definitions. -/
def registerUnder (key : ClassKey) (definition : ClassDefinition) :
    Act PortableContext ClassDefinition := do
  let context ← get
  registerWithin (context.definitions.length + definition.count + 1) key definition

/-- Registers a definition under the class and version it describes. -/
def register (definition : ClassDefinition) : Act PortableContext ClassDefinition :=
  registerUnder definition.key definition

/-- Registers a definition for a class at the context's own version. -/
def registerFor (classId : Int32) (definition : ClassDefinition) :
    Act PortableContext ClassDefinition := do
  registerUnder ⟨classId, (← get).version⟩ definition

/-- Registers definitions, one after the other. -/
def registerEach (definitions : List ClassDefinition) : Act PortableContext Unit :=
  Act.forEach (fun definition => do
    let _ ← register definition) definitions

/-- Imports the definition that a compressed layout stands for.  If it is new here, it is registered
    with the layout as it came for its compressed form.  If one is known for its class and version,
    that is the answer, and what is nested in that is registered; the known one itself is not
    compressed for it. -/
def importCompressed (compressed : Bytes) : Act PortableContext ClassDefinition := do
  let definition ← Act.lift (ClassDefinition.ofCompressed compressed)
  match (← get).lookup definition.key with
  | some known =>
    registerEach known.nested
    pure known
  | none =>
    let definition ← label definition
    modify (keepForm definition compressed)
    register definition

end PortableContext

end ObjectWire
