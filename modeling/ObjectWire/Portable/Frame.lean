import ObjectWire.Portable.BodyWriter
import ObjectWire.Portable.Description

/-!
# Frames

An object on the wire is a frame: the class and version of the definition it was written by, and
its body behind the body's length.  Objects inside an object are frames in its body.

Writing takes a buffer of the pool for every frame that is open.  Reading goes by the definition
registered for the class and version in the frame, and lets the factory make the object; it
answers with the object and leaves what follows the frame unread.
-/

namespace ObjectWire

/-- An object that is yet to read itself. -/
inductive BlankPortable
  /-- An object that performs the reads, in order. -/
  | scripted (classId : Int32) (reads : List FieldRead)
  /-- A link of a chain, which counts the links behind it; scripted objects are known to it by a
      name. -/
  | link (classId : Int32) (typeName : String := Portable.scriptedType)
  | silent (classId : Int32)
  | customer

/-- Makes blank objects of the classes it knows. -/
abbrev PortableFactory : Type := Int32 → Option BlankPortable

namespace BlankPortable

/-- A blank object as it is before reading. -/
def toPortable : BlankPortable → Portable
  | scripted classId _ => .scripted classId none [] none []
  | link classId _ => .link classId 0
  | silent classId => .silent classId
  | customer => .customer Customer.blank

end BlankPortable

namespace Frame

/-- A body under construction, and the context it is written in. -/
structure Open where
  writer : BodyWriter
  context : PortableContext

/-- Runs a step on the body under construction. -/
def onWriter {α : Type} (step : Act BodyWriter α) : Act Open α :=
  Act.on Open.writer (fun writer state => { state with writer := writer }) step

/-- Runs a step on the context. -/
def onContext {α : Type} (step : Act PortableContext α) : Act Open α :=
  Act.on Open.context (fun context state => { state with context := context }) step

/-- Writes bytes to the body under construction. -/
def put (run : Bytes) : Act Open Unit := onWriter (BodyWriter.onBody (Output.write run))

/-- A finished frame: the definition it was written by, and its body. -/
structure Closed where
  definition : ClassDefinition
  body : Bytes

namespace Closed

/-- Writes a frame: the class and version of its definition, then the body behind its length. -/
def write (frame : Closed) : Act Output Unit := do
  Output.write (Wire.classKey frame.definition.key)
  Output.writeItem (Wire.byteArray frame.body)

end Closed

/-- Runs the writes of an object on an empty body in a borrowed buffer. -/
def fill (definition : ClassDefinition) (writes : Act Open Unit) :
    Act PortableContext Closed := fun context =>
  let (buffer, pool) := context.pool.acquire
  match writes ⟨.start definition buffer, { context with pool := pool }⟩ with
  | (outcome, reached) =>
    ((fun _ => ⟨definition, reached.writer.body.content⟩) <$> outcome,
     { reached.context with pool := reached.context.pool.release reached.writer.body })

/-- Requires every object of a list to be of the class a field declares. -/
def checkClasses (name : String) (declared : Int32) : List Portable → Act Open Unit
  | [] => pure ()
  | p :: items => do
    onWriter (BodyWriter.checkClass name declared p.classId)
    checkClasses name declared items

mutual

/-- The frame of an object. -/
def close : Portable → Act PortableContext Closed
  | .scripted classId version writes key got => do
    let definition ← PortableContext.describe (.scripted classId version writes key got)
    fill definition (performAll writes)
  | .link classId behind => do
    let definition ← PortableContext.describe (.link classId behind)
    fill definition (pure ())
  | .silent classId => do
    let definition ← PortableContext.describe (.silent classId)
    fill definition (pure ())
  | .customer c => do
    let definition ← PortableContext.describe (.customer c)
    fill definition (onWriter (BodyWriter.writeAll c.fields))
termination_by structural p => p

/-- Performs writes, one after the other. -/
def performAll : List FieldWrite → Act Open Unit
  | [] => pure ()
  | write :: writes => do
    perform write
    performAll writes
termination_by structural writes => writes

/-- Performs a write. -/
def perform : FieldWrite → Act Open Unit
  | .data name value => onWriter (BodyWriter.writeData name value)
  | .portable name none => do
    let _ ← onWriter (BodyWriter.beginField name .portable)
    put (Wire.bool false)
  | .portable name (some p) => do
    let declared ← onWriter (BodyWriter.beginField name .portable)
    onWriter (BodyWriter.checkClass name declared p.classId)
    put (Wire.bool true)
    let frame ← onContext (close p)
    onWriter (BodyWriter.onBody frame.write)
  | .nullPortable name classId => do
    let declared ← onWriter (BodyWriter.beginField name .portable)
    onWriter (BodyWriter.checkClass name declared classId)
    put (Wire.bool false)
  | .portableArray name classId none => do
    let declared ← onWriter (BodyWriter.beginField name .portableArray)
    onWriter (BodyWriter.checkClass name declared classId)
    put (Wire.bool false)
  | .portableArray name classId (some items) => do
    let declared ← onWriter (BodyWriter.beginField name .portableArray)
    onWriter (BodyWriter.checkClass name declared classId)
    checkClasses name declared items
    put (Wire.bool true)
    onWriter (BodyWriter.onBody (Output.writeItem (Wire.length .array items.length)))
    putAll items
  | .fail text => Act.fail (.reported .serialization text)
termination_by structural write => write

/-- Writes the frames of objects, one after the other. -/
def putAll : List Portable → Act Open Unit
  | [] => pure ()
  | p :: items => do
    let frame ← onContext (close p)
    onWriter (BodyWriter.onBody frame.write)
    putAll items
termination_by structural items => items

end

/-- What reading goes by: the registered definitions and the factory. -/
structure Source where
  context : PortableContext
  factory : Option PortableFactory

namespace Source

/-- A blank object of a class. -/
def create (source : Source) (classId : Int32) : Except Failure BlankPortable :=
  match source.factory with
  | none => .error (.noPortableFactory classId)
  | some factory =>
    match factory classId with
    | none => .error (.cannotCreate classId)
    | some blank => .ok blank

end Source

/-- Requires the object in a field to be of the class the field declares. -/
def checkDecoded (reader : BodyReader) (name : String) (p : Portable) : Except Failure Portable :=
  let declared := (reader.definition.field? name).map fun field => field.nested.classId
  if declared = some p.classId then .ok p else .error (.decodedClass name declared p.classId)

/-- The object in a field, where `nested` reads the frame of an object inside this one. -/
def portableIn (nested : Act Input Portable) (reader : BodyReader) (name : String) :
    Except Failure (Option Portable) := do
  match ← reader.seekPresent name .portable with
  | none => pure none
  | some input => some <$> checkDecoded reader name (← (nested.run input).1)

/-- The run of objects in a field. -/
def portablesIn (nested : Act Input Portable) (reader : BodyReader) (name : String) :
    Except Failure (Option (List Portable)) :=
  let item : Act Input Portable := do
    let p ← nested
    Act.lift (checkDecoded reader name p)
  reader.run .portableArray item name

/-- Performs a read. -/
def read (nested : Act Input Portable) (reader : BodyReader) : FieldRead →
    Except Failure FieldResult
  | .field (.scalar kind) name =>
    (fun item => .data (.scalar kind item)) <$> reader.scalar kind name
  | .field .text name => (fun s => .data (.text s)) <$> reader.text name
  | .field (.array kind) name =>
    (fun items => .data (.array kind items)) <$> reader.array kind name
  | .field .textArray name => (fun items => .data (.textArray items)) <$> reader.textArray name
  | .field .portable name => .portable <$> portableIn nested reader name
  | .field .portableArray name => .portableArray <$> portablesIn nested reader name
  | .objectIn name sort typeName => do
    match ← portableIn nested reader name with
    | none => pure (.portable none)
    | some p => (fun p => .portable (some p)) <$> p.asSort sort typeName
  | .objectsIn name sort typeName => do
    match ← portablesIn nested reader name with
    | none => pure (.portableArray none)
    | some items =>
      (fun items => .portableArray (some items)) <$> items.mapM fun p => p.asSort sort typeName
  | .version => .ok (.version reader.definition.version)
  | .has name => .ok (.has (reader.definition.hasField name))
  | .kindOf name => .ok (.kindOf ((reader.definition.field? name).map Field.kind))
  | .fail text => .error (.reported .serialization text)

/-- Lets a blank object read itself. -/
def readObject (nested : Act Input Portable) (reader : BodyReader) : BlankPortable →
    Except Failure Portable
  | .scripted classId reads => do
    let got ← reads.mapM (read nested reader)
    pure (.scripted classId none [] none got)
  | .link classId typeName => do
    match ← portableIn nested reader "next" with
    | none => pure (.link classId 0)
    | some p =>
      match ← p.asSort .scripted typeName with
      | .link _ behind => pure (.link classId (behind + 1))
      | _ => pure (.link classId 1)
  | .silent classId => .ok (.silent classId)
  | .customer => .customer <$> Customer.read reader

/-- Reads a frame that may still hold objects `levels - 1` deep. -/
def openWithin (source : Source) : (levels : Nat) → Act Input Portable
  | 0 => Act.fail .portablesTooDeep
  | levels + 1 => do
    let key ← Input.classKey
    let body ← Input.bytes (← Input.length .portableBody)
    match source.context.lookup key with
    | none => Act.fail (.noDefinition key.classId key.version)
    | some definition => Act.lift do
      let blank ← source.create key.classId
      let reader ← BodyReader.start definition body
      readObject (openWithin source levels) reader blank

/-- Reads a frame that lies `depth` levels inside another one. -/
def openAt (source : Source) (depth : Nat) : Act Input Portable :=
  openWithin source (Failure.maxPortableLevels + 1 - depth)

end Frame

end ObjectWire
