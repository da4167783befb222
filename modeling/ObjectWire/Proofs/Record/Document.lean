import ObjectWire.Proofs.Json.Printing
import ObjectWire.Record.Document

/-!
# Documents of records

The document of every note and of every counter is read back into the record, whatever characters
its texts have and however large its numbers are.
-/

namespace ObjectWire

namespace Json

theorem formed_ofText (s : String) : (ofText s).Formed := ⟨_, quotes_chars s.toList⟩

theorem formed_ofInt (n : Int) : (ofInt n).Formed := numeral_toString n

theorem allFormed_ofText (texts : List String) : AllFormed (texts.map ofText) := by
  induction texts with
  | nil => trivial
  | cons first texts ih => exact ⟨formed_ofText first, ih⟩

/-- Texts as a document are a document of the texts. -/
theorem texts?_ofText (texts : List String) : (array (texts.map ofText)).texts? = some texts := by
  rw [texts?]
  induction texts with
  | nil => rfl
  | cons first texts ih => simp [List.mapM_cons, text?_ofText, ih]

end Json

namespace Record

/-- The names of the members of records. -/
def memberNames : List String := ["user", "ttl", "tags", "n"]

/-- The names stand for themselves. -/
theorem quotes_name {name : String} (listed : name ∈ memberNames) :
    Json.Quotes (Json.ascii name) (Utf8.encode name) := by
  have unescaped : ∀ name ∈ memberNames, ∀ b ∈ Json.ascii name, Json.Unescaped b := by
    decide +kernel
  have ascii : ∀ name ∈ memberNames, Json.ascii name = Utf8.encode name := by decide
  have quotes := Json.quotes_run (unescaped name listed)
  rwa [← ascii name listed]

theorem unquoteText_name {name : String} (listed : name ∈ memberNames) :
    Json.unquoteText (Json.ascii name) = some name :=
  (quotes_name listed).unquoteText

theorem formed_document (record : Record) : record.document.Formed := by
  have quoted : ∀ name ∈ memberNames, ∃ meaning, Json.Quotes (Json.ascii name) meaning :=
    fun name listed => ⟨_, quotes_name listed⟩
  cases record with
  | note n =>
    exact ⟨quoted _ (by decide), Json.formed_ofText n.user, quoted _ (by decide),
      Json.formed_ofInt _, quoted _ (by decide), Json.allFormed_ofText n.tags, trivial⟩
  | counter c => exact ⟨quoted _ (by decide), Json.formed_ofInt _, trivial⟩

theorem members?_note (n : Note) :
    members? ["user", "ttl", "tags"] (note n).document =
      some [.ofText n.user, .ofInt n.ttl.toNat, .array (n.tags.map Json.ofText)] := by
  have user : Json.unquoteText (Json.ascii "user") = some "user" := unquoteText_name (by decide)
  have ttl : Json.unquoteText (Json.ascii "ttl") = some "ttl" := unquoteText_name (by decide)
  have tags : Json.unquoteText (Json.ascii "tags") = some "tags" := unquoteText_name (by decide)
  simp [members?, document, user, ttl, tags, member?]

theorem members?_counter (c : Counter) :
    members? ["n"] (counter c).document = some [.ofInt c.n.toInt] := by
  have n : Json.unquoteText (Json.ascii "n") = some "n" := unquoteText_name (by decide)
  simp [members?, document, n, member?]

theorem note?_document (n : Note) : note? (note n).document = some n := by
  have range : (decide (0 ≤ (n.ttl.toNat : Int)) && decide ((n.ttl.toNat : Int) < 0x100000000)) =
      true := by
    have small := n.ttl.toNat_lt
    rw [Bool.and_eq_true, decide_eq_true_iff, decide_eq_true_iff]
    omega
  rw [note?, members?_note, Option.bind_eq_bind, Option.bind_some]
  simp only [Option.bind_eq_bind, Json.text?_ofText, Option.bind_some]
  rw [Json.int?_ofInt, Option.bind_some, Json.texts?_ofText, Option.bind_some, if_pos range,
    Int.toNat_natCast, UInt32.ofNat_toNat]

theorem counter?_document (c : Counter) : counter? (counter c).document = some c := by
  have range : (decide (-0x8000000000000000 ≤ c.n.toInt) &&
      decide (c.n.toInt < 0x8000000000000000)) = true := by
    have low := c.n.le_toInt
    have high := c.n.toInt_lt
    rw [Bool.and_eq_true, decide_eq_true_iff, decide_eq_true_iff]
    omega
  rw [counter?, members?_counter, Option.bind_eq_bind, Option.bind_some]
  simp only [Option.bind_eq_bind, Option.bind_some, Json.int?_ofInt]
  rw [if_pos range, Int64.ofInt_toInt]

/-- A record is read back from its document. -/
theorem decode?_encode (record : Record) : decode? record.kind record.encode = some record := by
  have parsed : Json.parse? record.encode = some record.document :=
    Json.parse?_render record.formed_document
  cases record with
  | note n => simp [decode?, parsed, kind, note?_document]
  | counter c => simp [decode?, parsed, kind, counter?_document]

end Record

end ObjectWire
