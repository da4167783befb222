import ObjectWire.Proofs.Json.Numerals
import ObjectWire.Proofs.Json.Quoting

/-!
# Printed documents

A document in which texts are quoted and numbers are spelled as they must be is parsed from its
printed form.  A value inside a document is followed by a comma or by a closing bracket, and the
parser leaves what follows untouched.
-/

namespace ObjectWire.Json

mutual
/-- Every text is quoted as it must be, and every number is spelled as one. -/
def Formed : Json → Prop
  | .null | .bool _ => True
  | .number spelled => Numeral spelled
  | .string quoted => ∃ meaning, Quotes quoted meaning
  | .array items => AllFormed items
  | .object members => MembersFormed members

/-- Every item is formed. -/
def AllFormed : List Json → Prop
  | [] => True
  | item :: items => Formed item ∧ AllFormed items

/-- Every name is quoted as it must be, and every member is formed. -/
def MembersFormed : List (Bytes × Json) → Prop
  | [] => True
  | (name, item) :: members => (∃ meaning, Quotes name meaning) ∧ Formed item ∧ MembersFormed members
end

/-- The byte may begin a value: it is no blank, and it closes nothing. -/
def Begins (b : UInt8) : Prop := b ∉ [0x20, 0x09, 0x0A, 0x0D, 0x5D, 0x7D]

instance : DecidablePred Begins := fun _ => inferInstanceAs (Decidable (_ ∉ _))

theorem skipBlanks_of_begins {b : UInt8} (begins : Begins b) (rest : Bytes) :
    skipBlanks (b :: rest) = b :: rest := by
  simp only [Begins, List.mem_cons, not_or] at begins
  simp [skipBlanks, begins]

/-- A number begins with none of some bytes if none of them is a sign or a digit. -/
theorem not_mem_of_numeral {b : UInt8} {bytes : Bytes} (numeral : b = 0x2D ∨ isDigit b = true)
    (apart : ∀ other ∈ bytes, other ≠ 0x2D ∧ isDigit other = false) : b ∉ bytes := by
  intro listed
  obtain ⟨minus, digit⟩ := apart b listed
  rcases numeral with same | same
  · exact minus same
  · rw [same] at digit
    cases digit

theorem begins_numeral {b : UInt8} (numeral : b = 0x2D ∨ isDigit b = true) : Begins b :=
  not_mem_of_numeral numeral (by decide +kernel)

/-- A printed value begins as a value may. -/
theorem render_begins {document : Json} (formed : Formed document) :
    ∃ b more, render document = b :: more ∧ Begins b := by
  cases document with
  | null => exact ⟨_, _, rfl, by decide⟩
  | bool b => cases b <;> exact ⟨_, _, rfl, by decide⟩
  | number spelled =>
    obtain ⟨b, more, front, numeral⟩ := formed.first
    exact ⟨b, more, front, begins_numeral numeral⟩
  | string quoted => exact ⟨_, _, rfl, by decide⟩
  | array items => exact ⟨_, _, rfl, by decide⟩
  | object members => exact ⟨_, _, rfl, by decide⟩

theorem parseValue_number {spelled rest : Bytes} (numeral : Numeral spelled) (ends : Ends rest)
    (fuel : Nat) : parseValue (fuel + 1) (spelled ++ rest) = some (.number spelled, rest) := by
  obtain ⟨b, more, rfl, first⟩ := numeral.first
  have scanned := numeral.scanned rest ends
  have unlisted : b ∉ [0x22, 0x5B, 0x7B, 0x6E, 0x74, 0x66] :=
    not_mem_of_numeral first (by decide +kernel)
  simp only [List.mem_cons, not_or] at unlisted
  rw [List.cons_append] at scanned ⊢
  rw [parseValue, skipBlanks_of_begins (begins_numeral first)]
  simp [unlisted, scanned]

theorem renderItems_cons (item : Json) {items : List Json} (more : items ≠ []) :
    renderItems (item :: items) = render item ++ (0x2C :: renderItems items) := by
  rw [renderItems.eq_3 _ _ more]
  simp

theorem renderMembers_cons (name : Bytes) (item : Json) {members : List (Bytes × Json)}
    (more : members ≠ []) :
    renderMembers ((name, item) :: members) =
      0x22 :: (name ++ (0x22 :: 0x3A :: (render item ++ (0x2C :: renderMembers members)))) := by
  rw [renderMembers.eq_3 _ _ _ more]
  simp

theorem renderMembers_one (name : Bytes) (item : Json) :
    renderMembers [(name, item)] = 0x22 :: (name ++ (0x22 :: 0x3A :: render item)) := by
  simp [renderMembers]

theorem renderItems_begins {item : Json} {items : List Json} (formed : Formed item) :
    ∃ b more, renderItems (item :: items) = b :: more ∧ Begins b := by
  obtain ⟨b, more, front, begins⟩ := render_begins formed
  cases items with
  | nil => exact ⟨b, more, front, begins⟩
  | cons next items =>
    rw [renderItems_cons item (List.cons_ne_nil next items), front]
    exact ⟨b, _, rfl, begins⟩

theorem ends_cons {b : UInt8} (listed : b ∈ [0x2C, 0x5D, 0x7D]) (rest : Bytes) : Ends (b :: rest) :=
  .inr ⟨b, rest, rfl, listed⟩

mutual
/-- A printed value is parsed, and what follows it is left. -/
theorem parseValue_render (document : Json) (formed : Formed document) (fuel : Nat) (rest : Bytes)
    (enough : 2 * (render document).length ≤ fuel) (ends : Ends rest) :
    parseValue fuel (render document ++ rest) = some (document, rest) := by
  obtain ⟨b, more, front, begins⟩ := render_begins formed
  obtain ⟨fuel, rfl⟩ : ∃ less, fuel = less + 1 := by
    refine ⟨fuel - 1, ?_⟩
    rw [front, List.length_cons] at enough
    omega
  match document with
  | .null => rfl
  | .bool b => cases b <;> rfl
  | .number spelled => exact parseValue_number formed ends fuel
  | .string quoted =>
    obtain ⟨meaning, quotes⟩ := formed
    simp only [render, List.append_assoc, List.cons_append, List.nil_append]
    rw [parseValue, skipBlanks_of_begins (by decide)]
    simp [quotes.close rest]
  | .array [] => simp [render, renderItems, parseValue, skipBlanks]
  | .array (item :: items) =>
    simp only [render, List.length_append, List.length_cons, List.length_nil] at enough
    have parsed := parseItems_render (item :: items) formed (List.cons_ne_nil item items) fuel rest
      (by omega)
    obtain ⟨b, more, first, begins⟩ := renderItems_begins formed.1
    simp only [render, List.append_assoc, List.cons_append, List.nil_append]
    rw [parseValue, skipBlanks_of_begins (by decide)]
    rw [first, List.cons_append] at parsed ⊢
    have opened : b ≠ 0x5D := fun same => by simp [same, Begins] at begins
    simp [skipBlanks_of_begins begins, opened, parsed]
  | .object [] => simp [render, renderMembers, parseValue, skipBlanks]
  | .object ((name, item) :: members) =>
    simp only [render, List.length_append, List.length_cons, List.length_nil] at enough
    have parsed := parseMembers_render ((name, item) :: members) formed
      (List.cons_ne_nil _ members) fuel rest (by omega)
    have first : ∃ more, renderMembers ((name, item) :: members) = 0x22 :: more := by
      cases members with
      | nil => exact ⟨_, renderMembers_one name item⟩
      | cons next members => exact ⟨_, renderMembers_cons name item (List.cons_ne_nil next members)⟩
    obtain ⟨more, first⟩ := first
    simp only [render, List.append_assoc, List.cons_append, List.nil_append]
    rw [parseValue, skipBlanks_of_begins (by decide)]
    rw [first, List.cons_append] at parsed ⊢
    simp [skipBlanks_of_begins (show Begins 0x22 by decide), parsed]

theorem parseItems_render (items : List Json) (formed : AllFormed items) (content : items ≠ [])
    (fuel : Nat) (rest : Bytes) (enough : 2 * (renderItems items).length < fuel) :
    parseItems fuel (renderItems items ++ 0x5D :: rest) = some (items, rest) := by
  obtain ⟨fuel, rfl⟩ : ∃ less, fuel = less + 1 := ⟨fuel - 1, by omega⟩
  match items with
  | [] => exact absurd rfl content
  | [item] =>
    rw [renderItems] at enough ⊢
    have parsed := parseValue_render item formed.1 fuel (0x5D :: rest) (by omega)
      (ends_cons (by decide) rest)
    rw [parseItems, parsed]
    simp [skipBlanks]
  | item :: next :: items =>
    rw [renderItems_cons item (List.cons_ne_nil next items)] at enough ⊢
    rw [List.length_append, List.length_cons] at enough
    rw [List.append_assoc, List.cons_append]
    have others := parseItems_render (next :: items) formed.2 (List.cons_ne_nil next items) fuel rest
      (by omega)
    have parsed := parseValue_render item formed.1 fuel _ (by omega)
      (ends_cons (show 0x2C ∈ _ by decide) (renderItems (next :: items) ++ 0x5D :: rest))
    rw [parseItems, parsed]
    simp [skipBlanks, others]

theorem parseMembers_render (members : List (Bytes × Json)) (formed : MembersFormed members)
    (content : members ≠ []) (fuel : Nat) (rest : Bytes)
    (enough : 2 * (renderMembers members).length < fuel) :
    parseMembers fuel (renderMembers members ++ 0x7D :: rest) = some (members, rest) := by
  obtain ⟨fuel, rfl⟩ : ∃ less, fuel = less + 1 := ⟨fuel - 1, by omega⟩
  match members with
  | [] => exact absurd rfl content
  | [(name, item)] =>
    obtain ⟨⟨meaning, quotes⟩, formed, -⟩ := formed
    rw [renderMembers_one] at enough ⊢
    simp only [List.length_append, List.length_cons] at enough
    have parsed := parseValue_render item formed fuel (0x7D :: rest) (by omega)
      (ends_cons (by decide) rest)
    simp only [List.append_assoc, List.cons_append]
    rw [parseMembers, skipBlanks_of_begins (by decide)]
    simp [quotes.close, skipBlanks, parsed]
  | (name, item) :: next :: members =>
    obtain ⟨⟨meaning, quotes⟩, formed, others⟩ := formed
    rw [renderMembers_cons name item (List.cons_ne_nil next members)] at enough ⊢
    simp only [List.length_append, List.length_cons] at enough
    have later := parseMembers_render (next :: members) others (List.cons_ne_nil next members) fuel
      rest (by omega)
    have parsed := parseValue_render item formed fuel _ (by omega)
      (ends_cons (show 0x2C ∈ _ by decide) (renderMembers (next :: members) ++ 0x7D :: rest))
    simp only [List.append_assoc, List.cons_append]
    rw [parseMembers, skipBlanks_of_begins (by decide)]
    simp [quotes.close, skipBlanks, parsed, later]
end

/-- Printing and parsing are inverse on formed documents. -/
theorem parse?_render {document : Json} (formed : Formed document) :
    parse? (render document) = some document := by
  have parsed := parseValue_render document formed (2 * (render document).length + 2) [] (by omega)
    (.inl rfl)
  rw [List.append_nil] at parsed
  simp [parse?, parsed, skipBlanks]

end ObjectWire.Json
