import ObjectWire.Keyed

/-!
# Entries by key, as lists and as maps

Looking a key up finds an entry of the list, and where no key is filed twice it finds every entry.
-/

namespace ObjectWire.Keyed

variable {α β : Type} [DecidableEq α]

theorem mem_of_lookup {key : α} {value : β} {entries : List (α × β)}
    (h : entries.lookup key = some value) : (key, value) ∈ entries := by
  obtain ⟨front, back, rfl, -⟩ := List.lookup_eq_some_iff.mp h
  simp

theorem lookup_of_mem {key : α} {value : β} {entries : List (α × β)}
    (distinct : (entries.map Prod.fst).Nodup) (member : (key, value) ∈ entries) :
    entries.lookup key = some value := by
  obtain ⟨front, back, rfl⟩ := List.append_of_mem member
  refine List.lookup_eq_some_iff.mpr ⟨front, back, rfl, fun entry before => ?_⟩
  simp only [List.map_append, List.map_cons] at distinct
  have other :=
    (List.nodup_append.mp distinct).2.2 entry.1 (List.mem_map_of_mem before) key (by simp)
  simpa using Ne.symm other

/-- What is filed under another key stays. -/
theorem lookup_put_of_ne {key other : α} (apart : other ≠ key) (value : β)
    (entries : List (α × β)) : (put key value entries).lookup other = entries.lookup other := by
  have missed : (other == key) = false := beq_false_of_ne apart
  unfold put
  split
  case isFalse => rw [List.lookup_append, List.lookup_cons, missed, List.lookup_nil, Option.or_none]
  case isTrue =>
    generalize entries = all
    induction all with
    | nil => rfl
    | cons entry all ih =>
      obtain ⟨known, held⟩ := entry
      by_cases same : known = key
      · subst same
        simp only [List.map_cons, if_true, List.lookup_cons, missed]
        exact ih
      · simp only [List.map_cons, if_neg same, List.lookup_cons, ih]

theorem lookup_erase_self (key : α) (entries : List (α × β)) :
    (erase key entries).lookup key = none := by
  refine List.lookup_eq_none_iff.mpr fun entry member => ?_
  have apart : entry.1 ≠ key := by simpa using (List.mem_filter.mp member).2
  simpa using Ne.symm apart

theorem lookup_erase_of_ne {key other : α} (apart : other ≠ key) (entries : List (α × β)) :
    (erase key entries).lookup other = entries.lookup other := by
  induction entries with
  | nil => rfl
  | cons entry entries ih =>
    obtain ⟨known, held⟩ := entry
    unfold erase at ih ⊢
    by_cases same : known = key
    · have missed : (other == known) = false := beq_false_of_ne (same ▸ apart)
      rw [List.filter_cons_of_neg (by simpa using same), List.lookup_cons, missed, ih]
    · rw [List.filter_cons_of_pos (by simpa using same), List.lookup_cons, List.lookup_cons, ih]

theorem lookup_append_of_some {key : α} {value : β} {entries more : List (α × β)}
    (h : entries.lookup key = some value) : (entries ++ more).lookup key = some value := by
  rw [List.lookup_append, h]
  rfl

theorem lookup_append_of_none {key : α} {value : β} {entries : List (α × β)}
    (h : entries.lookup key = none) : (entries ++ [(key, value)]).lookup key = some value := by
  rw [List.lookup_append, h]
  simp

/-- Erasing what was filed under a new key gives the entries back. -/
theorem erase_append_of_lookup_none {key : α} {value : β} {entries : List (α × β)}
    (h : entries.lookup key = none) : erase key (entries ++ [(key, value)]) = entries := by
  have others : ∀ entry ∈ entries, decide (entry.1 ≠ key) = true := by
    intro entry member
    have unequal := List.lookup_eq_none_iff.mp h entry member
    simpa using fun same : entry.1 = key => by simp [same] at unequal
  rw [erase, List.filter_append, List.filter_eq_self.mpr others]
  simp

/-- Filing under a key that is not filed yet keeps the keys distinct. -/
theorem distinct_append {key : α} {value : β} {entries : List (α × β)}
    (distinct : (entries.map Prod.fst).Nodup) (h : entries.lookup key = none) :
    ((entries ++ [(key, value)]).map Prod.fst).Nodup := by
  rw [List.map_append, List.nodup_append]
  refine ⟨distinct, by simp, ?_⟩
  rintro known member new only rfl
  obtain ⟨entry, among, rfl⟩ := List.mem_map.mp member
  simp only [List.map_cons, List.map_nil, List.mem_singleton] at only
  have unequal := List.lookup_eq_none_iff.mp h entry among
  simp [only] at unequal

end ObjectWire.Keyed
