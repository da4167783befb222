/-!
# Lists of entries by key

Entries are kept in the order in which their keys first came; looking one up is `List.lookup`.
-/

namespace ObjectWire.Keyed

variable {α β : Type} [DecidableEq α]

/-- Replaces what is filed under a key, or files it last. -/
def put (key : α) (value : β) (entries : List (α × β)) : List (α × β) :=
  if (entries.lookup key).isSome then
    entries.map fun (known, held) => if known = key then (known, value) else (known, held)
  else entries ++ [(key, value)]

/-- Takes away what is filed under a key. -/
def erase (key : α) (entries : List (α × β)) : List (α × β) :=
  entries.filter fun (known, _) => known ≠ key

theorem lookup_put_self (key : α) (value : β) (entries : List (α × β)) :
    (put key value entries).lookup key = some value := by
  induction entries with
  | nil => simp [put]
  | cons entry entries ih =>
    obtain ⟨known, held⟩ := entry
    by_cases h : key = known
    · subst h; simp [put]
    · have hb : (key == known) = false := beq_false_of_ne h
      have hk : ¬ known = key := fun e => h e.symm
      unfold put at ih ⊢
      rw [List.lookup_cons, hb]
      by_cases hs : (entries.lookup key).isSome
      · rw [if_pos hs] at ih ⊢
        simp only [List.map_cons, if_neg hk, List.lookup_cons, hb]
        exact ih
      · rw [if_neg hs] at ih ⊢
        rw [List.cons_append, List.lookup_cons, hb]
        exact ih

end ObjectWire.Keyed
