import ObjectWire.Hierarchy
import ObjectWire.Proofs.Keyed

/-!
# What stands above a type

Everything above a type was declared as a parent of some type, and never the type itself.  Declaring
parents adds no others than those that are declared.
-/

namespace ObjectWire

theorem Parents.mem_addNew {known keys : List TypeKey} {key : TypeKey}
    (member : key ∈ addNew known keys) : key ∈ known ∨ key ∈ keys := by
  induction keys generalizing known with
  | nil => exact .inl member
  | cons first others ih =>
    rcases ih member with old | new
    · by_cases present : first ∈ known
      · rw [if_pos present] at old
        exact .inl old
      · rw [if_neg present] at old
        rcases List.mem_append.mp old with old | last
        · exact .inl old
        · rw [List.mem_singleton.mp last]
          exact .inr (by simp)
    · exact .inr (List.mem_cons_of_mem _ new)

theorem Parents.mem_merge {known more : Parents} {key : TypeKey}
    (member : key ∈ (known.merge more).all) : key ∈ known.all ∨ key ∈ more.all := by
  simp only [all, List.mem_append] at member ⊢
  rcases member with member | member
  · exact (mem_addNew member).imp .inl .inl
  · exact (mem_addNew member).imp .inr .inr

namespace Hierarchy

variable {hierarchy : Hierarchy} {key parent : TypeKey} {links : TypeKey → List TypeKey}

/-- The type is declared as a parent of some type. -/
def Mentions (hierarchy : Hierarchy) (parent : TypeKey) : Prop :=
  ∃ entry ∈ hierarchy.types, parent ∈ entry.2.all

theorem mentions_of_mem_parents (member : parent ∈ (hierarchy.parents key).all) :
    hierarchy.Mentions parent := by
  unfold parents at member
  cases declared : hierarchy.parents? key with
  | none =>
    rw [declared] at member
    cases member
  | some own =>
    rw [declared] at member
    exact ⟨(key, own), Keyed.mem_of_lookup declared, member⟩

theorem mem_of_mem_unseen {seen keys : List TypeKey} (member : key ∈ unseen seen keys) :
    key ∈ keys := by
  induction keys generalizing seen with
  | nil => exact member
  | cons first others ih =>
    unfold unseen at member
    split at member
    case isTrue => exact List.mem_cons_of_mem _ (ih member)
    case isFalse =>
      rcases List.mem_cons.mp member with rfl | later
      · exact List.mem_cons_self
      · exact List.mem_cons_of_mem _ (ih later)

/-- A visit comes across what links lead to, and nothing else. -/
theorem mem_visit {rounds : Nat} {queue seen found : List TypeKey}
    (member : parent ∈ visit links rounds queue seen found) :
    parent ∈ found ∨ ∃ key, parent ∈ links key := by
  induction rounds generalizing queue seen found with
  | zero => exact .inl member
  | succ rounds ih =>
    cases queue with
    | nil => exact .inl member
    | cons first queue =>
      rcases ih member with old | linked
      · rcases List.mem_append.mp old with old | new
        · exact .inl old
        · exact .inr ⟨first, mem_of_mem_unseen new⟩
      · exact .inr linked

/-- What stands above a type is declared as a parent. -/
theorem mentions_of_mem_ancestors (member : parent ∈ hierarchy.ancestors key) :
    hierarchy.Mentions parent := by
  unfold ancestors at member
  rcases List.mem_append.mp member with above | beside
  · rcases mem_visit above with none | ⟨known, linked⟩
    · cases none
    · exact mentions_of_mem_parents (List.mem_append_right _ linked)
  · rcases mem_visit beside with direct | ⟨known, linked⟩
    · obtain ⟨known, -, linked⟩ := List.mem_flatMap.mp (mem_of_mem_unseen direct)
      exact mentions_of_mem_parents (List.mem_append_left _ linked)
    · exact mentions_of_mem_parents linked

theorem not_mem_of_mem_unseen {seen keys : List TypeKey} (member : key ∈ unseen seen keys) :
    key ∉ seen := by
  induction keys generalizing seen with
  | nil => cases member
  | cons first others ih =>
    unfold unseen at member
    split at member
    case isTrue => exact ih member
    case isFalse new =>
      rcases List.mem_cons.mp member with rfl | later
      · exact new
      · exact fun known => ih later (List.mem_cons_of_mem _ known)

/-- A visit does not come across what counted as seen from the start. -/
theorem not_mem_visit {rounds : Nat} {queue seen found : List TypeKey} (known : key ∈ seen)
    (absent : key ∉ found) : key ∉ visit links rounds queue seen found := by
  induction rounds generalizing queue seen found with
  | zero => exact absent
  | succ rounds ih =>
    cases queue with
    | nil => exact absent
    | cons first queue =>
      have new : key ∉ unseen seen (links first) := fun member =>
        not_mem_of_mem_unseen member known
      exact ih (List.mem_append_left _ known) fun member =>
        (List.mem_append.mp member).elim absent new

/-- A type does not stand above itself, even where the declarations lead back to it. -/
theorem not_mem_ancestors_self (hierarchy : Hierarchy) (key : TypeKey) :
    key ∉ hierarchy.ancestors key := by
  intro member
  unfold ancestors at member
  rcases List.mem_append.mp member with above | beside
  · exact not_mem_visit (List.mem_singleton_self key) List.not_mem_nil above
  · have direct : key ∉ unseen (key :: hierarchy.supertypesAbove key)
        ((key :: hierarchy.supertypesAbove key).flatMap fun t =>
          (hierarchy.parents t).interfaces) :=
      fun member => not_mem_of_mem_unseen member List.mem_cons_self
    exact not_mem_visit (List.mem_append_left _ List.mem_cons_self) direct beside

theorem visit_nil (rounds : Nat) (seen found : List TypeKey) :
    visit links rounds [] seen found = found := by
  cases rounds <;> rfl

/-- Only a declared type has others above it. -/
theorem isDeclared_of_mem_ancestors (member : parent ∈ hierarchy.ancestors key) :
    hierarchy.isDeclared key = true := by
  cases declared : hierarchy.isDeclared key with
  | true => rfl
  | false =>
    have none : hierarchy.parents key = .none := by
      have absent : hierarchy.parents? key = Option.none := by simpa [isDeclared] using declared
      rw [parents, absent]
      rfl
    have classes : hierarchy.supertypesAbove key = [] := by
      simp only [supertypesAbove, bound, visit, none, Parents.none, unseen, List.append_nil,
        visit_nil]
    simp [ancestors, classes, none, Parents.none, unseen, visit_nil] at member

theorem isA_iff {ancestor : TypeKey} :
    hierarchy.isA key ancestor = true ↔ key = ancestor ∨ ancestor ∈ hierarchy.ancestors key := by
  simp [isA]

theorem mentions_of_declare {more : Parents} (h : (hierarchy.declare key more).Mentions parent) :
    hierarchy.Mentions parent ∨ parent ∈ more.all := by
  obtain ⟨entry, member, among⟩ := h
  unfold declare at member
  split at member
  case isTrue =>
    obtain ⟨⟨known, own⟩, old, rfl⟩ := List.mem_map.mp member
    by_cases same : known = key
    · simp only [if_pos same] at among
      exact (Parents.mem_merge among).imp (fun among => ⟨(known, own), old, among⟩) id
    · simp only [if_neg same] at among
      exact .inl ⟨(known, own), old, among⟩
  case isFalse =>
    rcases List.mem_append.mp member with old | new
    · exact .inl ⟨entry, old, among⟩
    · rw [List.mem_singleton.mp new] at among
      rcases Parents.mem_merge among with none | new
      · cases none
      · exact .inr new

end Hierarchy

end ObjectWire
