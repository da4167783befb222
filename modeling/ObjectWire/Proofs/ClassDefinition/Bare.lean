import ObjectWire.ClassDefinition.Layout

/-!
# What definitions say

Two definitions are the same if they differ in nothing but labels.  `ClassDefinition.bare` takes
every label off, so that being the same is equality of what is left, and everything that does not
look at labels is a function of it: the layout, the depth and the fields.
-/

namespace ObjectWire.ClassDefinition

/-- Induction over a definition and the definitions nested in it. -/
theorem induction {motive : ClassDefinition → Prop}
    (step : ∀ definition, (∀ nested ∈ definition.nested, motive nested) → motive definition)
    (definition : ClassDefinition) : motive definition := by
  suffices both : ∀ n, ∀ definition : ClassDefinition, sizeOf definition < n →
      motive definition from both _ definition (Nat.lt_succ_self _)
  intro n
  induction n with
  | zero => intro definition small; omega
  | succ n ih =>
    intro definition small
    refine step definition fun nested member => ih nested ?_
    obtain ⟨key, fields, inner, label⟩ := definition
    have smaller := List.sizeOf_lt_of_mem (show nested ∈ inner from member)
    simp only [mk.sizeOf_spec] at small
    omega

mutual
/-- A definition without any labels. -/
def bare : ClassDefinition → ClassDefinition
  | ⟨key, fields, nested, _⟩ => ⟨key, fields, bareAll nested, none⟩

/-- Definitions without any labels. -/
def bareAll : List ClassDefinition → List ClassDefinition
  | [] => []
  | definition :: definitions => definition.bare :: bareAll definitions
end

theorem bareAll_eq_map (definitions : List ClassDefinition) :
    bareAll definitions = definitions.map bare := by
  induction definitions with
  | nil => rfl
  | cons definition definitions ih => rw [bareAll, ih, List.map_cons]

@[simp] theorem bare_key (definition : ClassDefinition) : definition.bare.key = definition.key := by
  cases definition; rfl

@[simp] theorem bare_fields (definition : ClassDefinition) :
    definition.bare.fields = definition.fields := by
  cases definition; rfl

@[simp] theorem bare_nested (definition : ClassDefinition) :
    definition.bare.nested = definition.nested.map bare := by
  obtain ⟨key, fields, nested, label⟩ := definition
  exact bareAll_eq_map nested

@[simp] theorem bare_field? (definition : ClassDefinition) (name : String) :
    definition.bare.field? name = definition.field? name := by
  rw [field?, field?, bare_fields]

theorem same_def (definition other : ClassDefinition) :
    definition.same other =
      (decide (definition.key = other.key) && decide (definition.fields = other.fields) &&
        sameAll definition.nested other.nested) := by
  cases definition; rw [same]

/-- Two definitions are the same exactly if they agree once their labels are off. -/
theorem same_iff {definition other : ClassDefinition} :
    definition.same other = true ↔ definition.bare = other.bare := by
  induction definition using induction generalizing other with
  | step definition ih =>
    have all : ∀ items others : List ClassDefinition, (∀ item ∈ items, item ∈ definition.nested) →
        (sameAll items others = true ↔ items.map bare = others.map bare) := by
      intro items
      induction items with
      | nil => intro others _; cases others <;> simp [sameAll]
      | cons item items rest =>
        intro others members
        cases others with
        | nil => simp [sameAll]
        | cons other others =>
          rw [sameAll, Bool.and_eq_true, ih item (members item (by simp)),
            rest others fun x hx => members x (by simp [hx])]
          simp
    rw [same_def, Bool.and_eq_true, Bool.and_eq_true, decide_eq_true_eq, decide_eq_true_eq,
      all _ _ fun _ member => member]
    obtain ⟨key, fields, nested, label⟩ := definition
    obtain ⟨otherKey, otherFields, otherNested, otherLabel⟩ := other
    simp [bare, bareAll_eq_map, and_assoc]

theorem same_refl (definition : ClassDefinition) : definition.same definition = true :=
  same_iff.mpr rfl

theorem same_symm {a b : ClassDefinition} (h : a.same b = true) : b.same a = true :=
  same_iff.mpr (same_iff.mp h).symm

theorem same_trans {a b c : ClassDefinition} (first : a.same b = true) (second : b.same c = true) :
    a.same c = true :=
  same_iff.mpr ((same_iff.mp first).trans (same_iff.mp second))

theorem key_eq_of_same {a b : ClassDefinition} (h : a.same b = true) : a.key = b.key := by
  rw [← bare_key a, same_iff.mp h, bare_key]

theorem fields_eq_of_same {a b : ClassDefinition} (h : a.same b = true) : a.fields = b.fields := by
  rw [← bare_fields a, same_iff.mp h, bare_fields]

@[simp] theorem bare_bare (definition : ClassDefinition) :
    definition.bare.bare = definition.bare := by
  induction definition using induction with
  | step definition ih =>
    obtain ⟨key, fields, nested, label⟩ := definition
    simp only [bare, bareAll_eq_map, List.map_map]
    congr 1
    exact List.map_congr_left fun inner member => ih inner member

/-- A definition is the same with and without its labels. -/
theorem bare_same (definition : ClassDefinition) : definition.bare.same definition = true :=
  same_iff.mpr (bare_bare definition)

/-- Giving labels changes nothing that a definition says. -/
theorem bare_labelled (definition : ClassDefinition) (next : Nat) :
    (definition.labelled next).1.bare = definition.bare := by
  induction definition using induction generalizing next with
  | step definition ih =>
    have all : ∀ items : List ClassDefinition, (∀ item ∈ items, item ∈ definition.nested) →
        ∀ next, (labelledAll items next).1.map bare = items.map bare := by
      intro items
      induction items with
      | nil => intros; rfl
      | cons item items rest =>
        intro members next
        rw [labelledAll, List.map_cons, List.map_cons, ih item (members item (by simp)),
          rest (fun x hx => members x (by simp [hx]))]
    obtain ⟨key, fields, nested, label⟩ := definition
    have inner := all nested (fun _ member => member) next
    cases label <;> simp only [labelled, bare, bareAll_eq_map, inner]

theorem labelled_same (definition : ClassDefinition) (next : Nat) :
    (definition.labelled next).1.same definition = true :=
  same_iff.mpr (bare_labelled definition next)

theorem label_labelled (definition : ClassDefinition) (next : Nat) :
    (definition.labelled next).1.label.isSome = true := by
  obtain ⟨key, fields, nested, label⟩ := definition
  cases label <;> rfl

theorem depth_def (definition : ClassDefinition) :
    definition.depth = depthOfAll definition.nested := by
  cases definition; rw [depth]

theorem depth_lt_depthOfAll {definition : ClassDefinition} {definitions : List ClassDefinition}
    (member : definition ∈ definitions) : definition.depth < depthOfAll definitions := by
  induction definitions with
  | nil => cases member
  | cons first others ih =>
    rw [depthOfAll]
    rcases List.mem_cons.mp member with rfl | member
    · omega
    · have := ih member; omega

theorem depth_lt_of_mem_nested {definition nested : ClassDefinition}
    (member : nested ∈ definition.nested) : nested.depth < definition.depth := by
  rw [depth_def definition]
  exact depth_lt_depthOfAll member

theorem layout_def (definition : ClassDefinition) :
    definition.layout = do
      return Wire.classKey definition.key ++ (← Wire.entries definition.fields.length) ++
        (← Wire.fields definition.fields) ++ (← Wire.entries definition.nested.length) ++
        (← layoutOfAll definition.nested) := by
  cases definition; rw [layout]

/-- The layout does not depend on labels. -/
theorem layout_bare (definition : ClassDefinition) :
    definition.bare.layout = definition.layout := by
  induction definition using induction with
  | step definition ih =>
    have all : ∀ items : List ClassDefinition, (∀ item ∈ items, item ∈ definition.nested) →
        layoutOfAll (items.map bare) = layoutOfAll items := by
      intro items
      induction items with
      | nil => intros; rfl
      | cons item items rest =>
        intro members
        rw [List.map_cons, layoutOfAll, layoutOfAll, ih item (members item (by simp)),
          rest (fun x hx => members x (by simp [hx]))]
    rw [layout_def, layout_def definition, bare_key, bare_fields, bare_nested, List.length_map,
      all _ fun _ member => member]

theorem layout_eq_of_same {a b : ClassDefinition} (h : a.same b = true) : a.layout = b.layout := by
  rw [← layout_bare a, same_iff.mp h, layout_bare]

theorem depthOfAll_map {f : ClassDefinition → ClassDefinition} {items : List ClassDefinition}
    (same : ∀ item ∈ items, (f item).depth = item.depth) :
    depthOfAll (items.map f) = depthOfAll items := by
  induction items with
  | nil => rfl
  | cons item items ih =>
    rw [List.map_cons, depthOfAll, depthOfAll, same item (by simp),
      ih fun other member => same other (List.mem_cons_of_mem _ member)]

/-- The depth does not depend on labels. -/
theorem depth_bare (definition : ClassDefinition) : definition.bare.depth = definition.depth := by
  induction definition using induction with
  | step definition ih => rw [depth_def, depth_def definition, bare_nested, depthOfAll_map ih]

theorem depth_eq_of_same {a b : ClassDefinition} (h : a.same b = true) : a.depth = b.depth := by
  rw [← depth_bare a, same_iff.mp h, depth_bare]

theorem depthOfAll_le {definitions : List ClassDefinition} {levels : Nat}
    (shallow : ∀ definition ∈ definitions, definition.depth < levels) :
    depthOfAll definitions ≤ levels := by
  induction definitions with
  | nil => exact Nat.zero_le levels
  | cons first others ih =>
    have own := shallow first (by simp)
    have rest := ih fun other member => shallow other (List.mem_cons_of_mem _ member)
    rw [depthOfAll]
    omega

theorem count_def (definition : ClassDefinition) :
    definition.count = countAll definition.nested + 1 := by
  obtain ⟨key, fields, nested, label⟩ := definition
  rw [count]

theorem countAll_map {f : ClassDefinition → ClassDefinition} {items : List ClassDefinition}
    (same : ∀ item ∈ items, (f item).count = item.count) :
    countAll (items.map f) = countAll items := by
  induction items with
  | nil => rfl
  | cons item items ih =>
    rw [List.map_cons, countAll, countAll, same item (by simp),
      ih fun other member => same other (List.mem_cons_of_mem _ member)]

/-- The count does not depend on labels. -/
theorem count_bare (definition : ClassDefinition) : definition.bare.count = definition.count := by
  induction definition using induction with
  | step definition ih => rw [count_def, count_def definition, bare_nested, countAll_map ih]

theorem count_eq_of_same {a b : ClassDefinition} (h : a.same b = true) : a.count = b.count := by
  rw [← count_bare a, same_iff.mp h, count_bare]

end ObjectWire.ClassDefinition
