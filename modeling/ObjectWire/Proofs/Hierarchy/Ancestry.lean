import Mathlib.Logic.Relation
import ObjectWire.Proofs.Hierarchy.Visits

/-!
# Everything above a type

The types above a type are those that declared parents lead to, in one step or more and by parents
of either sort, whatever circles the declarations run in; only the type itself is not among them.
Those that supertypes alone lead to come first, in the order of their distance.  Hence it is a
reflexive and transitive relation that one type is another one, and declaring more keeps it.
-/

namespace ObjectWire

theorem Parents.mem_addNew_iff {known keys : List TypeKey} {key : TypeKey} :
    key ∈ addNew known keys ↔ key ∈ known ∨ key ∈ keys := by
  refine ⟨mem_addNew, fun member => ?_⟩
  induction keys generalizing known with
  | nil => exact member.resolve_right List.not_mem_nil
  | cons first others ih =>
    refine ih ?_
    by_cases present : first ∈ known
    · rw [if_pos present]
      rcases member with old | among
      · exact .inl old
      · rcases List.mem_cons.mp among with rfl | later
        · exact .inl present
        · exact .inr later
    · rw [if_neg present]
      rcases member with old | among
      · exact .inl (List.mem_append_left _ old)
      · rcases List.mem_cons.mp among with rfl | later
        · exact .inl (List.mem_append_right _ List.mem_cons_self)
        · exact .inr later

namespace Hierarchy

variable {hierarchy : Hierarchy} {key t : TypeKey} {more : Parents}

/-- The second type is a declared supertype of the first. -/
def Extends (hierarchy : Hierarchy) (key parent : TypeKey) : Prop :=
  parent ∈ (hierarchy.parents key).supertypes

/-- The second type is a declared parent of the first, of either sort. -/
def Declares (hierarchy : Hierarchy) (key parent : TypeKey) : Prop :=
  parent ∈ (hierarchy.parents key).all

/-- The least number of supertypes that lead from the first type to the second. -/
noncomputable def climb (hierarchy : Hierarchy) (key t : TypeKey) : Nat :=
  distance (fun t => (hierarchy.parents t).supertypes) key t

/-- Two visits, each of which goes on until nothing is queued, list these supertypes of a type and
    then these other types: the one follows supertypes from the type itself, the other follows all
    parents from the interfaces that the type and its supertypes declare. -/
def Lists (hierarchy : Hierarchy) (key : TypeKey) (classes others : List TypeKey) : Prop :=
  Visits (fun t => (hierarchy.parents t).supertypes) [key] [key] [] classes ∧
  let direct := unseen (key :: classes)
    ((key :: classes).flatMap fun t => (hierarchy.parents t).interfaces)
  Visits (fun t => (hierarchy.parents t).all) direct (key :: classes ++ direct) direct others

/-! Both visits end. -/

/-- Every type that is declared as a parent. -/
def parentTypes (hierarchy : Hierarchy) : List TypeKey :=
  hierarchy.types.flatMap fun (_, parents) => parents.all

theorem mem_parentTypes (member : t ∈ (hierarchy.parents key).all) : t ∈ hierarchy.parentTypes := by
  obtain ⟨entry, among, declared⟩ := mentions_of_mem_parents member
  exact List.mem_flatMap.mpr ⟨entry, among, declared⟩

theorem length_parentTypes_lt_bound (hierarchy : Hierarchy) :
    hierarchy.parentTypes.length < hierarchy.bound := by
  obtain ⟨types⟩ := hierarchy
  unfold parentTypes bound
  induction types with
  | nil => exact Nat.zero_lt_one
  | cons entry types ih =>
    simp only [List.flatMap_cons, List.length_append, List.map_cons, List.foldr_cons] at ih ⊢
    omega

theorem lists_ancestors (hierarchy : Hierarchy) (key : TypeKey) :
    ∃ others, hierarchy.ancestors key = hierarchy.supertypesAbove key ++ others ∧
      hierarchy.Lists key (hierarchy.supertypesAbove key) others := by
  have bound := hierarchy.length_parentTypes_lt_bound
  have some_unseen : ∀ seen : List TypeKey, (hierarchy.parentTypes.filter fun t => t ∉ seen).length ≤
      hierarchy.parentTypes.length := fun seen => List.length_filter_le _ _
  have supertypes : ∀ t, ∀ p ∈ (hierarchy.parents t).supertypes, p ∈ hierarchy.parentTypes :=
    fun t p declared => mem_parentTypes (List.mem_append_right _ declared)
  have interfaces : ∀ t ∈ (key :: hierarchy.supertypesAbove key).flatMap fun t =>
      (hierarchy.parents t).interfaces, t ∈ hierarchy.parentTypes := by
    intro t member
    obtain ⟨owner, -, declared⟩ := List.mem_flatMap.mp member
    exact mem_parentTypes (List.mem_append_left _ declared)
  refine ⟨_, rfl, visits_visit supertypes ?_, visits_visit (fun _ _ => mem_parentTypes) ?_⟩
  · have := some_unseen [key]
    rw [List.length_singleton]
    omega
  · have := length_unseen_le (key :: hierarchy.supertypesAbove key) interfaces
    have := some_unseen (key :: hierarchy.supertypesAbove key)
    omega

/-! What they list. -/

/-- What is closed under a relation has all that the relation leads to. -/
theorem mem_of_transGen {related : TypeKey → TypeKey → Prop} {types : List TypeKey}
    (closed : ∀ t ∈ types, ∀ p, related t p → p ∈ types) (start : key ∈ types)
    (leads : Relation.TransGen related key t) : t ∈ types := by
  induction leads with
  | single first => exact closed key start _ first
  | tail _ last ih => exact closed _ ih _ last

theorem declares_of_extends (leads : Relation.TransGen hierarchy.Extends key t) :
    Relation.TransGen hierarchy.Declares key t :=
  Relation.TransGen.mono (fun _ _ supertype => List.mem_append_right _ supertype) _ _ leads

section Listed

variable {classes others : List TypeKey} (lists : hierarchy.Lists key classes others)
include lists

theorem Lists.supertypes : (key :: classes).Nodup ∧
    (∀ t ∈ key :: classes, ∀ p, hierarchy.Extends t p → p ∈ key :: classes) ∧
    classes.Pairwise fun t u => hierarchy.climb key t ≤ hierarchy.climb key u := by
  have start : Underway (fun t => (hierarchy.parents t).supertypes) [key] [key] [key] [] :=
    ⟨rfl, List.nodup_singleton key, fun _ => id, fun _ => .inl⟩
  have spreading : Spreading (fun t => (hierarchy.parents t).supertypes) key [key] [key] [] := by
    refine ⟨List.mem_singleton_self key, fun t member => ?_, fun t member waiting among => ?_,
      List.pairwise_singleton _ key, .nil⟩
    · rw [List.mem_singleton.mp member]
      exact ⟨0, .here⟩
    · rw [List.mem_singleton.mp member, List.mem_singleton.mp among]
      exact Nat.le_succ _
  obtain ⟨distinct, closed⟩ := lists.1.closed start
  exact ⟨distinct, closed, lists.1.sorted start spreading⟩

theorem Lists.all : (key :: classes ++ others).Nodup ∧
    ∀ t ∈ key :: classes ++ others, ∀ p, hierarchy.Declares t p → p ∈ key :: classes ++ others := by
  obtain ⟨distinct, closed, -⟩ := lists.supertypes
  apply lists.2.closed
  refine ⟨rfl, ?_, fun t member => List.mem_append_right _ member, fun t member => ?_⟩
  · refine List.nodup_append.mpr ⟨distinct, nodup_unseen _ _, ?_⟩
    rintro t member u direct rfl
    exact (mem_unseen.mp direct).2 member
  · refine (List.mem_append.mp member).symm.imp id fun known p declared => ?_
    rcases List.mem_append.mp declared with interface | supertype
    · by_cases seen : p ∈ key :: classes
      · exact List.mem_append_left _ seen
      · refine List.mem_append_right _ (mem_unseen.mpr ⟨?_, seen⟩)
        exact List.mem_flatMap.mpr ⟨t, known, interface⟩
    · exact List.mem_append_left _ (closed t known p supertype)

/-- The supertypes are the other types that supertypes alone lead to. -/
theorem Lists.mem_supertypes_iff :
    t ∈ classes ↔ t ≠ key ∧ Relation.TransGen hierarchy.Extends key t := by
  obtain ⟨distinct, closed, -⟩ := lists.supertypes
  constructor
  · intro member
    have reached : ∀ t ∈ classes, Relation.ReflTransGen hierarchy.Extends key t := by
      refine lists.1.holds (fun t queued => ?_) nofun fun t reached p supertype =>
        reached.tail supertype
      rw [List.mem_singleton.mp queued]
    have other : t ≠ key := fun same => (List.nodup_cons.mp distinct).1 (same ▸ member)
    exact ⟨other, (Relation.reflTransGen_iff_eq_or_transGen.mp (reached t member)).resolve_left
      other⟩
  · rintro ⟨other, leads⟩
    exact (List.mem_cons.mp (mem_of_transGen closed List.mem_cons_self leads)).resolve_left other

/-- All together they are the other types that parents of either sort lead to. -/
theorem Lists.mem_iff :
    t ∈ classes ++ others ↔ t ≠ key ∧ Relation.TransGen hierarchy.Declares key t := by
  obtain ⟨distinct, closed⟩ := lists.all
  constructor
  · intro member
    have above : ∀ t ∈ classes, Relation.TransGen hierarchy.Declares key t :=
      fun t among => declares_of_extends (lists.mem_supertypes_iff.mp among).2
    have direct : ∀ t ∈ unseen (key :: classes)
        ((key :: classes).flatMap fun t => (hierarchy.parents t).interfaces),
        Relation.TransGen hierarchy.Declares key t := by
      intro t queued
      obtain ⟨owner, known, interface⟩ := List.mem_flatMap.mp (mem_unseen.mp queued).1
      have declared : hierarchy.Declares owner t := List.mem_append_left _ interface
      rcases List.mem_cons.mp known with rfl | known
      · exact .single declared
      · exact (above owner known).tail declared
    have beside : ∀ t ∈ others, Relation.TransGen hierarchy.Declares key t :=
      lists.2.holds direct direct fun t reached p declared => reached.tail declared
    refine ⟨?_, (List.mem_append.mp member).elim (above t) (beside t)⟩
    rintro rfl
    exact (List.nodup_cons.mp distinct).1 member
  · rintro ⟨other, leads⟩
    exact (List.mem_cons.mp (mem_of_transGen closed List.mem_cons_self leads)).resolve_left other

end Listed

theorem mem_ancestors_iff :
    t ∈ hierarchy.ancestors key ↔ t ≠ key ∧ Relation.TransGen hierarchy.Declares key t := by
  obtain ⟨others, split, lists⟩ := hierarchy.lists_ancestors key
  rw [split]
  exact lists.mem_iff

theorem isA_iff_reflTransGen :
    hierarchy.isA key t = true ↔ Relation.ReflTransGen hierarchy.Declares key t := by
  rw [isA_iff, mem_ancestors_iff, Relation.reflTransGen_iff_eq_or_transGen]
  by_cases same : t = key
  · simp [same]
  · simp [same, Ne.symm same]

/-! Declaring more. -/

theorem lookup_map_merge (types : List (TypeKey × Parents)) (key t : TypeKey) (more : Parents) :
    (types.map fun (known, parents) =>
      if known = key then (known, parents.merge more) else (known, parents)).lookup t =
      (types.lookup t).map fun parents => if t = key then parents.merge more else parents := by
  induction types with
  | nil => rfl
  | cons entry types ih =>
    obtain ⟨known, own⟩ := entry
    have kept : ((if known = key then (known, own.merge more) else (known, own)) :
        TypeKey × Parents) = (known, if known = key then own.merge more else own) := by
      split <;> rfl
    rw [List.map_cons]
    dsimp only
    rw [kept, List.lookup_cons, List.lookup_cons]
    by_cases here : t = known
    · subst here
      simp
    · have other : (t == known) = false := by simpa using here
      rw [other]
      exact ih

theorem parents_declare (hierarchy : Hierarchy) (key t : TypeKey) (more : Parents) :
    (hierarchy.declare key more).parents t =
      if t = key then (hierarchy.parents key).merge more else hierarchy.parents t := by
  unfold declare
  split
  case isTrue declared =>
    simp only [parents, parents?, lookup_map_merge]
    by_cases same : t = key
    · subst same
      obtain ⟨own, found⟩ := Option.isSome_iff_exists.mp declared
      simp only [parents?] at found
      simp [found]
    · simp [same]
  case isFalse undeclared =>
    have absent : hierarchy.types.lookup key = none := by
      rw [isDeclared, parents?, Bool.not_eq_true, Option.isSome_eq_false_iff] at undeclared
      exact Option.isNone_iff_eq_none.mp undeclared
    simp only [parents, parents?, List.lookup_append]
    by_cases same : t = key
    · simp [same, absent]
    · have other : (t == key) = false := by simpa using same
      simp [List.lookup_cons, same, other]

theorem declares_declare {parent : TypeKey} (h : hierarchy.Declares t parent) (key : TypeKey)
    (more : Parents) : (hierarchy.declare key more).Declares t parent := by
  unfold Declares at h ⊢
  rw [parents_declare]
  split
  case isTrue same =>
    subst same
    simp only [Parents.all, Parents.merge, List.mem_append, Parents.mem_addNew_iff] at h ⊢
    exact h.imp .inl .inl
  case isFalse => exact h

/-- What a type is it still is after more was declared. -/
theorem isA_declare (h : hierarchy.isA key t = true) (declared : TypeKey) (more : Parents) :
    (hierarchy.declare declared more).isA key t = true := by
  rw [isA_iff_reflTransGen] at h ⊢
  exact Relation.ReflTransGen.mono (fun _ _ parent => declares_declare parent declared more) _ _ h

/-- A hierarchy after further declarations, one after the other. -/
def declareAll (declarations : List (TypeKey × Parents)) (hierarchy : Hierarchy) : Hierarchy :=
  declarations.foldl (fun known (owner, more) => known.declare owner more) hierarchy

theorem isA_declareAll (h : hierarchy.isA key t = true)
    (declarations : List (TypeKey × Parents)) :
    (hierarchy.declareAll declarations).isA key t = true := by
  induction declarations generalizing hierarchy with
  | nil => exact h
  | cons declaration declarations ih => exact ih (isA_declare h declaration.1 declaration.2)

/-- Whatever is declared, in circles or not, the search for the types above a type comes to an end.
    It lists once each type but that one which one or more declared parents lead to, and no other.
    Those that supertypes alone lead to stand in front of all others, in the order of the least
    number of supertypes that lead to them.  So every type is itself, what it is is what whatever it
    is is, and no further declarations take that away. -/
theorem ancestors_enumerate (hierarchy : Hierarchy) (key : TypeKey) :
    (∃ classes others, hierarchy.ancestors key = classes ++ others ∧
      hierarchy.Lists key classes others) ∧
    (hierarchy.ancestors key).Nodup ∧
    (∀ t, t ∈ hierarchy.ancestors key ↔ t ≠ key ∧ Relation.TransGen hierarchy.Declares key t) ∧
    (hierarchy.ancestors key).Pairwise (fun earlier later =>
      Relation.TransGen hierarchy.Extends key later →
        Relation.TransGen hierarchy.Extends key earlier ∧
          hierarchy.climb key earlier ≤ hierarchy.climb key later) ∧
    hierarchy.isA key key = true ∧
    (∀ t, hierarchy.isA key t = true →
      (∀ u, hierarchy.isA t u = true → hierarchy.isA key u = true) ∧
      ∀ declarations, (hierarchy.declareAll declarations).isA key t = true) := by
  obtain ⟨others, split, lists⟩ := hierarchy.lists_ancestors key
  have distinct : (hierarchy.ancestors key).Nodup := by
    rw [split]
    exact (List.nodup_cons.mp lists.all.1).2
  refine ⟨⟨_, others, split, lists⟩, distinct, fun t => mem_ancestors_iff, ?_, ?_, fun t above =>
    ⟨fun u further => ?_, fun declarations => ?_⟩⟩
  · have beside : ∀ t ∈ others, ¬ Relation.TransGen hierarchy.Extends key t := by
      intro t member leads
      have other := (lists.mem_iff.mp (List.mem_append_right _ member)).1
      rw [split] at distinct
      exact (List.nodup_append.mp distinct).2.2 t (lists.mem_supertypes_iff.mpr ⟨other, leads⟩) t
        member rfl
    rw [split]
    refine List.pairwise_append.mpr ⟨?_, ?_, fun t _ u member leads => (beside u member leads).elim⟩
    · refine lists.supertypes.2.2.imp_of_mem fun {t u} member _ nearer _ => ⟨?_, nearer⟩
      exact (lists.mem_supertypes_iff.mp member).2
    · exact List.pairwise_of_forall_mem_list fun t _ u member leads => (beside u member leads).elim
  · exact isA_iff_reflTransGen.mpr .refl
  · rw [isA_iff_reflTransGen] at above further ⊢
    exact above.trans further
  · exact isA_declareAll above declarations

/-- Two types that extend each other, and an interface below whose supertype the circle closes. -/
theorem ancestors_enumerate_of_circle :
    let hierarchy := Hierarchy.empty.declareAll
      [(⟨"a"⟩, ⟨[⟨"b"⟩], [⟨"i"⟩]⟩), (⟨"b"⟩, ⟨[⟨"a"⟩, ⟨"c"⟩], []⟩), (⟨"i"⟩, ⟨[⟨"d"⟩], []⟩),
        (⟨"d"⟩, ⟨[⟨"c"⟩], [⟨"a"⟩]⟩)]
    hierarchy.ancestors ⟨"a"⟩ = [⟨"b"⟩, ⟨"c"⟩, ⟨"i"⟩, ⟨"d"⟩] ∧
      hierarchy.climb ⟨"a"⟩ ⟨"b"⟩ ≤ hierarchy.climb ⟨"a"⟩ ⟨"c"⟩ ∧
      hierarchy.isA ⟨"a"⟩ ⟨"i"⟩ = true ∧ hierarchy.isA ⟨"i"⟩ ⟨"c"⟩ = true ∧
      hierarchy.isA ⟨"a"⟩ ⟨"c"⟩ = true ∧
      (hierarchy.declareAll [(⟨"a"⟩, ⟨[⟨"i"⟩], []⟩)]).isA ⟨"a"⟩ ⟨"i"⟩ = true := by
  intro hierarchy
  have listed : hierarchy.ancestors ⟨"a"⟩ = [⟨"b"⟩, ⟨"c"⟩, ⟨"i"⟩, ⟨"d"⟩] := by decide +kernel
  have first : hierarchy.isA ⟨"a"⟩ ⟨"i"⟩ = true := by decide +kernel
  have second : hierarchy.isA ⟨"i"⟩ ⟨"c"⟩ = true := by decide +kernel
  have climbs : Relation.TransGen hierarchy.Extends ⟨"a"⟩ ⟨"c"⟩ :=
    .tail (.single (by decide +kernel : (⟨"b"⟩ : TypeKey) ∈ (hierarchy.parents ⟨"a"⟩).supertypes))
      (by decide +kernel : (⟨"c"⟩ : TypeKey) ∈ (hierarchy.parents ⟨"b"⟩).supertypes)
  obtain ⟨-, -, -, sorted, -, isA⟩ := ancestors_enumerate hierarchy ⟨"a"⟩
  rw [listed] at sorted
  have nearer := (List.rel_of_pairwise_cons sorted (by simp) climbs).2
  obtain ⟨onwards, later⟩ := isA ⟨"i"⟩ first
  exact ⟨listed, nearer, first, second, onwards _ second, later _⟩

end Hierarchy

end ObjectWire
