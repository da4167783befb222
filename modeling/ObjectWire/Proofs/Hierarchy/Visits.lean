import Mathlib.Data.List.Perm.Subperm
import Mathlib.Order.Lattice.Nat
import ObjectWire.Proofs.Hierarchy

/-!
# Visits that go on until nothing is queued

A visit takes the first type off the queue and queues what its links lead to and was not seen
before, until the queue is empty.  As every type is queued at most once, as many rounds as there are
types that links lead to, and types that are queued already, are enough for that.

In the end what was seen is closed under the links.  Where the visit starts from a single type, it
comes across the others in the order of their distance from that type.
-/

namespace ObjectWire.Hierarchy

variable {links : TypeKey → List TypeKey} {queue seen found result base : List TypeKey}
  {key parent source : TypeKey}

/-- The visit of what is queued ends with an empty queue, and what it lists then is the result. -/
inductive Visits (links : TypeKey → List TypeKey) :
    (queue seen found result : List TypeKey) → Prop
  | finish {seen found : List TypeKey} : Visits links [] seen found found
  | next {key : TypeKey} {queue seen found result : List TypeKey}
      (rest : Visits links (queue ++ unseen seen (links key)) (seen ++ unseen seen (links key))
        (found ++ unseen seen (links key)) result) : Visits links (key :: queue) seen found result

theorem mem_unseen {keys : List TypeKey} : key ∈ unseen seen keys ↔ key ∈ keys ∧ key ∉ seen := by
  refine ⟨fun member => ⟨mem_of_mem_unseen member, not_mem_of_mem_unseen member⟩, ?_⟩
  rintro ⟨member, new⟩
  induction keys generalizing seen with
  | nil => cases member
  | cons first others ih =>
    unfold unseen
    by_cases known : first ∈ seen
    · rw [if_pos known]
      rcases List.mem_cons.mp member with rfl | later
      · exact absurd known new
      · exact ih later new
    · rw [if_neg known]
      by_cases here : key = first
      · exact List.mem_cons.mpr (.inl here)
      · have later := (List.mem_cons.mp member).resolve_left here
        exact List.mem_cons_of_mem _ (ih later (by simp [here, new]))

theorem nodup_unseen (seen keys : List TypeKey) : (unseen seen keys).Nodup := by
  induction keys generalizing seen with
  | nil => exact List.nodup_nil
  | cons first others ih =>
    unfold unseen
    split
    case isTrue => exact ih seen
    case isFalse =>
      refine List.nodup_cons.mpr ⟨fun again => ?_, ih (first :: seen)⟩
      exact not_mem_of_mem_unseen again List.mem_cons_self

/-! A visit ends. -/

/-- Types that are seen for the first time are fewer to be seen. -/
theorem length_unseen_le (seen : List TypeKey) {types keys : List TypeKey}
    (among : ∀ t ∈ keys, t ∈ types) :
    (unseen seen keys).length +
        (types.filter fun t => t ∉ seen ++ unseen seen keys).length ≤
      (types.filter fun t => t ∉ seen).length := by
  have inside : unseen seen keys ⊆
      (types.filter fun t => t ∉ seen).filter fun t => t ∈ unseen seen keys := by
    intro t member
    obtain ⟨listed, new⟩ := mem_unseen.mp member
    simp [among t listed, new, member]
  have fewer := (List.subperm_of_subset (nodup_unseen seen keys) inside).length_le
  have rest : (types.filter fun t => t ∉ seen ++ unseen seen keys) =
      (types.filter fun t => t ∉ seen).filter fun t => !decide (t ∈ unseen seen keys) := by
    rw [List.filter_filter]
    exact List.filter_congr fun t _ => by simp [Bool.and_comm]
  have split := List.length_eq_length_filter_add (l := types.filter fun t => t ∉ seen)
    fun t => decide (t ∈ unseen seen keys)
  rw [rest]
  omega

/-- Rounds that are no fewer than the types queued and those to be seen let a visit end. -/
theorem visits_visit {types : List TypeKey} {rounds : Nat}
    (among : ∀ t, ∀ p ∈ links t, p ∈ types)
    (room : queue.length + (types.filter fun t => t ∉ seen).length ≤ rounds) :
    Visits links queue seen found (visit links rounds queue seen found) := by
  induction rounds generalizing queue seen found with
  | zero =>
    obtain rfl : queue = [] := List.length_eq_zero_iff.mp (by omega)
    exact .finish
  | succ rounds ih =>
    cases queue with
    | nil => exact .finish
    | cons key queue =>
      refine .next (ih ?_)
      have fewer := length_unseen_le seen (among key)
      rw [List.length_append]
      rw [List.length_cons] at room
      omega

/-! What a visit comes across. -/

/-- In the middle of a visit: nothing was seen twice, and what was seen is queued, or its links lead
    to nothing that was not seen. -/
structure Underway (links : TypeKey → List TypeKey) (base queue seen found : List TypeKey) :
    Prop where
  parts : seen = base ++ found
  distinct : seen.Nodup
  queued : ∀ t ∈ queue, t ∈ seen
  done : ∀ t ∈ seen, t ∈ queue ∨ ∀ p ∈ links t, p ∈ seen

theorem Underway.next (underway : Underway links base (key :: queue) seen found) :
    Underway links base (queue ++ unseen seen (links key)) (seen ++ unseen seen (links key))
      (found ++ unseen seen (links key)) := by
  obtain ⟨parts, distinct, queued, done⟩ := underway
  refine ⟨by rw [parts, List.append_assoc], ?_, fun t member => ?_, fun t member => ?_⟩
  · refine List.nodup_append.mpr ⟨distinct, nodup_unseen seen (links key), ?_⟩
    rintro known member new first rfl
    exact (mem_unseen.mp first).2 member
  · rcases List.mem_append.mp member with old | new
    · exact List.mem_append_left _ (queued t (List.mem_cons_of_mem _ old))
    · exact List.mem_append_right _ new
  · rcases List.mem_append.mp member with old | new
    · rcases done t old with waiting | closed
      · rcases List.mem_cons.mp waiting with rfl | waiting
        · refine .inr fun p linked => ?_
          by_cases known : p ∈ seen
          · exact List.mem_append_left _ known
          · exact List.mem_append_right _ (mem_unseen.mpr ⟨linked, known⟩)
        · exact .inl (List.mem_append_left _ waiting)
      · exact .inr fun p linked => List.mem_append_left _ (closed p linked)
    · exact .inl (List.mem_append_right _ new)

/-- In the end nothing is listed twice, and the links lead to nothing else. -/
theorem Visits.closed (visits : Visits links queue seen found result)
    (underway : Underway links base queue seen found) :
    (base ++ result).Nodup ∧ ∀ t ∈ base ++ result, ∀ p ∈ links t, p ∈ base ++ result := by
  induction visits with
  | finish =>
    obtain ⟨rfl, distinct, -, done⟩ := underway
    exact ⟨distinct, fun t member => (done t member).resolve_left List.not_mem_nil⟩
  | next _ ih => exact ih underway.next

/-- What holds of all that is queued, and of whatever links lead to from there, holds of all that is
    listed. -/
theorem Visits.holds {holds : TypeKey → Prop} (visits : Visits links queue seen found result)
    (queued : ∀ t ∈ queue, holds t) (listed : ∀ t ∈ found, holds t)
    (linked : ∀ t, holds t → ∀ p ∈ links t, holds p) : ∀ t ∈ result, holds t := by
  induction visits with
  | finish => exact listed
  | @next key queue seen found result _ ih =>
    have new : ∀ t ∈ unseen seen (links key), holds t := fun t member =>
      linked key (queued key List.mem_cons_self) t (mem_unseen.mp member).1
    refine ih (fun t member => ?_) fun t member => ?_
    · exact (List.mem_append.mp member).elim
        (fun old => queued t (List.mem_cons_of_mem _ old)) (new t)
    · exact (List.mem_append.mp member).elim (listed t) (new t)

/-! The order of a visit. -/

/-- So many links lead from the first type to the second. -/
inductive Leads (links : TypeKey → List TypeKey) (source : TypeKey) : Nat → TypeKey → Prop
  | here : Leads links source 0 source
  | further {n : Nat} {t p : TypeKey} (leads : Leads links source n t) (linked : p ∈ links t) :
      Leads links source (n + 1) p

/-- The least number of links that lead from the first type to the second. -/
noncomputable def distance (links : TypeKey → List TypeKey) (source t : TypeKey) : Nat :=
  sInf {n | Leads links source n t}

theorem distance_le {n : Nat} (leads : Leads links source n key) :
    distance links source key ≤ n :=
  Nat.sInf_le leads

theorem leads_distance {n : Nat} (leads : Leads links source n key) :
    Leads links source (distance links source key) key := by
  have some : {n | Leads links source n key}.Nonempty := ⟨n, leads⟩
  exact Nat.sInf_mem some

/-- In the middle of a visit that started from one type: all was seen on the way from there; the
    queue is in the order of distance, and nothing that was seen is farther away than whatever is
    queued is and one link more. -/
structure Spreading (links : TypeKey → List TypeKey) (source : TypeKey)
    (queue seen found : List TypeKey) : Prop where
  start : source ∈ seen
  reached : ∀ t ∈ seen, ∃ n, Leads links source n t
  close : ∀ t ∈ seen, ∀ waiting ∈ queue,
    distance links source t ≤ distance links source waiting + 1
  ascending : queue.Pairwise fun t u => distance links source t ≤ distance links source u
  sorted : found.Pairwise fun t u => distance links source t ≤ distance links source u

section Spreading

variable (underway : Underway links base (key :: queue) seen found)
  (spreading : Spreading links source (key :: queue) seen found)
include underway spreading

/-- What was not seen yet is farther away than the first type of the queue. -/
theorem Spreading.farther {n : Nat} (new : parent ∉ seen) (leads : Leads links source n parent) :
    distance links source key < n := by
  induction leads with
  | here => exact absurd spreading.start new
  | @further n t p leads linked ih =>
    by_cases known : t ∈ seen
    · -- the path leaves what was seen at a type that is still queued
      have waiting := (underway.done t known).resolve_right fun closed => new (closed p linked)
      have first : distance links source key ≤ distance links source t := by
        rcases List.mem_cons.mp waiting with rfl | later
        · exact Nat.le_refl _
        · exact List.rel_of_pairwise_cons spreading.ascending later
      have := distance_le leads
      omega
    · exact Nat.lt_succ_of_lt (ih known)

theorem Spreading.distance_new (new : parent ∈ unseen seen (links key)) :
    (∃ n, Leads links source n parent) ∧
      distance links source parent = distance links source key + 1 := by
  obtain ⟨linked, unknown⟩ := mem_unseen.mp new
  obtain ⟨n, leads⟩ := spreading.reached key (underway.queued key List.mem_cons_self)
  have onwards := Leads.further (leads_distance leads) linked
  refine ⟨⟨_, onwards⟩, Nat.le_antisymm (distance_le onwards) ?_⟩
  exact spreading.farther underway unknown (leads_distance onwards)

theorem Spreading.next :
    Spreading links source (queue ++ unseen seen (links key)) (seen ++ unseen seen (links key))
      (found ++ unseen seen (links key)) := by
  have new := fun p (member : p ∈ unseen seen (links key)) =>
    spreading.distance_new underway member
  have near : ∀ t ∈ seen, distance links source t ≤ distance links source key + 1 :=
    fun t member => spreading.close t member key List.mem_cons_self
  obtain ⟨first, ascending⟩ := List.pairwise_cons.mp spreading.ascending
  have level : (unseen seen (links key)).Pairwise fun t u =>
      distance links source t ≤ distance links source u :=
    List.pairwise_of_forall_mem_list fun t here u there => by
      rw [(new t here).2, (new u there).2]
  -- whatever was seen may stand in front of what is new
  have ahead : ∀ front : List TypeKey, (∀ t ∈ front, t ∈ seen) →
      (front.Pairwise fun t u => distance links source t ≤ distance links source u) →
      (front ++ unseen seen (links key)).Pairwise fun t u =>
        distance links source t ≤ distance links source u := by
    intro front known sorted
    refine List.pairwise_append.mpr ⟨sorted, level, fun t member u added => ?_⟩
    rw [(new u added).2]
    exact near t (known t member)
  have listed : ∀ t ∈ found, t ∈ seen := fun t member => by
    rw [underway.parts]
    exact List.mem_append_right _ member
  refine ⟨List.mem_append_left _ spreading.start, fun t member => ?_,
    fun t member waiting among => ?_,
    ahead queue (fun t member => underway.queued t (List.mem_cons_of_mem _ member)) ascending,
    ahead found listed spreading.sorted⟩
  · exact (List.mem_append.mp member).elim (spreading.reached t) fun added => (new t added).1
  · rcases List.mem_append.mp member with old | added <;>
      rcases List.mem_append.mp among with waited | queued
    · exact spreading.close t old waiting (List.mem_cons_of_mem _ waited)
    · rw [(new waiting queued).2]
      exact Nat.le_succ_of_le (near t old)
    · rw [(new t added).2]
      exact Nat.succ_le_succ (first waiting waited)
    · rw [(new t added).2, (new waiting queued).2]
      exact Nat.le_succ _

end Spreading

/-- A visit that starts from one type comes across the others in the order of distance. -/
theorem Visits.sorted (visits : Visits links queue seen found result)
    (underway : Underway links base queue seen found)
    (spreading : Spreading links source queue seen found) :
    result.Pairwise fun t u => distance links source t ≤ distance links source u := by
  induction visits with
  | finish => exact spreading.sorted
  | next _ ih => exact ih underway.next (spreading.next underway)

end ObjectWire.Hierarchy
