import Mathlib.Algebra.Order.BigOperators.Group.List
import Mathlib.Algebra.Order.Ring.Nat
import Mathlib.Data.List.Perm.Basic
import ObjectWire.Proofs.Keyed
import ObjectWire.Zlib.CodeLengths

/-!
# Every symbol that occurs has a word

The lengths that are found for the words of a code are no longer than the limit, and a symbol that
occurs has a length above zero, unless there are more symbols than words of the limit's length.
Joining trees keeps their leaves, and cutting words to the limit and making room for them takes no
word away, since as long as there is too little room there are words to be lengthened.
-/

namespace ObjectWire.Zlib.CodeLengths

namespace Tree

variable {leaves joined : List Tree}

/-- The lightest tree is one of the trees, and the others are left. -/
theorem exists_lightest (nonempty : leaves ++ joined ≠ []) :
    ∃ tree others more, lightest? leaves joined = some (tree, others, more) ∧
      (leaves ++ joined).Perm (tree :: (others ++ more)) ∧ more ⊆ joined := by
  cases leaves with
  | nil =>
    cases joined with
    | nil => exact absurd rfl nonempty
    | cons tree joined => exact ⟨tree, [], joined, rfl, .refl _, List.subset_cons_self _ _⟩
  | cons leaf leaves =>
    cases joined with
    | nil => exact ⟨leaf, leaves, [], rfl, .refl _, List.Subset.refl _⟩
    | cons tree joined =>
      by_cases lighter : tree.weight < leaf.weight
      · exact ⟨tree, leaf :: leaves, joined, if_pos lighter, List.perm_middle,
          List.subset_cons_self _ _⟩
      · exact ⟨leaf, leaves, tree :: joined, if_neg lighter, .refl _, List.Subset.refl _⟩

/-- Of two trees or more the two lightest are taken one after the other. -/
theorem exists_two_lightest (several : 2 ≤ leaves.length + joined.length) :
    ∃ first others more second rest last, lightest? leaves joined = some (first, others, more) ∧
      lightest? others more = some (second, rest, last) ∧
      (leaves ++ joined).Perm (first :: second :: (rest ++ last)) ∧ last ⊆ joined := by
  have trees : leaves ++ joined ≠ [] := by
    rw [← List.length_pos_iff, List.length_append]
    omega
  obtain ⟨first, others, more, found, perm, within⟩ := exists_lightest trees
  have size := perm.length_eq
  rw [List.length_append, List.length_cons, List.length_append] at size
  have further : others ++ more ≠ [] := by
    rw [← List.length_pos_iff, List.length_append]
    omega
  obtain ⟨second, rest, last, next, perm', within'⟩ := exists_lightest further
  exact ⟨first, others, more, second, rest, last, found, next, perm.trans (perm'.cons first),
    fun _ member => within (within' member)⟩

/-- The number of leaves of trees. -/
def leafCount (trees : List Tree) : Nat := (trees.map fun tree => tree.depths.length).sum

theorem leafCount_join (first second : Tree) (rest last : List Tree) :
    leafCount (rest ++ (last ++ [first.join second])) =
      leafCount (first :: second :: (rest ++ last)) := by
  rw [← List.append_assoc, leafCount, List.map_append, List.sum_append, join]
  simp only [List.map_cons, List.map_nil, List.sum_cons, List.sum_nil, List.length_map,
    List.length_append, leafCount]
  omega

/-- As long as trees are left to be joined, no leaf is lost, and in the end none lies at the root. -/
theorem depthsAfter_spec {joins : Nat} (left : leaves.length + joined.length = joins + 1)
    (begun : 0 < joins ∨ joined ≠ [])
    (deep : ∀ tree ∈ joined, ∀ depth ∈ tree.depths, 0 < depth) :
    (depthsAfter joins leaves joined).length = leafCount (leaves ++ joined) ∧
      ∀ depth ∈ depthsAfter joins leaves joined, 0 < depth := by
  induction joins generalizing leaves joined with
  | zero =>
    have one : joined ≠ [] := begun.resolve_left (Nat.lt_irrefl 0)
    have several := List.length_pos_iff.mpr one
    obtain rfl : leaves = [] := List.length_eq_zero_iff.mp (by omega)
    refine ⟨List.length_flatMap, fun depth member => ?_⟩
    obtain ⟨tree, among, member⟩ := List.mem_flatMap.mp member
    exact deep tree among depth member
  | succ joins ih =>
    obtain ⟨first, others, more, second, rest, last, found, next, perm, within⟩ :=
      @exists_two_lightest leaves joined (by omega)
    have size := perm.length_eq
    have ahead : rest.length + (last ++ [first.join second]).length = joins + 1 := by
      simp only [List.length_append, List.length_cons, List.length_nil] at size ⊢
      omega
    have deeper : ∀ tree ∈ last ++ [first.join second], ∀ depth ∈ tree.depths, 0 < depth := by
      intro tree member
      rcases List.mem_append.mp member with before | new
      · exact deep tree (within before)
      · rw [List.mem_singleton.mp new]
        intro depth member
        obtain ⟨_, -, rfl⟩ := List.mem_map.mp member
        exact Nat.succ_pos _
    obtain ⟨length, positive⟩ := ih ahead (.inr (by simp)) deeper
    have same : depthsAfter (joins + 1) leaves joined =
        depthsAfter joins rest (last ++ [first.join second]) := by
      rw [depthsAfter, found]
      simp only [next]
    rw [same]
    have kept : leafCount (first :: second :: (rest ++ last)) = leafCount (leaves ++ joined) := by
      have both := perm.symm.map fun tree => tree.depths.length
      exact both.sum_eq
    exact ⟨length.trans ((leafCount_join first second rest last).trans kept), positive⟩

end Tree

theorem leafCount_leaves (weights : List Nat) :
    Tree.leafCount (weights.map .leaf) = weights.length := by
  rw [Tree.leafCount, List.map_map]
  exact (congrArg List.sum List.map_const').trans (by simp)

/-- Every symbol has a depth, and none lies at the root. -/
theorem depths_spec (weights : List Nat) :
    (depths weights).length = weights.length ∧ ∀ depth ∈ depths weights, 0 < depth := by
  rcases weights with - | ⟨first, - | ⟨second, others⟩⟩
  · exact ⟨rfl, nofun⟩
  · exact ⟨rfl, fun depth member => by rw [List.mem_singleton.mp member]; exact Nat.one_pos⟩
  · have left : ((first :: second :: others).map Tree.leaf).length + ([] : List Tree).length =
        (first :: second :: others).length - 1 + 1 := by
      simp only [List.length_map, List.length_cons, List.length_nil]
      omega
    obtain ⟨length, positive⟩ := Tree.depthsAfter_spec left
      (.inl (by simp only [List.length_cons]; omega)) nofun
    refine ⟨?_, positive⟩
    rw [List.append_nil, leafCount_leaves] at length
    exact length

/-- How many of the longest words the words take the room of; their numbers come by length, the
    longest first. -/
def room : List Nat → Nat
  | [] => 0
  | n :: shorter => n + 2 * room shorter

theorem room_eq (counts : List Nat) (least : Nat) :
    (((counts.zipIdx least).map fun (n, l) => n <<< l).foldr (· + ·) 0) =
      2 ^ least * room counts := by
  induction counts generalizing least with
  | nil => rfl
  | cons n counts ih =>
    rw [List.zipIdx_cons, List.map_cons, List.foldr_cons, ih, room]
    dsimp only
    rw [Nat.shiftLeft_eq, Nat.pow_succ, Nat.mul_add, Nat.mul_comm n, Nat.mul_assoc]

theorem sum_le_room (counts : List Nat) : counts.sum ≤ room counts := by
  induction counts with
  | nil => exact Nat.le_refl 0
  | cons n counts ih =>
    rw [List.sum_cons, room]
    omega

/-- Lengthening a word takes no room.  It adds a word, unless only longest words are there. -/
theorem lengthenOne_spec (counts : List Nat) :
    (lengthenOne counts).length = counts.length ∧ room (lengthenOne counts) = room counts ∧
      ((lengthenOne counts).sum = counts.sum + 1 ∨
        (lengthenOne counts).sum = counts.sum ∧ room counts = counts.sum) := by
  induction counts using lengthenOne.induct with
  | case1 longer n shorter =>
    refine ⟨rfl, ?_, .inl ?_⟩
    · simp only [lengthenOne, room]
      omega
    · simp only [lengthenOne, List.sum_cons]
      omega
  | case2 longer shorter ih =>
    obtain ⟨length, same, either⟩ := ih
    rw [lengthenOne, List.length_cons, length, room, same]
    refine ⟨rfl, rfl, ?_⟩
    rw [List.sum_cons, List.sum_cons]
    rcases either with more | ⟨nothing, only⟩
    · exact .inl (by rw [more]; omega)
    · have least := sum_le_room shorter
      simp only [room, List.sum_cons] at only ⊢
      exact .inr ⟨by rw [nothing, List.sum_cons], by omega⟩
  | case3 short filled empty =>
    have same : lengthenOne short = short := by
      rw [lengthenOne]
      · exact filled
      · exact empty
    rw [same]
    refine ⟨rfl, rfl, .inr ⟨rfl, ?_⟩⟩
    rcases short with - | ⟨longer, - | ⟨- | n, shorter⟩⟩
    · rfl
    · rfl
    · exact (empty _ _ rfl).elim
    · exact (filled _ _ _ rfl).elim

/-- Making room takes the room of one word at most, and as long as more room is taken than there are
    words, no word is lost below that number. -/
theorem makeRoom_spec {words : Nat} {counts : List Nat} (enough : words ≤ counts.sum)
    (full : words < room counts) :
    (makeRoom counts).length = counts.length ∧ room counts ≤ room (makeRoom counts) + 1 ∧
      words ≤ (makeRoom counts).sum := by
  cases counts with
  | nil => exact absurd full (Nat.not_lt_zero _)
  | cons longest shorter =>
    obtain ⟨length, same, either⟩ := lengthenOne_spec ((longest - 1) :: shorter)
    rw [makeRoom, same]
    simp only [room, List.sum_cons, List.length_cons] at *
    refine ⟨length, by omega, ?_⟩
    rcases either with more | ⟨nothing, only⟩
    · omega
    · omega

theorem repeat_makeRoom_spec {words : Nat} {counts : List Nat} (enough : words ≤ counts.sum)
    {times : Nat} (full : words + times ≤ room counts) :
    (Nat.repeat makeRoom times counts).length = counts.length ∧
      room counts ≤ room (Nat.repeat makeRoom times counts) + times ∧
      words ≤ (Nat.repeat makeRoom times counts).sum := by
  induction times with
  | zero => exact ⟨rfl, Nat.le_refl _, enough⟩
  | succ times ih =>
    obtain ⟨length, taken, kept⟩ := ih (by omega)
    obtain ⟨length', taken', kept'⟩ := makeRoom_spec kept (by omega)
    exact ⟨length'.trans length, by rw [Nat.repeat]; omega, kept'⟩

/-- Words cut to the limit are counted, each of them once. -/
theorem le_sum_counts {limit : Nat} (pos : 0 < limit) {depths : List Nat}
    (positive : ∀ depth ∈ depths, 0 < depth) :
    depths.length ≤
      ((List.range limit).map fun l => (depths.map (min limit)).count (limit - l)).sum := by
  induction depths with
  | nil => exact Nat.zero_le _
  | cons depth depths ih =>
    obtain ⟨here, there⟩ := List.forall_mem_cons.mp positive
    have rest := ih there
    have split : ((List.range limit).map fun l =>
        ((depth :: depths).map (min limit)).count (limit - l)).sum =
        ((List.range limit).map fun l => (depths.map (min limit)).count (limit - l)).sum +
          ((List.range limit).map fun l => if min limit depth = limit - l then 1 else 0).sum := by
      rw [← List.sum_map_add]
      refine congrArg List.sum (List.map_congr_left fun l _ => ?_)
      rw [List.map_cons, List.count_cons]
      simp only [beq_iff_eq]
    have one : 1 ≤ ((List.range limit).map fun l =>
        if min limit depth = limit - l then 1 else 0).sum := by
      apply List.single_le_sum (fun n _ => Nat.zero_le n)
      refine List.mem_map.mpr ⟨limit - min limit depth, List.mem_range.mpr (by omega), ?_⟩
      exact if_pos (by omega)
    rw [split, List.length_cons]
    omega

/-- There is a word for every symbol. -/
theorem wordCounts_spec {limit : Nat} (pos : 0 < limit) {depths : List Nat}
    (positive : ∀ depth ∈ depths, 0 < depth) (few : depths.length ≤ 2 ^ limit) :
    (wordCounts limit depths).length = limit ∧ depths.length ≤ (wordCounts limit depths).sum := by
  have enough := le_sum_counts pos positive
  unfold wordCounts
  dsimp only
  rw [room_eq, Nat.pow_zero, Nat.one_mul, Nat.shiftLeft_eq, Nat.one_mul]
  by_cases full : room ((List.range limit).map fun l =>
      (depths.map (min limit)).count (limit - l)) ≤ 2 ^ limit
  · rw [Nat.sub_eq_zero_of_le full]
    exact ⟨by rw [Nat.repeat, List.length_map, List.length_range], enough⟩
  · obtain ⟨length, -, kept⟩ := @repeat_makeRoom_spec depths.length _ enough
      (room ((List.range limit).map fun l => (depths.map (min limit)).count (limit - l)) -
        2 ^ limit) (by omega)
    exact ⟨by rw [length, List.length_map, List.length_range], kept⟩

theorem exists_lookup_zip {α : Type} {keys : List Nat} {values : List α} {key : Nat}
    (member : key ∈ keys) (enough : keys.length ≤ values.length) :
    ∃ value, (keys.zip values).lookup key = some value := by
  induction keys generalizing values with
  | nil => cases member
  | cons first keys ih =>
    cases values with
    | nil => cases enough
    | cons value values =>
      rw [List.zip_cons_cons, List.lookup_cons]
      by_cases same : key = first
      · exact ⟨value, by rw [same, beq_self_eq_true]⟩
      · rw [beq_eq_false_iff_ne.mpr same]
        exact ih (List.mem_of_ne_of_mem same member) (Nat.le_of_succ_le_succ enough)

theorem length_spread (limit : Nat) (words : List Nat) (least : Nat) :
    ((words.zipIdx least).flatMap fun (n, l) => List.replicate n (limit - l)).length =
      words.sum := by
  induction words generalizing least with
  | nil => rfl
  | cons n words ih =>
    rw [List.zipIdx_cons, List.flatMap_cons, List.length_append, ih, List.length_replicate,
      List.sum_cons]

theorem mem_spread {limit length : Nat} {words : List Nat} (every : words.length = limit)
    (member : length ∈ words.zipIdx.flatMap fun (n, l) => List.replicate n (limit - l)) :
    0 < length ∧ length ≤ limit := by
  obtain ⟨⟨n, l⟩, placed, repeated⟩ := List.mem_flatMap.mp member
  have below : l < words.length :=
    (List.getElem?_eq_some_iff.mp (List.mem_zipIdx_iff_getElem?.mp placed)).1
  rw [List.eq_of_mem_replicate repeated]
  omega

/-- The lengths for the words of the symbols, one for each symbol: none is longer than the limit, and
    a symbol that occurs has one above zero. -/
theorem ofCounts_spec {limit : Nat} (pos : 0 < limit) {counts : List Nat}
    (few : counts.length ≤ 2 ^ limit) :
    (ofCounts limit counts).length = counts.length ∧
      ∀ (symbol n : Nat), counts[symbol]? = some n →
        ∃ length, (ofCounts limit counts)[symbol]? = some length ∧ length ≤ limit ∧
          (n ≠ 0 → 0 < length) := by
  let occurring := counts.zipIdx.filter fun (n, _) => n ≠ 0
  let sorted := occurring.mergeSort fun a b => a.1 ≤ b.1
  let words := wordCounts limit (depths (sorted.map Prod.fst))
  let lengths := words.zipIdx.flatMap fun (n, l) => List.replicate n (limit - l)
  have unfolded : ofCounts limit counts = (List.range counts.length).map fun symbol =>
    (((sorted.map Prod.snd).zip lengths).lookup symbol).getD 0 := rfl
  have perm : sorted.Perm occurring := List.mergeSort_perm _ _
  have symbols : (depths (sorted.map Prod.fst)).length = sorted.length := by
    rw [(depths_spec _).1, List.length_map]
  have least : sorted.length ≤ counts.length := by
    rw [perm.length_eq]
    exact Nat.le_trans (List.length_filter_le _ _) (Nat.le_of_eq List.length_zipIdx)
  obtain ⟨every, enough⟩ := wordCounts_spec pos (depths_spec (sorted.map Prod.fst)).2
    (by rw [symbols]; exact Nat.le_trans least few)
  rw [symbols, ← length_spread limit _ 0] at enough
  refine ⟨by rw [unfolded, List.length_map, List.length_range], fun symbol n counted => ?_⟩
  have below : symbol < counts.length := (List.getElem?_eq_some_iff.mp counted).1
  have length : (ofCounts limit counts)[symbol]? =
      some ((((sorted.map Prod.snd).zip lengths).lookup symbol).getD 0) := by
    rw [unfolded, List.getElem?_map, List.getElem?_range below]
    rfl
  refine ⟨_, length, ?_, fun occurs => ?_⟩
  · cases found : ((sorted.map Prod.snd).zip lengths).lookup symbol with
    | none => exact Nat.zero_le _
    | some length => exact (mem_spread every (List.of_mem_zip (Keyed.mem_of_lookup found)).2).2
  · have among : symbol ∈ sorted.map Prod.snd := by
      refine List.mem_map.mpr ⟨(n, symbol), perm.mem_iff.mpr (List.mem_filter.mpr ⟨?_, ?_⟩), rfl⟩
      · exact List.mem_zipIdx_iff_getElem?.mpr counted
      · exact decide_eq_true occurs
    have room : (sorted.map Prod.snd).length ≤ lengths.length := by
      rw [List.length_map]
      exact enough
    obtain ⟨length, found⟩ := exists_lookup_zip among room
    rw [found, Option.getD_some]
    exact (mem_spread every (List.of_mem_zip (Keyed.mem_of_lookup found)).2).1

end ObjectWire.Zlib.CodeLengths
