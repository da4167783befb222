import Mathlib.Data.List.GetD
import Mathlib.Data.List.SplitBy
import Mathlib.Data.List.TakeWhile
import ObjectWire.Proofs.Zlib.Codewords
import ObjectWire.Zlib.Inflate

/-!
# The lengths of words are read as they were spelled

In front of a block with codes of its own stand the lengths of their words, those of the literals and
those of the distances in one list.  A length that repeats is written once, with the number of its
repeats, and zeros at the end are left out.  What is spelled says which lengths are there after each
symbol, and the reader arrives at the same.
-/

namespace ObjectWire.Zlib

section Trimmed

/-- Only zeros are dropped. -/
theorem exists_trimmed (least : Nat) (lengths : List Nat) :
    ∃ zeros, lengths = trimmed least lengths ++ List.replicate zeros 0 := by
  let front := (lengths.reverse.dropWhile (· = 0)).reverse
  let back := (lengths.reverse.takeWhile (· = 0)).reverse
  have split : lengths = front ++ back := by
    rw [← List.reverse_append, List.takeWhile_append_dropWhile, List.reverse_reverse]
  have zeros : back = List.replicate back.length 0 := by
    refine List.eq_replicate_iff.mpr ⟨rfl, fun length member => ?_⟩
    exact of_decide_eq_true (List.mem_takeWhile_imp (p := (decide <| · = 0))
      (List.mem_reverse.mp member))
  have reaches : front.length ≤ max least (lengths.reverse.dropWhile (· = 0)).length := by
    rw [List.length_reverse]
    exact Nat.le_max_right _ _
  refine ⟨back.length - (max least (lengths.reverse.dropWhile (· = 0)).length - front.length), ?_⟩
  rw [← List.drop_replicate, ← zeros, trimmed]
  calc lengths = lengths.take (max least (lengths.reverse.dropWhile (· = 0)).length) ++
        lengths.drop (max least (lengths.reverse.dropWhile (· = 0)).length) :=
        (List.take_append_drop _ _).symm
    _ = lengths.take (max least (lengths.reverse.dropWhile (· = 0)).length) ++
        (front ++ back).drop (max least (lengths.reverse.dropWhile (· = 0)).length) := by
        rw [← split]
    _ = _ := by rw [List.drop_append, List.drop_eq_nil_of_le reaches, List.nil_append]

variable {least : Nat} {lengths : List Nat}

theorem length_trimmed (enough : least ≤ lengths.length) :
    least ≤ (trimmed least lengths).length ∧ (trimmed least lengths).length ≤ lengths.length := by
  rw [trimmed, List.length_take]
  omega

theorem getD_trimmed (least : Nat) (lengths : List Nat) (symbol : Nat) :
    (trimmed least lengths).getD symbol 0 = lengths.getD symbol 0 := by
  obtain ⟨zeros, split⟩ := exists_trimmed least lengths
  generalize trimmed least lengths = front at split
  subst split
  by_cases below : symbol < front.length
  · rw [List.getD_append _ _ _ _ below]
  · have beyond := Nat.le_of_not_lt below
    rw [List.getD_append_right _ _ _ _ beyond, List.getD_eq_default _ _ beyond]
    by_cases zero : symbol - front.length < zeros
    · rw [List.getD_replicate _ zero]
    · rw [List.getD_eq_default]
      rw [List.length_replicate]
      omega

/-- A length above zero is not dropped. -/
theorem getElem?_trimmed {symbol length : Nat} (spoken : lengths[symbol]? = some length)
    (positive : 0 < length) : (trimmed least lengths)[symbol]? = some length := by
  have same := getD_trimmed least lengths symbol
  rw [List.getD_eq_getElem?_getD, List.getD_eq_getElem?_getD, spoken, Option.getD_some] at same
  cases found : (trimmed least lengths)[symbol]? with
  | none =>
    rw [found, Option.getD_none] at same
    omega
  | some other =>
    rw [found, Option.getD_some] at same
    rw [same]

end Trimmed

namespace SpelledLength

/-- With a symbol and its extra bits behind the lengths that are there, last one first, these are the
    lengths then. -/
inductive Spells : SpelledLength → (done after : List Nat) → Prop
  | plain {length : Nat} {done : List Nat} (short : length < 16) :
      Spells (plain length) done (length :: done)
  | repeats {last n : Nat} {done : List Nat} (few : n < 2 ^ 2) :
      Spells ⟨16, Bits.lowestFirst 2 n⟩ (last :: done)
        (List.replicate (3 + n) last ++ last :: done)
  | zeros {n : Nat} {done : List Nat} (few : n < 2 ^ 3) :
      Spells ⟨17, Bits.lowestFirst 3 n⟩ done (List.replicate (3 + n) 0 ++ done)
  | manyZeros {n : Nat} {done : List Nat} (few : n < 2 ^ 7) :
      Spells ⟨18, Bits.lowestFirst 7 n⟩ done (List.replicate (11 + n) 0 ++ done)

/-- The same for several symbols, one behind the other. -/
inductive SpellsAll : List SpelledLength → (done after : List Nat) → Prop
  | nil {done : List Nat} : SpellsAll [] done done
  | cons {first : SpelledLength} {others : List SpelledLength} {done middle after : List Nat}
      (here : Spells first done middle) (there : SpellsAll others middle after) :
      SpellsAll (first :: others) done after

variable {spelled : SpelledLength} {front back : List SpelledLength} {done middle after : List Nat}

theorem Spells.all (spells : Spells spelled done after) : SpellsAll [spelled] done after :=
  .cons spells .nil

theorem SpellsAll.append (first : SpellsAll front done middle)
    (second : SpellsAll back middle after) : SpellsAll (front ++ back) done after := by
  induction first with
  | nil => exact second
  | cons here _ ih => exact .cons here (ih second)

theorem Spells.length_lt (spells : Spells spelled done after) : done.length < after.length := by
  cases spells <;> simp only [List.length_cons, List.length_append, List.length_replicate] <;> omega

theorem SpellsAll.length_le (spells : SpellsAll front done after) : done.length ≤ after.length := by
  induction spells with
  | nil => exact Nat.le_refl _
  | cons here _ ih => exact Nat.le_trans (Nat.le_of_lt here.length_lt) ih

theorem spellsAll_plain {length : Nat} (short : length < 16) (n : Nat) (done : List Nat) :
    SpellsAll (List.replicate n (plain length)) done (List.replicate n length ++ done) := by
  induction n generalizing done with
  | zero => exact .nil
  | succ n ih =>
    have rest := ih (length :: done)
    rw [List.append_cons, ← List.replicate_succ'] at rest
    exact .cons (.plain short) rest

theorem spellsAll_zeros {n : Nat} (few : n ≤ 138) (done : List Nat) :
    SpellsAll (zeros n) done (List.replicate n 0 ++ done) := by
  unfold zeros
  split
  case isTrue => exact spellsAll_plain (by decide) n done
  case isFalse several =>
    split
    case isTrue =>
      have spells := @Spells.zeros (n - 3) done (by omega)
      rw [show 3 + (n - 3) = n by omega] at spells
      exact spells.all
    case isFalse =>
      have spells := @Spells.manyZeros (n - 11) done (by omega)
      rw [show 11 + (n - 11) = n by omega] at spells
      exact spells.all

theorem spellsAll_repeats {length n : Nat} (short : length < 16) (few : n ≤ 6) (done : List Nat) :
    SpellsAll (repeats length n) (length :: done) (List.replicate n length ++ length :: done) := by
  unfold repeats
  split
  case isTrue => exact spellsAll_plain short n _
  case isFalse several =>
    have spells := @Spells.repeats length (n - 3) done (by omega)
    rw [show 3 + (n - 3) = n by omega] at spells
    exact spells.all

theorem sum_parts {most : Nat} (pos : 0 < most) (n : Nat) :
    (parts most n).sum = n ∧ ∀ part ∈ parts most n, part ≤ most := by
  have whole := Nat.div_add_mod n most
  have below := Nat.mod_lt n pos
  unfold parts
  refine ⟨?_, fun part member => ?_⟩
  · rw [List.sum_append, List.sum_replicate_nat, Nat.mul_comm]
    split
    case isTrue even => rw [List.sum_nil]; omega
    case isFalse => rw [List.sum_cons, List.sum_nil]; omega
  · rcases List.mem_append.mp member with full | last
    · exact Nat.le_of_eq (List.eq_of_mem_replicate full)
    · split at last
      · cases last
      · rw [List.mem_singleton.mp last]
        exact Nat.le_of_lt below

theorem cons_replicate_append (length n : Nat) (done : List Nat) :
    List.replicate n length ++ length :: done = length :: (List.replicate n length ++ done) := by
  rw [List.append_cons, ← List.replicate_succ', List.replicate_succ, List.cons_append]

theorem spellsAll_zeroParts {parts : List Nat} (few : ∀ part ∈ parts, part ≤ 138)
    (done : List Nat) :
    SpellsAll (parts.flatMap zeros) done (List.replicate parts.sum 0 ++ done) := by
  induction parts generalizing done with
  | nil => exact .nil
  | cons part parts ih =>
    obtain ⟨here, there⟩ := List.forall_mem_cons.mp few
    have both := (spellsAll_zeros here done).append (ih there _)
    rwa [← List.append_assoc, List.replicate_append_replicate, Nat.add_comm,
      ← List.sum_cons] at both

theorem spellsAll_repeatParts {parts : List Nat} {length : Nat} (short : length < 16)
    (few : ∀ part ∈ parts, part ≤ 6) (done : List Nat) :
    SpellsAll (parts.flatMap (repeats length)) (length :: done)
      (List.replicate parts.sum length ++ length :: done) := by
  induction parts generalizing done with
  | nil => exact .nil
  | cons part parts ih =>
    obtain ⟨here, there⟩ := List.forall_mem_cons.mp few
    have first := spellsAll_repeats short here done
    rw [cons_replicate_append] at first
    have both := first.append (ih there _)
    rwa [← cons_replicate_append, ← List.append_assoc, List.replicate_append_replicate,
      Nat.add_comm, ← List.sum_cons] at both

theorem spellsAll_ofRun {length n : Nat} (short : length < 16) (done : List Nat) :
    SpellsAll (ofRun (List.replicate (n + 1) length)) done
      (List.replicate (n + 1) length ++ done) := by
  rw [List.replicate_succ]
  cases length with
  | zero =>
    obtain ⟨sum, few⟩ := sum_parts (by decide : 0 < 138) (n + 1)
    have spells := spellsAll_zeroParts few done
    rw [sum, List.replicate_succ] at spells
    rwa [ofRun, List.length_replicate]
  | succ length =>
    obtain ⟨sum, few⟩ := sum_parts (by decide : 0 < 6) n
    have spells := spellsAll_repeatParts short few done
    rw [sum, cons_replicate_append] at spells
    rw [ofRun, List.length_replicate]
    · exact .cons (.plain short) spells
    · exact nofun

/-- A run in which neighbours are equal repeats one length. -/
theorem eq_replicate_of_isChain {length : Nat} {others : List Nat}
    (equal : (length :: others).IsChain fun a b => (a == b) = true) :
    length :: others = List.replicate (others.length + 1) length := by
  induction others generalizing length with
  | nil => rfl
  | cons next others ih =>
    obtain ⟨same, rest⟩ := List.isChain_cons_cons.mp equal
    obtain rfl := eq_of_beq same
    rw [ih rest, List.length_replicate, ← List.replicate_succ]

/-- What is spelled for runs of equal lengths, one behind the other, says the lengths of all runs. -/
theorem spellsAll_ofRuns {runs : List (List Nat)}
    (equal : ∀ run ∈ runs, run ≠ [] ∧ run.IsChain fun a b => (a == b) = true)
    (short : ∀ length ∈ runs.flatten, length < 16) (done : List Nat) :
    SpellsAll (runs.flatMap ofRun) done (runs.flatten.reverse ++ done) := by
  induction runs generalizing done with
  | nil => exact .nil
  | cons run runs ih =>
    obtain ⟨⟨nonempty, chain⟩, others⟩ := List.forall_mem_cons.mp equal
    obtain ⟨length, run, rfl⟩ := List.exists_cons_of_ne_nil nonempty
    have low : length < 16 := short length (by simp)
    have first := @spellsAll_ofRun _ run.length low done
    rw [← eq_replicate_of_isChain chain] at first
    have back : (length :: run).reverse = length :: run := by
      rw [eq_replicate_of_isChain chain, List.reverse_replicate]
    have rest := ih others (fun length member =>
      short length (by rw [List.flatten_cons]; exact List.mem_append_right _ member))
      (length :: run ++ done)
    have both := first.append rest
    rwa [← List.append_assoc, ← back, ← List.reverse_append, back] at both

/-- What is spelled for lengths says these lengths. -/
theorem spellsAll_ofLengths {lengths : List Nat} (short : ∀ length ∈ lengths, length < 16) :
    SpellsAll (ofLengths lengths) [] lengths.reverse := by
  have spells := @spellsAll_ofRuns (lengths.splitBy (· == ·)) (fun run member =>
    ⟨List.ne_nil_of_mem_splitBy member, List.isChain_of_mem_splitBy member⟩)
    (by rwa [List.flatten_splitBy]) []
  rwa [List.flatten_splitBy, List.append_nil] at spells

end SpelledLength

section Reading

open SpelledLength

variable {code : HuffmanCode} {count fuel : Nat} {word : List Bool} {spelled : SpelledLength}
  {done middle after : List Nat}

/-- A symbol and its extra bits are read as the lengths they say. -/
theorem codeLengths?_of_spells (spells : Spells spelled done middle) (more : done.length < count)
    (spoken : BitSource.Takes code.symbol? word spelled.symbol) {source : BitSource}
    {rest : List Bool} (h : source.ahead = word ++ (spelled.extra ++ rest)) :
    ∃ next, next.ahead = rest ∧ codeLengths? code count (fuel + 1) source done =
      codeLengths? code count fuel next middle := by
  obtain ⟨next, read, h⟩ := spoken source _ h
  have unequal : ¬ done.length = count := Nat.ne_of_lt more
  have below : ¬ count < done.length := Nat.not_lt_of_gt more
  cases spells with
  | plain short =>
    refine ⟨next, h, ?_⟩
    rw [codeLengths?, if_neg unequal, if_neg below, read]
    exact if_pos short
  | repeats few =>
    obtain ⟨last, bits, h⟩ := BitSource.takes_lowestFirst few next rest h
    refine ⟨last, h, ?_⟩
    rw [codeLengths?, if_neg unequal, if_neg below, read]
    simp only [Option.bind_eq_bind, Option.bind_some, List.head?_cons, bits]
    rfl
  | zeros few =>
    obtain ⟨last, bits, h⟩ := BitSource.takes_lowestFirst few next rest h
    refine ⟨last, h, ?_⟩
    rw [codeLengths?, if_neg unequal, if_neg below, read]
    simp only [Option.bind_eq_bind, Option.bind_some, bits]
    rfl
  | manyZeros few =>
    obtain ⟨last, bits, h⟩ := BitSource.takes_lowestFirst few next rest h
    refine ⟨last, h, ?_⟩
    rw [codeLengths?, if_neg unequal, if_neg below, read]
    simp only [Option.bind_eq_bind, Option.bind_some, bits]
    rfl

/-- Lengths that were spelled are read, if every symbol is read back from its word. -/
theorem takes_codeLengths? {words : Words} {symbols : List SpelledLength}
    (spells : SpellsAll symbols done after) (whole : after.length = count)
    (spoken : ∀ spelled ∈ symbols,
      BitSource.Takes code.symbol? (words.getD spelled.symbol []) spelled.symbol)
    (enough : count ≤ fuel + done.length) :
    BitSource.Takes (fun source => codeLengths? code count fuel source done)
      (symbols.flatMap fun spelled => words.getD spelled.symbol [] ++ spelled.extra)
      after.reverse := by
  induction spells generalizing fuel with
  | nil =>
    intro source rest h
    refine ⟨source, ?_, h⟩
    cases fuel <;> exact if_pos whole
  | cons here there ih =>
    have grows := here.length_lt
    have within := there.length_le
    obtain ⟨fuel, rfl⟩ : ∃ less, fuel = less + 1 := ⟨fuel - 1, by omega⟩
    obtain ⟨first, others⟩ := List.forall_mem_cons.mp spoken
    intro source rest h
    rw [List.flatMap_cons, List.append_assoc, List.append_assoc] at h
    obtain ⟨next, h, same⟩ := @codeLengths?_of_spells _ count fuel _ _ _ _ here (by omega) first
      source _ h
    obtain ⟨last, read, h⟩ := @ih fuel whole others (by omega) next rest h
    exact ⟨last, same.trans read, h⟩

/-- Numbers below eight are read as they were written. -/
theorem takes_triples? {numbers : List Nat} (small : ∀ n ∈ numbers, n < 2 ^ 3) :
    BitSource.Takes (triples? numbers.length) (numbers.flatMap (Bits.lowestFirst 3)) numbers := by
  induction numbers with
  | nil => exact fun source rest h => ⟨source, rfl, h⟩
  | cons n numbers ih =>
    obtain ⟨here, there⟩ := List.forall_mem_cons.mp small
    intro source rest h
    rw [List.flatMap_cons, List.append_assoc] at h
    obtain ⟨middle, first, h⟩ := BitSource.takes_lowestFirst here source _ h
    obtain ⟨next, others, h⟩ := ih there middle rest h
    refine ⟨next, ?_, h⟩
    rw [List.length_cons, triples?, first]
    simp only [Option.bind_eq_bind, Option.bind_some, others]
    rfl

end Reading

/-! The order in which the lengths of the code for lengths are written. -/

theorem lookup_zip_of_nodup {keys values : List Nat} (distinct : keys.Nodup) {i key : Nat}
    (found : keys[i]? = some key) : (keys.zip values).lookup key = values[i]? := by
  induction keys generalizing values i with
  | nil => cases found
  | cons first keys ih =>
    obtain ⟨fresh, distinct⟩ := List.nodup_cons.mp distinct
    cases values with
    | nil => rfl
    | cons value values =>
      rw [List.zip_cons_cons, List.lookup_cons]
      cases i with
      | zero =>
        obtain rfl := Option.some.inj found
        rw [beq_self_eq_true]
        rfl
      | succ i =>
        rw [List.getElem?_cons_succ] at found
        have other : key ≠ first := fun same => fresh (same ▸ List.mem_of_getElem? found)
        rw [beq_eq_false_iff_ne.mpr other, List.getElem?_cons_succ]
        exact ih distinct found

/-- Lengths that were put in order, without the zeros at the end, are put back. -/
theorem lengths_of_ordered {lengths : List Nat} (all : lengths.length = lengthSymbols) :
    ((List.range lengthSymbols).map fun symbol =>
      ((lengthOrder.zip (trimmed 4 (lengthOrder.map fun symbol => lengths.getD symbol 0))).lookup
        symbol).getD 0) = lengths := by
  have distinct : lengthOrder.Nodup := by decide
  have every : ∀ symbol < lengthSymbols, ∃ i < lengthSymbols, lengthOrder[i]? = some symbol := by
    decide
  apply List.ext_getElem
  · rw [List.length_map, List.length_range, all]
  · intro symbol below within
    rw [List.length_map, List.length_range] at below
    obtain ⟨i, -, placed⟩ := every symbol below
    rw [List.getElem_map, List.getElem_range, lookup_zip_of_nodup distinct placed,
      ← List.getD_eq_getElem?_getD, getD_trimmed, List.getD_eq_getElem?_getD, List.getElem?_map,
      placed]
    exact List.getD_eq_getElem _ _ within

end ObjectWire.Zlib
