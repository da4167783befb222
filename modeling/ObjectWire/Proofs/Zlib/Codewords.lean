import Mathlib.Data.List.Nodup
import ObjectWire.Proofs.Zlib.BitRuns
import ObjectWire.Zlib.Deflate

/-!
# Words of a code are read as their symbols

Words of one length are consecutive numbers, and the first of them is twice the number that comes
after the words that are shorter by one.  So no word begins with a shorter one, and a symbol whose
word was written is the symbol that is read, if there is room for all words.
-/

namespace ObjectWire.Zlib.HuffmanCode

variable {levels : List (List Nat)} {lengths : List Nat} {code : HuffmanCode} {symbol : Nat}
  {word : List Bool}

/-- The next bit makes the number one of a word of this length, or of the front of a longer one. -/
theorem symbolFrom?_of_ahead {symbols : List Nat} {longer : List (List Nat)} (first : Nat)
    {more n : Nat} {source : BitSource} {rest : List Bool}
    (h : source.ahead = Bits.highestFirst (more + 1) n ++ rest) :
    ∃ next, next.ahead = Bits.highestFirst more n ++ rest ∧
      (∀ symbol, symbols[n / 2 ^ more - 2 * first]? = some symbol →
        symbolFrom? (symbols :: longer) (n / 2 ^ (more + 1)) first source = some (symbol, next)) ∧
      (symbols[n / 2 ^ more - 2 * first]? = none →
        symbolFrom? (symbols :: longer) (n / 2 ^ (more + 1)) first source =
          symbolFrom? longer (n / 2 ^ more) (2 * first + symbols.length) next) := by
  rw [Bits.highestFirst_succ] at h
  obtain ⟨next, read, h⟩ := BitSource.bit?_of_ahead h
  have whole : 2 * (n / 2 ^ (more + 1)) + n / 2 ^ more % 2 = n / 2 ^ more := by
    rw [Nat.pow_succ, ← Nat.div_div_eq_div_mul]
    omega
  refine ⟨next, h, fun symbol found => ?_, fun passed => ?_⟩
  · rw [symbolFrom?, read]
    simp only [Bits.toNat_decide_odd, whole, found]
  · rw [symbolFrom?, read]
    simp only [Bits.toNat_decide_odd, whole, passed]

/-- Every word is a number behind the words that are shorter, and is read as its symbol once the
    bits in front of those that tell it from these are read. -/
theorem read_of_mem {first free left length : Nat} (room : surplus levels free = some left)
    (all : first + free = 2 ^ length)
    (member : (symbol, word) ∈ wordsFrom levels (2 * first) (length + 1)) :
    ∃ more n, word = Bits.highestFirst (length + 1 + more) n ∧
      2 * first * 2 ^ more ≤ n ∧ n < 2 ^ (length + 1 + more) ∧
      BitSource.Takes (symbolFrom? levels (n / 2 ^ (more + 1)) first)
        (Bits.highestFirst (more + 1) n) symbol := by
  induction levels generalizing first free length with
  | nil => cases member
  | cons symbols longer ih =>
    have fewer : symbols.length ≤ 2 * free := by
      unfold surplus at room
      split at room
      case isTrue h => exact h
      case isFalse => cases room
    rw [surplus, if_pos fewer] at room
    rcases List.mem_append.mp member with here | there
    · obtain ⟨⟨own, i⟩, placed, same⟩ := List.mem_map.mp here
      obtain ⟨rfl, rfl⟩ := Prod.mk.inj same
      have found : symbols[i]? = some own := List.mem_zipIdx_iff_getElem?.mp placed
      have below : i < symbols.length := (List.getElem?_eq_some_iff.mp found).1
      refine ⟨0, 2 * first + i, rfl, by omega, by rw [Nat.pow_succ]; omega, ?_⟩
      intro source rest h
      obtain ⟨next, h, read, -⟩ := @symbolFrom?_of_ahead symbols longer first _ _ _ _ h
      refine ⟨next, read own ?_, h⟩
      rw [Nat.pow_zero, Nat.div_one, Nat.add_sub_cancel_left, found]
    · have fits : 2 * first + symbols.length + (2 * free - symbols.length) = 2 ^ (length + 1) := by
        rw [Nat.pow_succ]
        omega
      obtain ⟨more, n, spelled, large, small, takes⟩ := ih room fits there
      have exponent : length + 1 + (more + 1) = length + 1 + 1 + more := by omega
      have front : 2 * first + symbols.length ≤ n / 2 ^ (more + 1) := by
        rw [Nat.le_div_iff_mul_le (Nat.two_pow_pos _), Nat.pow_succ]
        refine Nat.le_trans (Nat.le_of_eq ?_) large
        rw [Nat.mul_comm (2 ^ more), ← Nat.mul_assoc, Nat.mul_comm _ 2]
      have passed : symbols[n / 2 ^ (more + 1) - 2 * first]? = none :=
        List.getElem?_eq_none (by omega)
      refine ⟨more + 1, n, by rw [exponent]; exact spelled, ?_, by rw [exponent]; exact small, ?_⟩
      · refine Nat.le_trans ?_ large
        rw [Nat.pow_succ, Nat.mul_comm (2 ^ more), ← Nat.mul_assoc]
        exact Nat.mul_le_mul_right _ (by omega)
      · intro source rest h
        obtain ⟨middle, h, -, read⟩ := @symbolFrom?_of_ahead symbols longer first _ _ _ _ h
        obtain ⟨next, others, h⟩ := takes middle rest h
        exact ⟨next, (read passed).trans others, h⟩

/-- What the lengths of a code say of it. -/
theorem ofLengths?_some (made : ofLengths? lengths = some code) :
    code.byLength = (List.range maxLength).map (fun l => symbolsOf lengths (l + 1)) ∧
      ∃ left, surplus code.byLength 1 = some left := by
  unfold ofLengths? at made
  dsimp only at made
  split at made
  case h_1 => cases made
  case h_2 left room =>
    split at made
    case isTrue =>
      cases made
      exact ⟨rfl, left, room⟩
    case isFalse => cases made

theorem takes_of_mem_words (made : ofLengths? lengths = some code)
    (member : (symbol, word) ∈ code.words) :
    BitSource.Takes code.symbol? word symbol ∧ word ≠ [] := by
  obtain ⟨left, room⟩ := (ofLengths?_some made).2
  obtain ⟨more, n, rfl, -, small, takes⟩ := @read_of_mem _ _ _ 0 1 left 0 room rfl member
  rw [Nat.zero_add] at small
  have exponent : 0 + 1 + more = more + 1 := by omega
  have none : n / 2 ^ (more + 1) = 0 := Nat.div_eq_of_lt (by rwa [Nat.add_comm] at small)
  rw [none] at takes
  rw [exponent]
  refine ⟨takes, fun empty => ?_⟩
  have length := Bits.length_highestFirst (more + 1) n
  rw [empty] at length
  cases length

theorem mem_symbolsOf {length : Nat} :
    symbol ∈ symbolsOf lengths length ↔ lengths[symbol]? = some length := by
  simp only [symbolsOf, List.mem_map, List.mem_filter, decide_eq_true_eq, Prod.exists,
    exists_eq_right, List.mem_zipIdx_iff_getElem?]

theorem nodup_symbolsOf (lengths : List Nat) (length : Nat) : (symbolsOf lengths length).Nodup := by
  rw [symbolsOf]
  refine List.Nodup.sublist (List.filter_sublist.map _) ?_
  rw [List.zipIdx_map_snd]
  exact List.nodup_range'

theorem map_fst_wordsFrom (levels : List (List Nat)) (first length : Nat) :
    (wordsFrom levels first length).map Prod.fst = levels.flatten := by
  induction levels generalizing first length with
  | nil => rfl
  | cons symbols longer ih =>
    rw [wordsFrom, List.map_append, ih, List.flatten_cons, List.map_map]
    congr 1
    exact List.zipIdx_map_fst 0 symbols

/-- No symbol has two words. -/
theorem nodup_symbols (made : ofLengths? lengths = some code) :
    (code.words.map Prod.fst).Nodup := by
  rw [words, map_fst_wordsFrom, (ofLengths?_some made).1, List.nodup_flatten]
  refine ⟨fun symbols member => ?_, ?_⟩
  · obtain ⟨l, -, rfl⟩ := List.mem_map.mp member
    exact nodup_symbolsOf lengths _
  · rw [List.pairwise_map]
    refine List.nodup_range.imp fun {a b} apart => ?_
    rw [List.disjoint_left]
    intro symbol here there
    rw [mem_symbolsOf] at here there
    exact apart (by simpa using here.symm.trans there)

theorem exists_word (made : ofLengths? lengths = some code) {length : Nat}
    (spoken : lengths[symbol]? = some length) (positive : 0 < length)
    (short : length ≤ maxLength) : ∃ word, (symbol, word) ∈ code.words := by
  have listed : symbol ∈ code.words.map Prod.fst := by
    rw [words, map_fst_wordsFrom, (ofLengths?_some made).1, List.mem_flatten]
    refine ⟨_, List.mem_map_of_mem (List.mem_range.mpr (by omega : length - 1 < maxLength)), ?_⟩
    rw [mem_symbolsOf, spoken]
    congr 1
    omega
  obtain ⟨⟨_, word⟩, member, rfl⟩ := List.mem_map.mp listed
  exact ⟨word, member⟩

/-- A symbol that has a length is read back from the word that is looked up for it. -/
theorem takes_word (made : ofLengths? lengths = some code) {length : Nat}
    (spoken : lengths[symbol]? = some length) (positive : 0 < length)
    (short : length ≤ maxLength) :
    BitSource.Takes code.symbol? (code.toWords.getD symbol []) symbol ∧
      code.toWords.getD symbol [] ≠ [] := by
  obtain ⟨word, member⟩ := exists_word made spoken positive short
  have apart : code.words.Pairwise fun a b => (a.1 == b.1) = false := by
    have distinct := List.pairwise_map.mp (nodup_symbols made)
    exact distinct.imp fun differ => beq_eq_false_iff_ne.mpr differ
  have found : code.toWords.getD symbol [] = word :=
    Std.HashMap.getD_ofList_of_mem (beq_self_eq_true symbol) apart member
  rw [found]
  exact takes_of_mem_words made member

end ObjectWire.Zlib.HuffmanCode
