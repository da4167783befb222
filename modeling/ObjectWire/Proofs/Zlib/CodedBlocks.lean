import ObjectWire.Proofs.Zlib.Repetitions
import ObjectWire.Proofs.Zlib.Spelling
import ObjectWire.Proofs.Zlib.WordLengths

/-!
# Coded blocks are read as the pieces they were made of

A length or a distance is read from its symbol and extra bits, for the ranges of the symbols leave no
gap.  A block of pieces is read piece by piece, if the codes have words for all symbols that occur.
-/

namespace ObjectWire.Zlib

/-! ### Ranges -/

section Bases

variable {bases : List (Nat × Nat)} {n : Nat}

theorem symbolOf_eq (bases : List (Nat × Nat)) (n : Nat) :
    symbolOf bases n = (bases.takeWhile fun range => decide (range.1 ≤ n)).length - 1 := rfl

theorem symbolOf_cons_of_le {first next : Nat × Nat} {others : List (Nat × Nat)}
    (h : first.1 ≤ n) (h' : next.1 ≤ n) :
    symbolOf (first :: next :: others) n = symbolOf (next :: others) n + 1 := by
  simp only [symbolOf_eq, List.takeWhile_cons, decide_eq_true h, decide_eq_true h', if_true,
    List.length_cons]
  rfl

/-- The symbol for a number is that of the range that the number lies in, if every range reaches as
    far as the next one. -/
theorem exists_base (reaching : bases.IsChain fun a b => b.1 ≤ a.1 + 2 ^ a.2)
    (least : ∃ first ∈ bases.head?, first.1 ≤ n)
    (most : ∀ last ∈ bases.getLast?, n < last.1 + 2 ^ last.2) :
    ∃ base extra, bases[symbolOf bases n]? = some (base, extra) ∧ base ≤ n ∧
      n < base + 2 ^ extra := by
  induction bases with
  | nil =>
    obtain ⟨_, none, -⟩ := least
    cases none
  | cons first others ih =>
    obtain ⟨_, ⟨⟩, below⟩ := least
    cases others with
    | nil =>
      have only : symbolOf [first] n = 0 := by
        simp only [symbolOf_eq, List.takeWhile_cons, decide_eq_true below, if_true]
        rfl
      exact ⟨first.1, first.2, by rw [only]; rfl, below, most first rfl⟩
    | cons next others =>
      obtain ⟨reaches, reaching⟩ := List.isChain_cons_cons.mp reaching
      by_cases later : next.1 ≤ n
      · obtain ⟨base, extra, found, bounds⟩ := ih reaching ⟨next, rfl, later⟩ fun last member =>
          most last (by rwa [List.getLast?_cons_cons])
        refine ⟨base, extra, ?_, bounds⟩
        rw [symbolOf_cons_of_le below later, List.getElem?_cons_succ, found]
      · have here : symbolOf (first :: next :: others) n = 0 := by
          simp only [symbolOf_eq, List.takeWhile_cons, decide_eq_true below,
            decide_eq_false later, if_true]
          rfl
        exact ⟨first.1, first.2, by rw [here]; rfl, below, by omega⟩

/-- A number in the ranges is read from its extra bits, once its symbol is read. -/
theorem takes_extended? (reaching : bases.IsChain fun a b => b.1 ≤ a.1 + 2 ^ a.2)
    (least : ∃ first ∈ bases.head?, first.1 ≤ n)
    (most : ∀ last ∈ bases.getLast?, n < last.1 + 2 ^ last.2) :
    BitSource.Takes (extended? bases (symbolOf bases n)) (extraOf bases n) n := by
  obtain ⟨base, extra, found, low, high⟩ := exists_base reaching least most
  intro source rest h
  rw [extraOf, found] at h
  obtain ⟨next, read, h⟩ := BitSource.takes_lowestFirst (by omega : n - base < 2 ^ extra) source _ h
  refine ⟨next, ?_, h⟩
  rw [extended?, found]
  simp only [Option.bind_eq_bind, Option.bind_some, read]
  rw [Nat.add_sub_cancel' low]
  rfl

theorem symbolOf_lt (nonempty : bases ≠ []) : symbolOf bases n < bases.length := by
  have within : (bases.takeWhile fun x => decide (x.1 ≤ n)).length ≤ bases.length :=
    (List.takeWhile_sublist _).length_le
  have positive := List.length_pos_iff.mpr nonempty
  rw [symbolOf_eq]
  omega

end Bases

theorem takes_length {n : Nat} (long : 3 ≤ n) (limited : n ≤ longestRepetition) :
    BitSource.Takes (extended? lengthBases (symbolOf lengthBases n)) (extraOf lengthBases n) n := by
  refine takes_extended? (by decide) ⟨(3, 0), rfl, long⟩ fun last member => ?_
  cases member
  exact Nat.lt_succ_of_le limited

theorem takes_distance {n : Nat} (distant : 0 < n) (limited : n ≤ 32768) :
    BitSource.Takes (extended? distanceBases (symbolOf distanceBases n)) (extraOf distanceBases n)
      n := by
  refine takes_extended? (by decide) ⟨(1, 0), rfl, distant⟩ fun last member => ?_
  cases member
  exact Nat.lt_succ_of_le limited

/-! ### Pieces -/

/-- The code has a word for the symbol, and reads it back from the word. -/
def HuffmanCode.Says (code : HuffmanCode) (symbol : Nat) : Prop :=
  BitSource.Takes code.symbol? (code.toWords.getD symbol []) symbol ∧
    code.toWords.getD symbol [] ≠ []

/-- The codes have words for the symbols of the piece. -/
structure Piece.Said (literals distances : HuffmanCode) (piece : Piece) : Prop where
  symbol : literals.Says piece.symbol
  distance : ∀ symbol ∈ piece.distanceSymbol?, distances.Says symbol

section Pieces

variable {literals distances : HuffmanCode} {piece : Piece} {pieces : List Piece} {size : Nat}

/-- A piece whose symbols have words is read behind what is out. -/
theorem codedBlock_of_piece (said : piece.Said literals distances) (fits : piece.Fits size)
    (near : size ≤ 32768) (fuel : Nat) {source : BitSource} {rest : List Bool} (out : Inflated)
    (h : source.ahead = piece.bits literals.toWords distances.toWords ++ rest) :
    ∃ next, next.ahead = rest ∧ codedBlock literals distances (fuel + 1) source out =
      codedBlock literals distances fuel next (piece.expand out) := by
  rw [Piece.bits.eq_def, List.append_assoc] at h
  obtain ⟨next, read, h⟩ := said.symbol.1 source _ h
  rw [codedBlock, read]
  simp only [Option.bind_eq_bind, Option.bind_some]
  cases piece with
  | literal b =>
    refine ⟨next, h, ?_⟩
    have byte : (Piece.literal b).symbol < endOfBlock := b.toNat_lt
    rw [if_pos byte]
    simp only [Piece.symbol, UInt8.ofNat_toNat]
    rfl
  | repetition r =>
    obtain ⟨long, limited, distant, behind⟩ := fits
    have high : firstLength ≤ (Piece.repetition r).symbol := Nat.le_add_right _ _
    have above : ¬ (Piece.repetition r).symbol < endOfBlock :=
      Nat.not_lt_of_le (Nat.le_trans (by decide) high)
    have other : ¬ (Piece.repetition r).symbol = endOfBlock :=
      Nat.ne_of_gt (Nat.lt_of_lt_of_le (by decide) high)
    have symbol : (Piece.repetition r).symbol - firstLength = symbolOf lengthBases r.length :=
      Nat.add_sub_cancel_left _ _
    rw [List.append_assoc, List.append_assoc] at h
    obtain ⟨first, length, h⟩ := takes_length long limited next _ h
    obtain ⟨second, distance, h⟩ := (said.distance _ rfl).1 first _ h
    obtain ⟨last, far, h⟩ := takes_distance distant (Nat.le_trans behind near) second _ h
    refine ⟨last, h, ?_⟩
    have repeated : repetition? distances (Piece.repetition r).symbol next out =
        some (last, (Piece.repetition r).expand out) := by
      rw [repetition?, symbol, length]
      simp only [Option.bind_eq_bind, Option.bind_some, distance, far]
      rfl
    rw [if_neg above, if_neg other, repeated]
    rfl

/-- Pieces whose symbols have words are read one behind the other, up to the end of the block. -/
theorem codedBlock_of_pieces (said : ∀ piece ∈ pieces, piece.Said literals distances)
    (fits : ∀ piece ∈ pieces, piece.Fits size) (near : size ≤ 32768)
    (ends : literals.Says endOfBlock) {fuel : Nat} (enough : pieces.length < fuel)
    {source : BitSource} {rest : List Bool} (out : Inflated)
    (h : source.ahead = codedBits literals distances pieces ++ rest) :
    ∃ next, next.ahead = rest ∧
      codedBlock literals distances fuel source out = some (next, Piece.expandAll pieces out) := by
  rw [codedBits, List.append_assoc] at h
  induction pieces generalizing fuel source out with
  | nil =>
    obtain ⟨fuel, rfl⟩ : ∃ less, fuel = less + 1 :=
      Nat.exists_eq_succ_of_ne_zero (Nat.ne_zero_of_lt enough)
    obtain ⟨next, read, h⟩ := ends.1 source rest h
    refine ⟨next, h, ?_⟩
    rw [codedBlock, read]
    rfl
  | cons piece pieces ih =>
    obtain ⟨fuel, rfl⟩ : ∃ less, fuel = less + 1 :=
      Nat.exists_eq_succ_of_ne_zero (Nat.ne_zero_of_lt enough)
    obtain ⟨first, others⟩ := List.forall_mem_cons.mp said
    obtain ⟨fit, fits⟩ := List.forall_mem_cons.mp fits
    rw [List.flatMap_cons, List.append_assoc] at h
    obtain ⟨middle, h, same⟩ := codedBlock_of_piece first fit near fuel out h
    obtain ⟨next, h, read⟩ := ih others fits (Nat.lt_of_succ_lt_succ enough) (piece.expand out) h
    exact ⟨next, h, same.trans read⟩

/-- Every piece takes a bit at least, and so does the end. -/
theorem length_lt_codedBits (said : ∀ piece ∈ pieces, piece.Said literals distances)
    (ends : literals.Says endOfBlock) :
    pieces.length < (codedBits literals distances pieces).length := by
  have last := List.length_pos_iff.mpr ends.2
  have many : pieces.length ≤
      (pieces.flatMap (Piece.bits literals.toWords distances.toWords)).length := by
    induction pieces with
    | nil => exact Nat.zero_le _
    | cons piece pieces ih =>
      obtain ⟨first, others⟩ := List.forall_mem_cons.mp said
      have word := List.length_pos_iff.mpr first.symbol.2
      have rest := ih others
      rw [List.flatMap_cons, List.length_append, List.length_cons, Piece.bits.eq_def,
        List.length_append]
      omega
  rw [codedBits, List.length_append]
  omega

/-- The same with as much fuel as there are bits. -/
theorem codedBlock_of_codedBits (said : ∀ piece ∈ pieces, piece.Said literals distances)
    (fits : ∀ piece ∈ pieces, piece.Fits size) (near : size ≤ 32768)
    (ends : literals.Says endOfBlock) {source : BitSource} {rest : List Bool} (out : Inflated)
    (h : source.ahead = codedBits literals distances pieces ++ rest) :
    ∃ next, next.ahead = rest ∧ codedBlock literals distances source.size source out =
      some (next, Piece.expandAll pieces out) := by
  have bits := source.length_ahead_le
  rw [h, List.length_append] at bits
  have fewer := length_lt_codedBits said ends
  exact codedBlock_of_pieces said fits near ends (by omega) out h

end Pieces

end ObjectWire.Zlib
