import ObjectWire.Proofs.Zlib.CodedBlocks

/-!
# What was deflated is inflated

A deflated run is one coded block.  Its codes have words for everything that occurs in the pieces of
the run: those that every reader knows have words for all symbols, and those that the block brings
along are made from how often the symbols occur.  So inflating reads the codes and then the pieces,
which make up the run.
-/

namespace ObjectWire.Zlib

section Blocks

variable {pieces : List Piece} {size : Nat} {literals distances : HuffmanCode}

/-- The symbols of a block of pieces. -/
theorem Piece.symbol_lt {piece : Piece} (fits : piece.Fits size) :
    piece.symbol < literalSymbols := by
  cases piece with
  | literal b => exact Nat.lt_trans b.toNat_lt (by decide)
  | repetition r =>
    have below : symbolOf lengthBases r.length < lengthBases.length := symbolOf_lt (by decide)
    exact Nat.add_lt_add_left below firstLength

theorem Piece.distanceSymbol?_lt {piece : Piece} {symbol : Nat}
    (h : symbol ∈ piece.distanceSymbol?) : symbol < distanceSymbols := by
  cases piece with
  | literal b => cases h
  | repetition r =>
    cases h
    exact symbolOf_lt (by decide)

/-! ### The codes that every reader knows -/

/-- A code that gives every symbol a length that can be has words for all of them. -/
theorem says_of_lengths {lengths : List Nat} {code : HuffmanCode} {symbol : Nat}
    (made : HuffmanCode.ofLengths? lengths = some code)
    (every : ∀ length ∈ lengths, 0 < length ∧ length ≤ HuffmanCode.maxLength)
    (below : symbol < lengths.length) : code.Says symbol := by
  obtain ⟨positive, short⟩ := every _ (List.getElem_mem below)
  exact HuffmanCode.takes_word made (List.getElem?_eq_getElem below) positive short

theorem length_of_fixedLiteralLengths : ∀ length ∈ fixedLiteralLengths,
    0 < length ∧ length ≤ HuffmanCode.maxLength := by
  decide +kernel

theorem length_of_fixedDistanceLengths : ∀ length ∈ fixedDistanceLengths,
    0 < length ∧ length ≤ HuffmanCode.maxLength := by
  decide +kernel

/-- A block in the codes that every reader knows is read as its pieces. -/
theorem block?_of_fixedBits? {bits rest : List Bool} (fits : ∀ piece ∈ pieces, piece.Fits size)
    (near : size ≤ 32768) (made : fixedBits? pieces = some bits) {source : BitSource}
    (out : Inflated) (h : source.ahead = bits ++ rest) :
    ∃ next, next.ahead = rest ∧
      block? source out = some (next, Piece.expandAll pieces out) := by
  unfold fixedBits? at made
  obtain ⟨literals, literal, made⟩ := Option.bind_eq_some_iff.mp made
  obtain ⟨distances, distance, made⟩ := Option.bind_eq_some_iff.mp made
  obtain rfl := Option.some.inj made
  have allLiterals : literalSymbols < fixedLiteralLengths.length := by decide +kernel
  have allDistances : distanceSymbols < fixedDistanceLengths.length := by decide +kernel
  have ends : literals.Says endOfBlock := says_of_lengths literal length_of_fixedLiteralLengths
    (Nat.lt_trans (by decide : endOfBlock < literalSymbols) allLiterals)
  have said : ∀ piece ∈ pieces, piece.Said literals distances := fun piece member => {
    symbol := says_of_lengths literal length_of_fixedLiteralLengths
      (Nat.lt_trans (Piece.symbol_lt (fits piece member)) allLiterals)
    distance := fun symbol h => says_of_lengths distance length_of_fixedDistanceLengths
      (Nat.lt_trans (Piece.distanceSymbol?_lt h) allDistances) }
  rw [List.append_assoc] at h
  obtain ⟨next, kind, h⟩ := BitSource.takes_lowestFirst (by decide : 1 < 2 ^ 2) source _ h
  obtain ⟨last, h, read⟩ := codedBlock_of_codedBits said fits near ends out h
  refine ⟨last, h, ?_⟩
  have known : fixedLiterals = some literals := literal
  have known' : fixedDistances = some distances := distance
  rw [block?, kind, known, known']
  simp only [Option.bind_eq_bind, Option.bind_some, Nat.one_ne_zero, if_false, if_true]
  exact read

/-! ### Codes of the block's own -/

theorem getElem?_occurrences {size symbol : Nat} (below : symbol < size) (symbols : List Nat) :
    (occurrences size symbols)[symbol]? = some (symbols.count symbol) := by
  rw [occurrences, List.getElem?_map, List.getElem?_range below]
  rfl

theorem length_occurrences (size : Nat) (symbols : List Nat) :
    (occurrences size symbols).length = size := by
  rw [occurrences, List.length_map, List.length_range]

/-- The lengths made for symbols are no longer than the limit, and a symbol that occurs has one above
    zero. -/
theorem exists_length {limit size symbol : Nat} (pos : 0 < limit) (few : size ≤ 2 ^ limit)
    (symbols : List Nat) (below : symbol < size) :
    ∃ length, (CodeLengths.ofCounts limit (occurrences size symbols))[symbol]? =
      some length ∧ length ≤ limit ∧ (symbol ∈ symbols → 0 < length) := by
  obtain ⟨length, found, short, positive⟩ := (CodeLengths.ofCounts_spec pos
    (by rw [length_occurrences]; exact few)).2 symbol _ (getElem?_occurrences below symbols)
  exact ⟨length, found, short, fun member =>
    positive (Nat.ne_of_gt (List.count_pos_iff.mpr member))⟩

theorem length_ofCounts {limit size : Nat} (pos : 0 < limit) (few : size ≤ 2 ^ limit)
    (symbols : List Nat) :
    (CodeLengths.ofCounts limit (occurrences size symbols)).length = size := by
  rw [(CodeLengths.ofCounts_spec pos (by rw [length_occurrences]; exact few)).1,
    length_occurrences]

theorem le_of_mem_ofCounts {limit size length : Nat} (pos : 0 < limit) (few : size ≤ 2 ^ limit)
    {symbols : List Nat}
    (member : length ∈ CodeLengths.ofCounts limit (occurrences size symbols)) :
    length ≤ limit := by
  obtain ⟨symbol, below, rfl⟩ := List.mem_iff_getElem.mp member
  have within := below
  rw [length_ofCounts pos few] at within
  obtain ⟨length, found, short, -⟩ := exists_length pos few symbols within
  rw [List.getElem?_eq_getElem below] at found
  rw [Option.some.inj found]
  exact short

/-- The code made for symbols has words for those that occur. -/
theorem says_of_occurrences {limit least size : Nat} {symbols : List Nat} {code : HuffmanCode}
    (pos : 0 < limit) (few : size ≤ 2 ^ limit) (short : limit ≤ HuffmanCode.maxLength)
    (made : HuffmanCode.ofLengths?
      (trimmed least (CodeLengths.ofCounts limit (occurrences size symbols))) = some code)
    {symbol : Nat} (member : symbol ∈ symbols) (below : symbol < size) : code.Says symbol := by
  obtain ⟨length, found, limited, positive⟩ := exists_length pos few symbols below
  exact HuffmanCode.takes_word made (getElem?_trimmed found (positive member)) (positive member)
    (Nat.le_trans limited short)

/-! ### The lengths in front of a block -/

/-- The lengths for the words of the code in which lengths are spelled. -/
def lengthsOfSpelled (lengths : List Nat) : List Nat :=
  CodeLengths.ofCounts 7
    (occurrences lengthSymbols ((SpelledLength.ofLengths lengths).map SpelledLength.symbol))

/-- The same in the order in which they are written, without the zeros at the end. -/
def orderedLengths (lengths : List Nat) : List Nat :=
  trimmed 4 (lengthOrder.map fun symbol => (lengthsOfSpelled lengths).getD symbol 0)

/-- The bits in front of a block with codes of its own, up to its pieces, in terms of the lengths of
    the words of its codes. -/
def ownHeader (literalLengths distanceLengths : List Nat) (words : Words) : List Bool :=
  let lengths := literalLengths ++ distanceLengths
  Bits.lowestFirst 5 (literalLengths.length - firstLength) ++
    Bits.lowestFirst 5 (distanceLengths.length - 1) ++
    Bits.lowestFirst 4 ((orderedLengths lengths).length - 4) ++
    (orderedLengths lengths).flatMap (Bits.lowestFirst 3) ++
    (SpelledLength.ofLengths lengths).flatMap fun spelled =>
      words.getD spelled.symbol [] ++ spelled.extra

theorem fewLengthSymbols : lengthSymbols ≤ 2 ^ 7 := by decide

theorem lt_of_mem_orderedLengths {lengths : List Nat} {n : Nat}
    (member : n ∈ orderedLengths lengths) : n < 2 ^ 3 := by
  obtain ⟨symbol, among, rfl⟩ := List.mem_map.mp (List.mem_of_mem_take member)
  have below : symbol < lengthSymbols :=
    (by decide : ∀ symbol ∈ lengthOrder, symbol < lengthSymbols) symbol among
  obtain ⟨length, found, limited, -⟩ := exists_length (by decide : 0 < 7) fewLengthSymbols
    ((SpelledLength.ofLengths lengths).map SpelledLength.symbol) below
  rw [lengthsOfSpelled, List.getD_eq_getElem?_getD, found]
  exact Nat.lt_succ_of_le limited

theorem length_orderedLengths (lengths : List Nat) :
    4 ≤ (orderedLengths lengths).length ∧ (orderedLengths lengths).length ≤ 19 := by
  have all : (lengthOrder.map fun symbol => (lengthsOfSpelled lengths).getD symbol 0).length = 19 :=
    List.length_map _
  have bounds := @length_trimmed 4
    (lengthOrder.map fun symbol => (lengthsOfSpelled lengths).getD symbol 0)
  rw [all] at bounds
  exact bounds (by decide)

/-- All symbols in which lengths are spelled are symbols of the code for lengths. -/
theorem SpelledLength.SpellsAll.symbol_lt {symbols : List SpelledLength} {done after : List Nat}
    (spells : SpellsAll symbols done after) :
    ∀ spelled ∈ symbols, spelled.symbol < lengthSymbols := by
  induction spells with
  | nil => exact nofun
  | cons here _ ih =>
    refine List.forall_mem_cons.mpr ⟨?_, ih⟩
    cases here with
    | plain short => exact Nat.lt_trans short (by decide : 16 < lengthSymbols)
    | repeats => exact (by decide : 16 < lengthSymbols)
    | zeros => exact (by decide : 17 < lengthSymbols)
    | manyZeros => exact (by decide : 18 < lengthSymbols)

/-- Lengths that were spelled are read in the code that was made for what they are spelled in. -/
theorem takes_spelled {lengths : List Nat} {code : HuffmanCode}
    (short : ∀ length ∈ lengths, length < 16)
    (made : HuffmanCode.ofLengths? (lengthsOfSpelled lengths) = some code) :
    BitSource.Takes (fun source => codeLengths? code lengths.length lengths.length source [])
      ((SpelledLength.ofLengths lengths).flatMap fun spelled =>
        code.toWords.getD spelled.symbol [] ++ spelled.extra) lengths := by
  have spells := SpelledLength.spellsAll_ofLengths short
  have spoken : ∀ spelled ∈ SpelledLength.ofLengths lengths,
      BitSource.Takes code.symbol? (code.toWords.getD spelled.symbol []) spelled.symbol := by
    intro spelled member
    obtain ⟨length, found, limited, positive⟩ := exists_length (by decide : 0 < 7) fewLengthSymbols
      ((SpelledLength.ofLengths lengths).map SpelledLength.symbol) (spells.symbol_lt spelled member)
    exact (HuffmanCode.takes_word made found (positive (List.mem_map_of_mem member))
      (Nat.le_trans limited (by decide))).1
  have takes := @takes_codeLengths? code lengths.length lengths.length [] _ code.toWords _ spells
    List.length_reverse spoken (Nat.le_add_right _ _)
  rwa [List.reverse_reverse] at takes

/-- The codes that a block brings along are read. -/
theorem ownCodes?_of_ahead {literalLengths distanceLengths : List Nat} {lengthCode : HuffmanCode}
    (literal : HuffmanCode.ofLengths? literalLengths = some literals)
    (distance : HuffmanCode.ofLengths? distanceLengths = some distances)
    (spelling : HuffmanCode.ofLengths? (lengthsOfSpelled (literalLengths ++ distanceLengths)) =
      some lengthCode)
    (literalBounds : firstLength ≤ literalLengths.length ∧ literalLengths.length ≤ literalSymbols)
    (distanceBounds : 1 ≤ distanceLengths.length ∧ distanceLengths.length ≤ distanceSymbols)
    (short : ∀ length ∈ literalLengths ++ distanceLengths, length < 16)
    {source : BitSource} {rest : List Bool}
    (h : source.ahead = ownHeader literalLengths distanceLengths lengthCode.toWords ++ rest) :
    ∃ next, next.ahead = rest ∧ ownCodes? source = some (literals, distances, next) := by
  obtain ⟨leastLiterals, mostLiterals⟩ := literalBounds
  obtain ⟨leastDistances, mostDistances⟩ := distanceBounds
  obtain ⟨leastOrder, mostOrder⟩ := length_orderedLengths (literalLengths ++ distanceLengths)
  have ordered := lengths_of_ordered (length_ofCounts (by decide) fewLengthSymbols
    ((SpelledLength.ofLengths (literalLengths ++ distanceLengths)).map SpelledLength.symbol))
  -- the header is read part by part
  rw [ownHeader] at h
  simp only [List.append_assoc] at h
  obtain ⟨first, literalCount, h⟩ := BitSource.takes_lowestFirst
    (by simp only [firstLength, literalSymbols] at *; omega) source _ h
  obtain ⟨second, distanceCount, h⟩ := BitSource.takes_lowestFirst
    (by simp only [distanceSymbols] at *; omega) first _ h
  obtain ⟨third, orderCount, h⟩ := BitSource.takes_lowestFirst (by omega) second _ h
  obtain ⟨fourth, triples, h⟩ := takes_triples? (fun _ => lt_of_mem_orderedLengths) third _ h
  obtain ⟨last, read, h⟩ := takes_spelled short spelling fourth _ h
  refine ⟨last, h, ?_⟩
  dsimp only at read
  rw [List.length_append] at read
  have inRange : ¬ ((literalSymbols < literalLengths.length ||
      distanceSymbols < distanceLengths.length) = true) := by
    simp only [Bool.or_eq_true, decide_eq_true_eq]
    omega
  have back : HuffmanCode.ofLengths? ((List.range lengthSymbols).map fun symbol =>
      ((lengthOrder.zip (orderedLengths (literalLengths ++ distanceLengths))).lookup
        symbol).getD 0) = some lengthCode :=
    (congrArg HuffmanCode.ofLengths? ordered).trans spelling
  rw [ownCodes?, literalCount]
  simp only [Option.bind_eq_bind, Option.bind_some, distanceCount, orderCount, triples, back,
    Nat.sub_add_cancel leastOrder, Nat.sub_add_cancel leastLiterals,
    Nat.sub_add_cancel leastDistances]
  rw [if_neg inRange, read]
  simp only [Option.bind_some, List.take_left, List.drop_left, literal, distance]
  rfl

/-- The lengths for the words of the bytes, the end of the block and the lengths that pieces have. -/
def ownLiteralLengths (pieces : List Piece) : List Nat :=
  trimmed firstLength (CodeLengths.ofCounts HuffmanCode.maxLength
    (occurrences literalSymbols (endOfBlock :: pieces.map Piece.symbol)))

/-- The lengths for the words of the distances that pieces have. -/
def ownDistanceLengths (pieces : List Piece) : List Nat :=
  trimmed 1 (CodeLengths.ofCounts HuffmanCode.maxLength
    (occurrences distanceSymbols (pieces.filterMap Piece.distanceSymbol?)))

theorem ownBits?_some {bits : List Bool} (made : ownBits? pieces = some bits) :
    ∃ lengthCode literals distances,
      HuffmanCode.ofLengths? (lengthsOfSpelled
        (ownLiteralLengths pieces ++ ownDistanceLengths pieces)) = some lengthCode ∧
      HuffmanCode.ofLengths? (ownLiteralLengths pieces) = some literals ∧
      HuffmanCode.ofLengths? (ownDistanceLengths pieces) = some distances ∧
      bits = Bits.lowestFirst 2 2 ++ (ownHeader (ownLiteralLengths pieces)
        (ownDistanceLengths pieces) lengthCode.toWords ++ codedBits literals distances pieces) := by
  unfold ownBits? at made
  obtain ⟨lengthCode, spelling, made⟩ := Option.bind_eq_some_iff.mp made
  obtain ⟨literals, literal, made⟩ := Option.bind_eq_some_iff.mp made
  obtain ⟨distances, distance, made⟩ := Option.bind_eq_some_iff.mp made
  refine ⟨lengthCode, literals, distances, spelling, literal, distance, ?_⟩
  rw [← Option.some.inj made]
  simp only [ownHeader, List.append_assoc]
  rfl

/-- A block with codes of its own is read as its pieces. -/
theorem block?_of_ownBits? {bits rest : List Bool} (fits : ∀ piece ∈ pieces, piece.Fits size)
    (near : size ≤ 32768) (made : ownBits? pieces = some bits) {source : BitSource}
    (out : Inflated) (h : source.ahead = bits ++ rest) :
    ∃ next, next.ahead = rest ∧
      block? source out = some (next, Piece.expandAll pieces out) := by
  have pos : 0 < HuffmanCode.maxLength := by decide
  have fewLiterals : literalSymbols ≤ 2 ^ HuffmanCode.maxLength := by decide
  have fewDistances : distanceSymbols ≤ 2 ^ HuffmanCode.maxLength := by decide
  obtain ⟨lengthCode, literals, distances, spelling, literal, distance, rfl⟩ := ownBits?_some made
  have literalBounds : firstLength ≤ (ownLiteralLengths pieces).length ∧
      (ownLiteralLengths pieces).length ≤ literalSymbols := by
    have bounds := @length_trimmed firstLength (CodeLengths.ofCounts HuffmanCode.maxLength
      (occurrences literalSymbols (endOfBlock :: pieces.map Piece.symbol)))
    rw [length_ofCounts pos fewLiterals] at bounds
    exact bounds (by decide)
  have distanceBounds : 1 ≤ (ownDistanceLengths pieces).length ∧
      (ownDistanceLengths pieces).length ≤ distanceSymbols := by
    have bounds := @length_trimmed 1 (CodeLengths.ofCounts HuffmanCode.maxLength
      (occurrences distanceSymbols (pieces.filterMap Piece.distanceSymbol?)))
    rw [length_ofCounts pos fewDistances] at bounds
    exact bounds (by decide)
  have short : ∀ length ∈ ownLiteralLengths pieces ++ ownDistanceLengths pieces, length < 16 := by
    intro length member
    rcases List.mem_append.mp member with member | member
    · exact Nat.lt_succ_of_le (le_of_mem_ofCounts pos fewLiterals (List.mem_of_mem_take member))
    · exact Nat.lt_succ_of_le (le_of_mem_ofCounts pos fewDistances (List.mem_of_mem_take member))
  have ends : literals.Says endOfBlock := says_of_occurrences pos fewLiterals (Nat.le_refl _)
    literal List.mem_cons_self (by decide)
  have said : ∀ piece ∈ pieces, piece.Said literals distances := fun piece member => {
    symbol := says_of_occurrences pos fewLiterals (Nat.le_refl _) literal
      (List.mem_cons_of_mem _ (List.mem_map_of_mem member)) (Piece.symbol_lt (fits piece member))
    distance := fun symbol h => says_of_occurrences pos fewDistances (Nat.le_refl _) distance
      (List.mem_filterMap.mpr ⟨piece, member, h⟩) (Piece.distanceSymbol?_lt h) }
  rw [List.append_assoc, List.append_assoc] at h
  obtain ⟨next, kind, h⟩ := BitSource.takes_lowestFirst (by decide : 2 < 2 ^ 2) source _ h
  obtain ⟨behind, h, codes⟩ := ownCodes?_of_ahead literal distance spelling literalBounds
    distanceBounds short h
  obtain ⟨last, h, read⟩ := codedBlock_of_codedBits said fits near ends out h
  refine ⟨last, h, ?_⟩
  rw [block?, kind]
  simp only [Option.bind_eq_bind, Option.bind_some, codes, read]
  rfl

end Blocks

/-! ### Runs -/

/-- A deflated run is not too long.  It is one block of its pieces, marked as the last one, which is
    shorter than the run unless that is very short. -/
theorem deflate?_some {run deflated : Bytes} (made : deflate? run = some deflated) :
    run.length ≤ deflatedLimit ∧ ∃ bits, deflated = Bits.toBytes (true :: bits) ∧
      (fixedBits? (pieces run) = some bits ∨ ownBits? (pieces run) = some bits) ∧
      (alwaysDeflated < run.length → (true :: bits).length / 8 + 1 < run.length) := by
  have packed : ∀ {bits : List Bool}, (if run.length ≤ alwaysDeflated ||
      (true :: bits).length / 8 + 1 < run.length then some (Bits.toBytes (true :: bits)) else none) =
        some deflated → deflated = Bits.toBytes (true :: bits) ∧
          (alwaysDeflated < run.length → (true :: bits).length / 8 + 1 < run.length) := by
    intro bits h
    split at h
    case isTrue pays =>
      simp only [Bool.or_eq_true, decide_eq_true_eq] at pays
      exact ⟨(Option.some.inj h).symm, fun long => pays.resolve_left (Nat.not_le.mpr long)⟩
    case isFalse => cases h
  unfold deflate? at made
  dsimp only at made
  split at made
  case isTrue short =>
    refine ⟨short, ?_⟩
    split at made
    case isTrue =>
      obtain ⟨bits, block, made⟩ := Option.bind_eq_some_iff.mp made
      exact ⟨bits, (packed made).1, .inl block, (packed made).2⟩
    case isFalse =>
      obtain ⟨bits, block, made⟩ := Option.bind_eq_some_iff.mp made
      exact ⟨bits, (packed made).1, .inr block, (packed made).2⟩
  case isFalse => cases made

/-- What a run was deflated to is inflated to the run, and leaves what follows but for the rest of the
    byte that is begun. -/
theorem inflate?_of_deflate? {run deflated : Bytes} (made : deflate? run = some deflated)
    (rest : Bytes) :
    ∃ source, inflate? (.ofBytes (deflated ++ rest)) = some (run, source) ∧
      source.align = .ofBytes rest := by
  obtain ⟨short, bits, rfl, block, -⟩ := deflate?_some made
  obtain ⟨expands, fits⟩ := pieces_spec run
  have near : run.length ≤ 32768 := Nat.le_trans short (by decide)
  obtain ⟨filler, few, written⟩ := Bits.ofBytes_toBytes (true :: bits)
  have ahead : (BitSource.ofBytes (Bits.toBytes (true :: bits) ++ rest)).ahead =
      true :: (bits ++ (filler ++ Bits.ofBytes rest)) := by
    rw [BitSource.ahead_ofBytes, Bits.ofBytes_append, written, List.append_assoc, List.cons_append]
  obtain ⟨next, marked, behind⟩ := BitSource.bit?_of_ahead ahead
  obtain ⟨last, left, read⟩ : ∃ last, last.ahead = filler ++ Bits.ofBytes rest ∧
      block? next #[] = some (last, run.toArray) := by
    rw [← expands]
    rcases block with fixed | own
    · exact block?_of_fixedBits? fits near fixed #[] behind
    · exact block?_of_ownBits? fits near own #[] behind
  refine ⟨last, ?_, BitSource.align_of_ahead few left⟩
  have whole : markedBlock? (.ofBytes (Bits.toBytes (true :: bits) ++ rest)) #[] =
      some (last, run.toArray, true) := by
    rw [markedBlock?, marked]
    simp only [Option.bind_eq_bind, Option.bind_some, read]
    rfl
  rw [inflate?, blocks?, whole]
  rfl

end ObjectWire.Zlib
