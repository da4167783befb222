import Mathlib.Algebra.Ring.Nat
import ObjectWire.Zlib.Inflate

/-!
# How much of a source is left

Reading never gives bits back, and a block takes at least the bit in front of it.  Every symbol takes a
bit at least and stands for no more bytes than the longest repetition has, so the bits that are gone
bound the bytes that are out: nothing inflates without limit.
-/

namespace ObjectWire.Zlib

namespace BitSource

variable {α β : Type}

/-- The number of unread bits. -/
def unread (source : BitSource) : Nat := 8 * source.bytes.length - source.used

theorem unread_le_size (source : BitSource) : source.unread ≤ source.size := Nat.sub_le _ _

/-- If the read succeeds, what it leaves of the source is no more than there was. -/
def Shrinks (source : BitSource) (left : α → BitSource) (read : Option α) : Prop :=
  ∀ answer ∈ read, (left answer).unread ≤ source.unread

section Shrinks

variable {source : BitSource} {left : α → BitSource}

theorem shrinks_none : source.Shrinks left none := nofun

theorem shrinks_some {answer : α} (h : (left answer).unread ≤ source.unread) :
    source.Shrinks left (some answer) := by
  rintro _ ⟨⟩
  exact h

theorem Shrinks.bind {final : β → BitSource} {read : Option α} {next : α → Option β}
    (first : source.Shrinks left read) (second : ∀ answer, (left answer).Shrinks final (next answer)) :
    source.Shrinks final (read >>= next) := by
  intro answer h
  obtain ⟨middle, taken, rest⟩ := Option.bind_eq_some_iff.mp h
  exact Nat.le_trans (second middle answer rest) (first middle taken)

/-- What is read from no source takes nothing from one. -/
theorem shrinks_bind {final : β → BitSource} {found : Option α} {next : α → Option β}
    (each : ∀ answer, source.Shrinks final (next answer)) :
    source.Shrinks final (found >>= next) := by
  have same : source.Shrinks (fun _ => source) found := fun _ _ => Nat.le_refl _
  exact same.bind each

end Shrinks

/-- The next bit is one bit. -/
theorem unread_bit? {source next : BitSource} {bit : Nat} (h : source.bit? = some (bit, next)) :
    next.unread + 1 = source.unread := by
  obtain ⟨bytes, used⟩ := source
  cases bytes with
  | nil => cases h
  | cons b rest =>
    simp only [bit?] at h
    split at h
    case isTrue full =>
      cases h
      subst full
      simp only [unread, List.length_cons]
      omega
    case isFalse more =>
      cases h
      have below : used.val < 7 := by omega
      have later : (used + 1).val = used.val + 1 := by
        rw [Fin.val_add, Nat.mod_eq_of_lt (by omega)]
        rfl
      simp only [unread, List.length_cons, later]
      omega

theorem shrinks_bit? (source : BitSource) : source.Shrinks Prod.snd source.bit? := by
  rintro ⟨bit, next⟩ taken
  exact Nat.le_of_lt (Nat.le_of_eq (unread_bit? taken))

theorem shrinks_bits? (n : Nat) (source : BitSource) : source.Shrinks Prod.snd (source.bits? n) := by
  induction n generalizing source with
  | zero => exact shrinks_some (Nat.le_refl _)
  | succ n ih =>
    refine (shrinks_bit? source).bind ?_
    rintro ⟨low, next⟩
    exact (ih next).bind fun _ => shrinks_some (Nat.le_refl _)

theorem align_used (source : BitSource) : source.align.used = 0 := by
  unfold align
  split
  case isTrue h => exact h
  case isFalse => rfl

theorem unread_align (source : BitSource) : source.align.unread ≤ source.unread := by
  unfold align
  split
  case isTrue => exact Nat.le_refl _
  case isFalse =>
    simp only [unread, List.length_drop, Fin.val_zero]
    omega

theorem shrinks_bytes? (n : Nat) (source : BitSource) :
    source.Shrinks Prod.snd (source.bytes? n) := by
  have fewer := unread_align source
  unfold bytes?
  dsimp only
  split
  case isTrue =>
    apply shrinks_some
    simp only [unread, align_used, List.length_drop, Fin.val_zero] at fewer ⊢
    omega
  case isFalse => exact shrinks_none

end BitSource

open BitSource

/-- A symbol takes a bit at least. -/
theorem HuffmanCode.unread_symbolFrom? {lengths : List (List Nat)} {word first : Nat}
    {source : BitSource} {answer : Nat × BitSource}
    (h : symbolFrom? lengths word first source = some answer) :
    answer.2.unread < source.unread := by
  induction lengths generalizing word first source with
  | nil => cases h
  | cons symbols longer ih =>
    unfold symbolFrom? at h
    split at h
    case h_1 => cases h
    case h_2 bit next taken =>
      have one := unread_bit? taken
      dsimp only at h
      split at h
      case h_1 =>
        cases h
        exact Nat.lt_of_succ_le (Nat.le_of_eq one)
      case h_2 => exact Nat.lt_trans (ih h) (Nat.lt_of_succ_le (Nat.le_of_eq one))

theorem HuffmanCode.shrinks_symbol? (code : HuffmanCode) (source : BitSource) :
    source.Shrinks Prod.snd (code.symbol? source) :=
  fun _ read => Nat.le_of_lt (unread_symbolFrom? read)

theorem shrinks_extended? (bases : List (Nat × Nat)) (symbol : Nat) (source : BitSource) :
    source.Shrinks Prod.snd (extended? bases symbol source) := by
  unfold extended?
  cases bases[symbol]? with
  | none => exact shrinks_none
  | some range =>
    exact (shrinks_bits? range.2 source).bind fun _ => shrinks_some (Nat.le_refl _)

theorem shrinks_triples? (count : Nat) (source : BitSource) :
    source.Shrinks Prod.snd (triples? count source) := by
  induction count generalizing source with
  | zero => exact shrinks_some (Nat.le_refl _)
  | succ count ih =>
    refine (shrinks_bits? 3 source).bind ?_
    rintro ⟨first, next⟩
    exact (ih next).bind fun _ => shrinks_some (Nat.le_refl _)

theorem shrinks_codeLengths? (code : HuffmanCode) (count fuel : Nat) (source : BitSource)
    (done : List Nat) : source.Shrinks Prod.snd (codeLengths? code count fuel source done) := by
  induction fuel generalizing source done with
  | zero =>
    unfold codeLengths?
    split
    · exact shrinks_some (Nat.le_refl _)
    · exact shrinks_none
  | succ fuel ih =>
    unfold codeLengths?
    split
    · exact shrinks_some (Nat.le_refl _)
    split
    · exact shrinks_none
    refine (code.shrinks_symbol? source).bind ?_
    rintro ⟨symbol, next⟩
    dsimp only
    split
    · exact ih _ _
    split
    · cases done.head? with
      | none => exact shrinks_none
      | some last => exact (shrinks_bits? 2 next).bind fun _ => ih _ _
    split
    · exact (shrinks_bits? 3 next).bind fun _ => ih _ _
    · exact (shrinks_bits? 7 next).bind fun _ => ih _ _

theorem shrinks_ownCodes? (source : BitSource) :
    source.Shrinks (·.2.2) (ownCodes? source) := by
  refine (shrinks_bits? 5 source).bind fun ⟨literalCount, next⟩ => ?_
  refine (shrinks_bits? 5 next).bind fun ⟨distanceCount, next⟩ => ?_
  refine (shrinks_bits? 4 next).bind fun ⟨orderCount, next⟩ => ?_
  refine (shrinks_triples? (orderCount + 4) next).bind fun ⟨orderLengths, next⟩ => ?_
  refine shrinks_bind fun lengthCode => ?_
  dsimp only
  split
  case isTrue => exact shrinks_none
  case isFalse =>
    refine (shrinks_codeLengths? lengthCode _ _ next []).bind fun ⟨lengths, next⟩ => ?_
    exact shrinks_bind fun _ => shrinks_bind fun _ => shrinks_some (Nat.le_refl _)

theorem shrinks_repetition? (distances : HuffmanCode) (symbol : Nat) (source : BitSource)
    (out : Inflated) : source.Shrinks Prod.fst (repetition? distances symbol source out) := by
  refine (shrinks_extended? _ _ source).bind fun ⟨length, next⟩ => ?_
  refine (distances.shrinks_symbol? next).bind fun ⟨symbol, next⟩ => ?_
  exact (shrinks_extended? _ _ next).bind fun _ => shrinks_some (Nat.le_refl _)

theorem shrinks_codedBlock (literals distances : HuffmanCode) (fuel : Nat) (source : BitSource)
    (out : Inflated) :
    source.Shrinks Prod.fst (codedBlock literals distances fuel source out) := by
  induction fuel generalizing source out with
  | zero =>
    rw [codedBlock]
    exact shrinks_none
  | succ fuel ih =>
    rw [codedBlock]
    refine (literals.shrinks_symbol? source).bind ?_
    rintro ⟨symbol, next⟩
    dsimp only
    split
    · exact ih next _
    split
    · exact shrinks_some (Nat.le_refl _)
    · exact (shrinks_repetition? distances symbol next out).bind fun _ => ih _ _

theorem shrinks_storedBlock (source : BitSource) (out : Inflated) :
    source.Shrinks Prod.fst (storedBlock source out) := by
  refine (shrinks_bytes? 4 source).bind fun ⟨head, next⟩ => ?_
  dsimp only
  split
  case isTrue =>
    exact (shrinks_bytes? _ next).bind fun _ => shrinks_some (Nat.le_refl _)
  case isFalse => exact shrinks_none

theorem shrinks_block? (source : BitSource) (out : Inflated) :
    source.Shrinks Prod.fst (block? source out) := by
  refine (shrinks_bits? 2 source).bind fun ⟨kind, next⟩ => ?_
  dsimp only
  split
  · exact shrinks_storedBlock next out
  split
  · exact shrinks_bind fun literals => shrinks_bind fun distances =>
      shrinks_codedBlock literals distances _ next out
  split
  · exact (shrinks_ownCodes? next).bind fun ⟨literals, distances, next⟩ =>
      shrinks_codedBlock literals distances _ next out
  · exact shrinks_none

/-! Bits and the bytes they yield. -/

/-- The bytes that may be out once all bits of a source are read. -/
def worth (source : BitSource) (out : Inflated) : Nat :=
  out.size + longestRepetition * source.unread

/-- If the read succeeds, the bits it takes are worth the bytes it puts out. -/
def Pays (source : BitSource) (out : Inflated) (read : Option (BitSource × Inflated)) : Prop :=
  ∀ answer ∈ read, worth answer.1 answer.2 ≤ worth source out

section Pays

variable {source : BitSource} {out : Inflated}

theorem pays_none : Pays source out none := nofun

/-- What is read before may take bits and put nothing out. -/
theorem BitSource.Shrinks.pays {α : Type} {left : α → BitSource} {read : Option α}
    {next : α → Option (BitSource × Inflated)} (first : source.Shrinks left read)
    (second : ∀ answer ∈ read, Pays (left answer) out (next answer)) :
    Pays source out (read >>= next) := by
  intro answer h
  obtain ⟨middle, taken, rest⟩ := Option.bind_eq_some_iff.mp h
  have fewer := Nat.mul_le_mul_left longestRepetition (first middle taken)
  have more := second middle taken answer rest
  unfold worth at more ⊢
  omega

theorem pays_bind {α : Type} {found : Option α} {next : α → Option (BitSource × Inflated)}
    (each : ∀ answer, Pays source out (next answer)) : Pays source out (found >>= next) := by
  have same : source.Shrinks (fun _ => source) found := fun _ _ => Nat.le_refl _
  exact same.pays fun answer _ => each answer

/-- A bit is worth as many bytes as the longest repetition has. -/
theorem worth_le_of_bit {next : BitSource} {more : Inflated} (fewer : next.unread < source.unread)
    (bytes : more.size ≤ out.size + longestRepetition) : worth next more ≤ worth source out := by
  have bits := Nat.mul_le_mul_left longestRepetition (Nat.succ_le_of_lt fewer)
  rw [Nat.mul_succ] at bits
  unfold worth
  omega

theorem worth_le_of_shrinks {next : BitSource} (fewer : next.unread ≤ source.unread) :
    worth next out ≤ worth source out :=
  Nat.add_le_add_left (Nat.mul_le_mul_left _ fewer) _

end Pays

theorem size_repeatBytes (distance length : Nat) (out : Inflated) :
    (repeatBytes distance length out).size = out.size + length := by
  induction length generalizing out with
  | zero => rfl
  | succ length ih =>
    rw [repeatBytes, ih, Array.size_push]
    omega

theorem bits?_lt {n value : Nat} {source next : BitSource}
    (h : source.bits? n = some (value, next)) : value < 2 ^ n := by
  induction n generalizing source value with
  | zero =>
    cases h
    exact Nat.one_pos
  | succ n ih =>
    obtain ⟨⟨low, middle⟩, first, h⟩ := Option.bind_eq_some_iff.mp h
    obtain ⟨⟨high, last⟩, others, h⟩ := Option.bind_eq_some_iff.mp h
    cases h
    have bit : low < 2 := by
      unfold bit? at first
      split at first
      case h_1 => cases first
      case h_2 =>
        dsimp only at first
        split at first <;> cases first <;> exact Nat.mod_lt _ (by decide)
    have rest := ih others
    rw [Nat.pow_succ]
    omega

/-- No length symbol stands for more than the longest repetition. -/
theorem length_le {symbol length : Nat} {source next : BitSource}
    (h : extended? lengthBases symbol source = some (length, next)) :
    length ≤ longestRepetition := by
  have bound : ∀ range ∈ lengthBases, range.1 + 2 ^ range.2 ≤ longestRepetition + 1 := by decide
  obtain ⟨⟨base, extra⟩, found, h⟩ := Option.bind_eq_some_iff.mp h
  obtain ⟨⟨more, last⟩, taken, h⟩ := Option.bind_eq_some_iff.mp h
  cases h
  have below := bound _ (List.mem_of_getElem? found)
  have few := bits?_lt taken
  simp only at below few ⊢
  omega

theorem size_repetition? {distances : HuffmanCode} {symbol : Nat} {source next : BitSource}
    {out more : Inflated} (h : repetition? distances symbol source out = some (next, more)) :
    more.size ≤ out.size + longestRepetition := by
  unfold repetition? at h
  obtain ⟨⟨length, reached⟩, long, h⟩ := Option.bind_eq_some_iff.mp h
  obtain ⟨⟨symbol, reached⟩, -, h⟩ := Option.bind_eq_some_iff.mp h
  obtain ⟨⟨distance, reached⟩, -, h⟩ := Option.bind_eq_some_iff.mp h
  cases h
  rw [size_repeatBytes]
  exact Nat.add_le_add_left (length_le long) _

theorem pays_codedBlock (literals distances : HuffmanCode) (fuel : Nat) (source : BitSource)
    (out : Inflated) : Pays source out (codedBlock literals distances fuel source out) := by
  induction fuel generalizing source out with
  | zero =>
    rw [codedBlock]
    exact pays_none
  | succ fuel ih =>
    intro answer h
    rw [codedBlock] at h
    obtain ⟨⟨symbol, next⟩, taken, h⟩ := Option.bind_eq_some_iff.mp h
    have fewer : next.unread < source.unread := HuffmanCode.unread_symbolFrom? taken
    dsimp only at h
    split at h
    case isTrue =>
      refine Nat.le_trans (ih next _ answer h) (worth_le_of_bit fewer ?_)
      rw [Array.size_push]
      exact Nat.add_le_add_left (by decide) _
    case isFalse =>
      split at h
      case isTrue =>
        cases h
        exact worth_le_of_bit fewer (Nat.le_add_right _ _)
      case isFalse =>
        obtain ⟨⟨last, more⟩, repeated, h⟩ := Option.bind_eq_some_iff.mp h
        have left := shrinks_repetition? distances symbol next out _ repeated
        exact Nat.le_trans (ih last more answer h)
          (worth_le_of_bit (Nat.lt_of_le_of_lt left fewer) (size_repetition? repeated))

theorem unread_bytes? {n : Nat} {source next : BitSource} {run : Bytes}
    (h : source.bytes? n = some (run, next)) :
    run.length = n ∧ next.unread + 8 * n ≤ source.unread := by
  have fewer := unread_align source
  unfold bytes? at h
  dsimp only at h
  split at h
  case isTrue enough =>
    cases h
    simp only [unread, align_used, Fin.val_zero] at fewer
    simp only [unread, List.length_drop, List.length_take, Fin.val_zero]
    omega
  case isFalse => cases h

theorem pays_storedBlock (source : BitSource) (out : Inflated) :
    Pays source out (storedBlock source out) := by
  refine (shrinks_bytes? 4 source).pays fun ⟨head, next⟩ _ => ?_
  dsimp only
  split
  case isTrue =>
    intro answer h
    obtain ⟨⟨run, last⟩, taken, h⟩ := Option.bind_eq_some_iff.mp h
    cases h
    obtain ⟨length, bits⟩ := unread_bytes? taken
    have size : (out ++ run).size = out.size + run.length := by
      rw [← Array.length_toList, Array.toList_appendList, List.length_append, Array.length_toList]
    have long : 1 ≤ longestRepetition := by decide
    have each := Nat.mul_le_mul_left longestRepetition bits
    have one := Nat.mul_le_mul_right (8 * run.length) long
    rw [Nat.mul_add, ← length] at each
    simp only [worth, size]
    omega
  case isFalse => exact pays_none

theorem pays_block? (source : BitSource) (out : Inflated) :
    Pays source out (block? source out) := by
  refine (shrinks_bits? 2 source).pays fun ⟨kind, next⟩ _ => ?_
  dsimp only
  split
  · exact pays_storedBlock next out
  split
  · exact pays_bind fun literals => pays_bind fun distances =>
      pays_codedBlock literals distances _ next out
  split
  · exact (shrinks_ownCodes? next).pays fun ⟨literals, distances, next⟩ _ =>
      pays_codedBlock literals distances _ next out
  · exact pays_none

/-- A block takes a bit at least, and what it takes is worth what it puts out. -/
theorem unread_markedBlock? {source next : BitSource} {out more : Inflated} {last : Bool}
    (h : markedBlock? source out = some (next, more, last)) :
    next.unread < source.unread ∧ worth next more ≤ worth source out := by
  obtain ⟨⟨bit, behind⟩, marked, h⟩ := Option.bind_eq_some_iff.mp h
  obtain ⟨left, block, h⟩ := Option.bind_eq_some_iff.mp h
  cases h
  have mark : behind.unread < source.unread := Nat.lt_of_succ_le (Nat.le_of_eq (unread_bit? marked))
  constructor
  · exact Nat.lt_of_le_of_lt (shrinks_block? behind out left block) mark
  · exact Nat.le_trans (pays_block? behind out left block) (worth_le_of_shrinks (Nat.le_of_lt mark))

end ObjectWire.Zlib
