import ObjectWire.Proofs.Zlib.Lossless

/-!
# Streams that are cut off

A stream that is read to its end is read the same way if more bytes follow: they are never looked
at, and stay behind what is left.  So a stream that ends with its checksum is refused wherever it is
cut, whoever has written it: if a part of it could be read on its own, the bytes that were cut off
would be left over when the whole is read.
-/

namespace ObjectWire.Zlib

namespace BitSource

/-- The source with more bytes behind it. -/
def followedBy (more : Bytes) (source : BitSource) : BitSource :=
  ⟨source.bytes ++ more, source.used⟩

theorem size_followedBy (more : Bytes) (source : BitSource) :
    (source.followedBy more).size = source.size + 8 * more.length := by
  simp only [size, followedBy, List.length_append]
  omega

end BitSource

open BitSource

/-- If the first read succeeds, so does the second, with an answer that goes with the first one. -/
def Lasts {α : Type} (later : α → α) (short long : Option α) : Prop :=
  ∀ answer ∈ short, long = some (later answer)

section Lasts

variable {α β : Type} {later : α → α} {final : β → β}

theorem lasts_none {long : Option α} : Lasts later none long := nofun

theorem lasts_some {answer : α} : Lasts later (some answer) (some (later answer)) := by
  rintro _ ⟨⟩
  rfl

theorem Lasts.bind {short long : Option α} {next next' : α → Option β}
    (first : Lasts later short long)
    (second : ∀ answer, Lasts final (next answer) (next' (later answer))) :
    Lasts final (short >>= next) (long >>= next') := by
  intro answer h
  obtain ⟨middle, taken, rest⟩ := Option.bind_eq_some_iff.mp h
  rw [first middle taken]
  exact second middle answer rest

/-- What is found without reading is the same in both. -/
theorem lasts_bind {found : Option α} {next next' : α → Option β}
    (each : ∀ answer, Lasts final (next answer) (next' answer)) :
    Lasts final (found >>= next) (found >>= next') := by
  have same : Lasts id found found := fun _ known => known
  exact same.bind each

end Lasts

/-- The same answer, with more bytes behind the source that is left. -/
abbrev ahead {α : Type} (more : Bytes) : α × BitSource → α × BitSource :=
  Prod.map id (followedBy more)

/-- The same bytes out, with more bytes behind the source that is left. -/
abbrev behind {α : Type} (more : Bytes) : BitSource × α → BitSource × α :=
  Prod.map (followedBy more) id

variable {more : Bytes}

theorem lasts_bit? (source : BitSource) :
    Lasts (ahead more) source.bit? (source.followedBy more).bit? := by
  obtain ⟨bytes, used⟩ := source
  cases bytes with
  | nil => exact lasts_none
  | cons b rest =>
    show Lasts (ahead more)
      (if used = 7 then some (_, ⟨rest, 0⟩) else some (_, ⟨b :: rest, used + 1⟩))
      (if used = 7 then some (_, ⟨rest ++ more, 0⟩) else some (_, ⟨b :: rest ++ more, used + 1⟩))
    by_cases whole : used = 7
    · rw [if_pos whole, if_pos whole]
      exact lasts_some
    · rw [if_neg whole, if_neg whole]
      exact lasts_some

theorem lasts_bits? (n : Nat) (source : BitSource) :
    Lasts (ahead more) (source.bits? n) ((source.followedBy more).bits? n) := by
  induction n generalizing source with
  | zero => exact lasts_some
  | succ n ih =>
    refine (lasts_bit? source).bind fun ⟨low, next⟩ => ?_
    exact (ih next).bind fun _ => lasts_some

theorem align_followedBy {source : BitSource} (there : source.used = 0 ∨ source.bytes ≠ []) :
    (source.followedBy more).align = source.align.followedBy more := by
  obtain ⟨bytes, used⟩ := source
  unfold align followedBy
  dsimp only
  split
  case isTrue => rfl
  case isFalse begun =>
    cases bytes with
    | nil => exact absurd rfl (there.resolve_left begun)
    | cons b rest => rfl

/-- Whole bytes; a byte that is begun must be there for its rest to be dropped. -/
theorem lasts_bytes? {n : Nat} {source : BitSource} (there : source.used = 0 ∨ 0 < n) :
    Lasts (ahead more) (source.bytes? n) ((source.followedBy more).bytes? n) := by
  intro answer h
  unfold bytes? at h ⊢
  dsimp only at h ⊢
  split at h
  case isFalse => cases h
  case isTrue enough =>
    have present : source.used = 0 ∨ source.bytes ≠ [] := by
      refine there.imp_right fun positive empty => ?_
      have longer : source.align.bytes.length ≤ source.bytes.length := by
        unfold align
        split
        · exact Nat.le_refl _
        · exact List.length_drop ▸ Nat.sub_le _ _
      rw [empty, List.length_nil] at longer
      omega
    have still : n ≤ (source.align.followedBy more).bytes.length := by
      simp only [followedBy, List.length_append]
      omega
    cases h
    rw [align_followedBy present, if_pos still]
    simp only [followedBy, Prod.map, id, List.take_append_of_le_length enough,
      List.drop_append_of_le_length enough]

theorem used_of_bytes? {n : Nat} {source next : BitSource} {run : Bytes}
    (h : source.bytes? n = some (run, next)) : next.used = 0 := by
  unfold bytes? at h
  dsimp only at h
  split at h <;> cases h
  rfl

theorem lasts_symbolFrom? (lengths : List (List Nat)) (word first : Nat) (source : BitSource) :
    Lasts (ahead more) (HuffmanCode.symbolFrom? lengths word first source)
      (HuffmanCode.symbolFrom? lengths word first (source.followedBy more)) := by
  induction lengths generalizing word first source with
  | nil => exact lasts_none
  | cons symbols longer ih =>
    unfold HuffmanCode.symbolFrom?
    cases taken : source.bit? with
    | none => exact lasts_none
    | some answer =>
      obtain ⟨bit, next⟩ := answer
      rw [lasts_bit? source _ taken]
      dsimp only [Prod.map, id]
      cases symbols[2 * word + bit - 2 * first]? with
      | some symbol => exact lasts_some
      | none => exact ih _ _ next

theorem lasts_symbol? (code : HuffmanCode) (source : BitSource) :
    Lasts (ahead more) (code.symbol? source) (code.symbol? (source.followedBy more)) :=
  lasts_symbolFrom? code.byLength 0 0 source

theorem lasts_extended? (bases : List (Nat × Nat)) (symbol : Nat) (source : BitSource) :
    Lasts (ahead more) (extended? bases symbol source)
      (extended? bases symbol (source.followedBy more)) := by
  refine lasts_bind fun range => ?_
  exact (lasts_bits? range.2 source).bind fun _ => lasts_some

theorem lasts_triples? (count : Nat) (source : BitSource) :
    Lasts (ahead more) (triples? count source) (triples? count (source.followedBy more)) := by
  induction count generalizing source with
  | zero => exact lasts_some
  | succ count ih =>
    refine (lasts_bits? 3 source).bind fun ⟨first, next⟩ => ?_
    exact (ih next).bind fun _ => lasts_some

theorem lasts_codeLengths? (code : HuffmanCode) (count fuel : Nat) (source : BitSource)
    (done : List Nat) :
    Lasts (ahead more) (codeLengths? code count fuel source done)
      (codeLengths? code count fuel (source.followedBy more) done) := by
  induction fuel generalizing source done with
  | zero =>
    unfold codeLengths?
    split
    · exact lasts_some
    · exact lasts_none
  | succ fuel ih =>
    unfold codeLengths?
    split
    · exact lasts_some
    split
    · exact lasts_none
    refine (lasts_symbol? code source).bind ?_
    rintro ⟨symbol, next⟩
    dsimp only [Prod.map, id]
    split
    · exact ih next _
    split
    · exact lasts_bind fun last => (lasts_bits? 2 next).bind fun answer => ih answer.2 _
    split
    · exact (lasts_bits? 3 next).bind fun answer => ih answer.2 _
    · exact (lasts_bits? 7 next).bind fun answer => ih answer.2 _

theorem lasts_ownCodes? (source : BitSource) :
    Lasts (Prod.map id (ahead more)) (ownCodes? source) (ownCodes? (source.followedBy more)) := by
  refine (lasts_bits? 5 source).bind fun ⟨literalCount, next⟩ => ?_
  refine (lasts_bits? 5 next).bind fun ⟨distanceCount, next⟩ => ?_
  refine (lasts_bits? 4 next).bind fun ⟨orderCount, next⟩ => ?_
  refine (lasts_triples? (orderCount + 4) next).bind fun ⟨orderLengths, next⟩ => ?_
  refine lasts_bind fun lengthCode => ?_
  dsimp only [Prod.map, id]
  split
  case isTrue => exact lasts_none
  case isFalse =>
    refine (lasts_codeLengths? lengthCode _ _ next []).bind fun ⟨lengths, next⟩ => ?_
    exact lasts_bind fun _ => lasts_bind fun _ => lasts_some

theorem lasts_repetition? (distances : HuffmanCode) (symbol : Nat) (source : BitSource)
    (out : Inflated) :
    Lasts (behind more) (repetition? distances symbol source out)
      (repetition? distances symbol (source.followedBy more) out) := by
  refine (lasts_extended? _ _ source).bind fun ⟨length, next⟩ => ?_
  refine (lasts_symbol? distances next).bind fun ⟨symbol, next⟩ => ?_
  exact (lasts_extended? _ _ next).bind fun _ => lasts_some

/-- The fuel comes from the number of unread bits, so the longer source has more of it. -/
theorem lasts_codedBlock (literals distances : HuffmanCode) {fuel larger : Nat}
    (enough : fuel ≤ larger) (source : BitSource) (out : Inflated) :
    Lasts (behind more) (codedBlock literals distances fuel source out)
      (codedBlock literals distances larger (source.followedBy more) out) := by
  induction fuel generalizing larger source out with
  | zero =>
    rw [codedBlock]
    exact lasts_none
  | succ fuel ih =>
    obtain ⟨larger, rfl⟩ : ∃ less, larger = less + 1 := ⟨larger - 1, by omega⟩
    have less : fuel ≤ larger := Nat.le_of_succ_le_succ enough
    rw [codedBlock, codedBlock]
    refine (lasts_symbol? literals source).bind ?_
    rintro ⟨symbol, next⟩
    dsimp only [Prod.map, id]
    split
    · exact ih less next _
    split
    · exact lasts_some
    · exact (lasts_repetition? distances symbol next out).bind fun answer =>
        ih less answer.1 answer.2

theorem lasts_storedBlock (source : BitSource) (out : Inflated) :
    Lasts (behind more) (storedBlock source out) (storedBlock (source.followedBy more) out) := by
  intro answer h
  obtain ⟨⟨head, next⟩, taken, h⟩ := Option.bind_eq_some_iff.mp h
  have aligned := used_of_bytes? taken
  have first : (source.followedBy more).bytes? 4 = some (head, next.followedBy more) :=
    lasts_bytes? (.inr (by decide)) _ taken
  unfold storedBlock
  rw [first]
  dsimp only [Option.bind_eq_bind, Option.bind_some] at h ⊢
  split at h
  case isFalse => cases h
  case isTrue fits =>
    obtain ⟨⟨run, last⟩, read, done⟩ := Option.bind_eq_some_iff.mp h
    cases done
    rw [if_pos fits, lasts_bytes? (.inl aligned) _ read]
    rfl

theorem lasts_block? (source : BitSource) (out : Inflated) :
    Lasts (behind more) (block? source out) (block? (source.followedBy more) out) := by
  have larger : ∀ next : BitSource, next.size ≤ (next.followedBy more).size := by
    intro next
    rw [size_followedBy]
    exact Nat.le_add_right _ _
  refine (lasts_bits? 2 source).bind fun ⟨kind, next⟩ => ?_
  dsimp only [Prod.map, id]
  split
  · exact lasts_storedBlock next out
  split
  · exact lasts_bind fun literals => lasts_bind fun distances =>
      lasts_codedBlock literals distances (larger next) next out
  split
  · exact (lasts_ownCodes? next).bind fun ⟨literals, distances, next⟩ =>
      lasts_codedBlock literals distances (larger next) next out
  · exact lasts_none

theorem lasts_markedBlock? (source : BitSource) (out : Inflated) :
    Lasts (behind more) (markedBlock? source out) (markedBlock? (source.followedBy more) out) := by
  refine (lasts_bit? source).bind fun ⟨last, next⟩ => ?_
  exact (lasts_block? next out).bind fun _ => lasts_some

theorem lasts_blocks? {fuel larger : Nat} (enough : fuel ≤ larger) (source : BitSource)
    (out : Inflated) :
    Lasts (behind more) (blocks? fuel source out)
      (blocks? larger (source.followedBy more) out) := by
  induction fuel generalizing larger source out with
  | zero =>
    rw [blocks?]
    exact lasts_none
  | succ fuel ih =>
    obtain ⟨larger, rfl⟩ : ∃ less, larger = less + 1 := ⟨larger - 1, by omega⟩
    rw [blocks?, blocks?]
    refine (lasts_markedBlock? source out).bind ?_
    rintro ⟨next, out, last⟩
    dsimp only [Prod.map, id]
    split
    · exact lasts_some
    · exact ih (Nat.le_of_succ_le_succ enough) next out

theorem lasts_checked? (run : Bytes) (source : BitSource) :
    Lasts (followedBy more) (checked? run source) (checked? run (source.followedBy more)) := by
  refine (lasts_bytes? (.inr (by decide))).bind fun ⟨sum, rest⟩ => ?_
  dsimp only [Prod.map, id]
  split
  · exact lasts_some
  · exact lasts_none

theorem behindHeader?_append {stream deflated : Bytes} (h : behindHeader? stream = some deflated) :
    behindHeader? (stream ++ more) = some (deflated ++ more) := by
  unfold behindHeader? at h
  split at h
  case h_1 first second rest =>
    split at h <;> cases h
    case isTrue right => exact if_pos right
  case h_2 => cases h

/-- What follows a stream that can be read changes nothing, and stays behind what is left. -/
theorem read?_append {stream run : Bytes} {rest : BitSource} (h : read? stream = some (run, rest))
    (more : Bytes) : read? (stream ++ more) = some (run, rest.followedBy more) := by
  obtain ⟨deflated, started, h⟩ := Option.bind_eq_some_iff.mp h
  obtain ⟨⟨whole, source⟩, inflated, h⟩ := Option.bind_eq_some_iff.mp h
  obtain ⟨left, right, h⟩ := Option.bind_eq_some_iff.mp h
  cases h
  obtain ⟨⟨reached, out⟩, blocks, h⟩ := Option.bind_eq_some_iff.mp inflated
  cases h
  have larger : (ofBytes deflated).size + 1 ≤ (ofBytes (deflated ++ more)).size + 1 := by
    simp only [size, ofBytes, List.length_append]
    omega
  have longer : blocks? ((ofBytes (deflated ++ more)).size + 1) (ofBytes (deflated ++ more)) #[] =
      some (source.followedBy more, out) :=
    @lasts_blocks? more _ _ larger (ofBytes deflated) #[] _ blocks
  have sum := @lasts_checked? more _ _ _ right
  rw [read?, behindHeader?_append started]
  simp only [Option.bind_eq_bind, Option.bind_some, inflate?, longer, sum, Option.pure_def]

/-- What follows a stream that stands for something changes nothing. -/
theorem decompress?_append {stream run : Bytes} (h : decompress? stream = some run)
    (more : Bytes) : decompress? (stream ++ more) = some run := by
  rw [decompress?_eq_read?] at h ⊢
  obtain ⟨⟨whole, rest⟩, read, rfl⟩ := Option.map_eq_some_iff.mp h
  rw [read?_append read more, Option.map_some]

/-- The stream stands for the run, and ends where its checksum does. -/
def EndsWith (stream run : Bytes) : Prop :=
  ∃ rest, read? stream = some (run, rest) ∧ rest.bytes = []

theorem endsWith_compress (run : Bytes) : EndsWith (compress run) run := by
  have read := read?_compress run []
  rw [List.append_nil] at read
  exact ⟨_, read, rfl⟩

/-- A stream that is read to its last byte stands for nothing once it is cut off. -/
theorem EndsWith.decompress?_of_cut {stream run cut : Bytes} (whole : EndsWith stream run)
    (part : cut <+: stream) (shorter : cut ≠ stream) : Zlib.decompress? cut = none := by
  obtain ⟨more, rfl⟩ := part
  obtain ⟨rest, read, done⟩ := whole
  cases decompressed : Zlib.decompress? cut with
  | none => rfl
  | some other =>
    rw [decompress?_eq_read?] at decompressed
    obtain ⟨⟨other, left⟩, front, -⟩ := Option.map_eq_some_iff.mp decompressed
    have long := read?_append front more
    rw [read] at long
    -- nothing is left of the whole stream, and the bytes that were cut off are
    cases long
    have nothing := (List.append_eq_nil_iff.mp done).2
    rw [nothing, List.append_nil] at shorter
    exact absurd rfl shorter

end ObjectWire.Zlib
