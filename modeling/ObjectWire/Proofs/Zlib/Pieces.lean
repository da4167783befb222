import ObjectWire.Proofs.Zlib.Unread
import ObjectWire.Zlib

/-!
# Decompressing in pieces

Reading a stream block by block and handing out pieces gives what reading it at once gives, whatever
the pieces' limit and wherever the blocks end.  A block only adds to what is out, so what was handed
out stays as it was; and each piece continues where the one before it ended.
-/

namespace ObjectWire.Zlib

/-- What a read leaves out is what was out before and more. -/
def Extends {α : Type} (out : Inflated) (left : α → Inflated) (read : Option α) : Prop :=
  ∀ answer ∈ read, ∃ more, left answer = out ++ more

section Extends

variable {α β : Type} {out : Inflated} {left : α → Inflated}

theorem extends_none : Extends out left none := nofun

theorem extends_some {answer : α} {more : Inflated} (h : left answer = out ++ more) :
    Extends out left (some answer) := by
  rintro _ ⟨⟩
  exact ⟨more, h⟩

theorem extends_bind {found : Option α} {next : α → Option β} {final : β → Inflated}
    (each : ∀ answer, Extends out final (next answer)) : Extends out final (found >>= next) := by
  intro answer h
  obtain ⟨middle, -, rest⟩ := Option.bind_eq_some_iff.mp h
  exact each middle answer rest

theorem Extends.bind {read : Option α} {next : α → Option β} {final : β → Inflated}
    (first : Extends out left read) (second : ∀ answer, Extends (left answer) final (next answer)) :
    Extends out final (read >>= next) := by
  intro answer h
  obtain ⟨middle, taken, rest⟩ := Option.bind_eq_some_iff.mp h
  obtain ⟨front, eq⟩ := first middle taken
  obtain ⟨back, final⟩ := second middle answer rest
  exact ⟨front ++ back, by rw [final, eq, Array.append_assoc]⟩

end Extends

theorem repeatBytes_extends (distance length : Nat) (out : Inflated) :
    ∃ more, repeatBytes distance length out = out ++ more := by
  induction length generalizing out with
  | zero => exact ⟨#[], (Array.append_empty).symm⟩
  | succ length ih =>
    obtain ⟨more, eq⟩ := ih (out.push (if distance ≤ out.size then out.getD (out.size - distance) 0
      else 0))
    exact ⟨_, by rw [repeatBytes, eq, Array.push_eq_append, Array.append_assoc]⟩

theorem extends_codedBlock (literals distances : HuffmanCode) (fuel : Nat) (source : BitSource)
    (out : Inflated) : Extends out Prod.snd (codedBlock literals distances fuel source out) := by
  induction fuel generalizing source out with
  | zero =>
    rw [codedBlock]
    exact extends_none
  | succ fuel ih =>
    rw [codedBlock]
    refine extends_bind ?_
    rintro ⟨symbol, next⟩
    dsimp only
    split
    case isTrue =>
      intro answer read
      obtain ⟨more, eq⟩ := ih next _ answer read
      exact ⟨_, by rw [eq, Array.push_eq_append, Array.append_assoc]⟩
    case isFalse =>
      split
      · exact extends_some Array.append_empty.symm
      · have repeated : Extends out Prod.snd (repetition? distances symbol next out) := by
          refine extends_bind ?_
          rintro ⟨length, next⟩
          refine extends_bind fun _ => extends_bind ?_
          rintro ⟨distance, next⟩
          obtain ⟨more, eq⟩ := repeatBytes_extends distance length out
          exact extends_some eq
        exact repeated.bind fun _ => ih _ _

theorem extends_block? (source : BitSource) (out : Inflated) :
    Extends out Prod.snd (block? source out) := by
  refine extends_bind fun ⟨kind, next⟩ => ?_
  dsimp only
  split
  · refine extends_bind fun ⟨head, next⟩ => ?_
    dsimp only
    split
    · exact extends_bind fun ⟨run, next⟩ =>
        extends_some (show out ++ run = out ++ run.toArray from Array.ext' (by simp))
    · exact extends_none
  split
  · exact extends_bind fun literals => extends_bind fun distances =>
      extends_codedBlock literals distances _ next out
  split
  · exact extends_bind fun ⟨literals, distances, next⟩ =>
      extends_codedBlock literals distances _ next out
  · exact extends_none

theorem extends_markedBlock? (source : BitSource) (out : Inflated) :
    Extends out (·.2.1) (markedBlock? source out) :=
  extends_bind fun ⟨_, next⟩ => (extends_block? next out).bind fun _ =>
    extends_some Array.append_empty.symm

/-- Fuel beyond the number of bits changes nothing. -/
theorem blocks?_fuel {fuel other : Nat} {source : BitSource} (enough : source.unread < fuel)
    (also : source.unread < other) (out : Inflated) :
    blocks? fuel source out = blocks? other source out := by
  induction fuel generalizing other source out with
  | zero => exact absurd enough (Nat.not_lt_zero _)
  | succ fuel ih =>
    obtain ⟨other, rfl⟩ : ∃ less, other = less + 1 := ⟨other - 1, by omega⟩
    rw [blocks?, blocks?]
    cases read : markedBlock? source out with
    | none => rfl
    | some left =>
      obtain ⟨next, more, last⟩ := left
      have fewer := (unread_markedBlock? read).1
      have rest : blocks? fuel next more = blocks? other next more :=
        ih (by omega) (by omega) more
      dsimp only [Option.bind_eq_bind, Option.bind_some]
      rw [rest]

namespace Decoder

/-- All that a stream stands for: what the blocks that are read stand for and what the others add, if
    the checksum is right. -/
def whole? (d : Decoder) : Option Inflated := do
  let (source, out) ← if d.ended then some (d.source, d.out)
    else blocks? (d.source.unread + 1) d.source d.out
  let _ ← checked? out.toList source
  pure out

theorem whole?_of_block {d : Decoder} (goes : ¬ d.ended) :
    d.whole? = (do
      let (source, out, last) ← markedBlock? d.source d.out
      whole? ⟨source, out, d.given, last⟩) := by
  rw [whole?, if_neg goes, blocks?]
  cases read : markedBlock? d.source d.out with
  | none => rfl
  | some left =>
    obtain ⟨next, more, last⟩ := left
    have fewer := (unread_markedBlock? read).1
    cases last with
    | true => rfl
    | false =>
      have fuel := blocks?_fuel fewer (Nat.lt_succ_self _) more
      simp only [Option.bind_eq_bind, Option.bind_some, Bool.false_eq_true, if_false, fuel, whole?]

/-- The bytes that the decoder may still hand out. -/
def left (d : Decoder) : Nat := worth d.source d.out - d.given

/-- A piece continues what was handed out before, nothing that was out has changed, and the stream
    stands for the same as before: for what is out, if the piece is empty. -/
structure Hands (d : Decoder) (piece : Inflated) (next : Decoder) : Prop where
  grows : ∃ more, next.out = d.out ++ more
  part : piece = next.out.extract d.given next.given
  forth : d.given ≤ next.given
  within : next.given ≤ next.out.size
  less : next.left + piece.size ≤ d.left
  whole : next.whole? = d.whole?
  ends : piece.size = 0 → next.given = next.out.size ∧ d.whole? = some next.out

/-- What was handed out before stays. -/
theorem Hands.kept {d next : Decoder} {piece : Inflated} (hands : Hands d piece next)
    (within : d.given ≤ d.out.size) : d.out.extract 0 d.given = next.out.extract 0 d.given := by
  obtain ⟨more, grown⟩ := hands.grows
  have nothing : more.extract 0 (d.given - d.out.size) = #[] := by
    rw [Nat.sub_eq_zero_of_le within, Array.extract_zero]
  rw [grown, Array.extract_append, Nat.zero_sub, nothing, Array.append_empty]

/-- With what was handed out before, the piece is what is handed out now. -/
theorem Hands.extract_append {d next : Decoder} {piece : Inflated} (hands : Hands d piece next)
    (within : d.given ≤ d.out.size) :
    d.out.extract 0 d.given ++ piece = next.out.extract 0 next.given := by
  rw [hands.part, hands.kept within, Array.extract_append_extract,
    Nat.min_eq_left (Nat.zero_le _), Nat.max_eq_right hands.forth]

section Pieces

variable {most fuel : Nat} {d next : Decoder} {piece : Inflated}

theorem hands_of_pending (positive : 0 < most) (pending : d.given < d.out.size) :
    Hands d (d.out.extract d.given (min (d.given + most) d.out.size))
      { d with given := min (d.given + most) d.out.size } where
  grows := ⟨#[], Array.append_empty.symm⟩
  part := rfl
  forth := by
    show d.given ≤ min (d.given + most) d.out.size
    omega
  within := Nat.min_le_right _ _
  less := by
    have worthy : d.out.size ≤ worth d.source d.out := Nat.le_add_right _ _
    simp only [left, Array.size_extract]
    omega
  whole := rfl
  ends := by
    intro empty
    rw [Array.size_extract] at empty
    omega

theorem hands_of_ended {rest : BitSource} (settled : ¬ d.given < d.out.size)
    (within : d.given ≤ d.out.size) (ended : d.ended)
    (right : checked? d.out.toList d.source = some rest) : Hands d #[] d where
  grows := ⟨#[], Array.append_empty.symm⟩
  part := (Array.extract_eq_empty_of_le (Nat.min_le_left _ _)).symm
  forth := Nat.le_refl _
  within := within
  less := Nat.le_refl _
  whole := rfl
  ends := by
    intro _
    refine ⟨Nat.le_antisymm within (Nat.le_of_not_lt settled), ?_⟩
    rw [whole?, if_pos ended]
    exact (Option.bind_some _ _).trans ((congrArg (Option.bind · _) right).trans rfl)

/-- What holds behind a block holds in front of it. -/
theorem Hands.of_block {source : BitSource} {out : Inflated} {last : Bool} (goes : ¬ d.ended)
    (read : markedBlock? d.source d.out = some (source, out, last))
    (hands : Hands ⟨source, out, d.given, last⟩ piece next) : Hands d piece next := by
  obtain ⟨more, added⟩ := extends_markedBlock? d.source d.out _ read
  obtain ⟨others, grown⟩ := hands.grows
  have same : d.whole? = whole? ⟨source, out, d.given, last⟩ := by
    rw [whole?_of_block goes, read]
    rfl
  exact {
    grows := ⟨more ++ others, by rw [grown, show out = d.out ++ more from added, Array.append_assoc]⟩
    part := hands.part
    forth := hands.forth
    within := hands.within
    less := Nat.le_trans hands.less (Nat.sub_le_sub_right (unread_markedBlock? read).2 _)
    whole := hands.whole.trans same.symm
    ends := fun empty => same ▸ hands.ends empty }

theorem hands_of_pieceWithin? (positive : 0 < most) (within : d.given ≤ d.out.size)
    (h : pieceWithin? most fuel d = some (piece, next)) : Hands d piece next := by
  induction fuel generalizing d with
  | zero => cases h
  | succ fuel ih =>
    unfold pieceWithin? at h
    split at h
    case isTrue pending =>
      cases h
      exact hands_of_pending positive pending
    case isFalse settled =>
      split at h
      case isTrue ended =>
        obtain ⟨rest, right, h⟩ := Option.map_eq_some_iff.mp h
        obtain ⟨rfl, rfl⟩ := Prod.mk.inj h
        exact hands_of_ended settled within ended right
      case isFalse goes =>
        obtain ⟨⟨source, out, last⟩, read, h⟩ := Option.bind_eq_some_iff.mp h
        obtain ⟨more, added⟩ := extends_markedBlock? d.source d.out _ read
        have larger : d.given ≤ out.size := by
          rw [show out = d.out ++ more from added, Array.size_append]
          omega
        exact (ih larger h).of_block goes read

/-- A stream that is damaged behind what is out stands for nothing. -/
theorem whole?_of_pieceWithin?_none (enough : d.source.unread < fuel)
    (h : pieceWithin? most fuel d = none) : d.whole? = none := by
  induction fuel generalizing d with
  | zero => exact absurd enough (Nat.not_lt_zero _)
  | succ fuel ih =>
    unfold pieceWithin? at h
    split at h
    case isTrue => cases h
    case isFalse =>
      split at h
      case isTrue ended =>
        have wrong := Option.map_eq_none_iff.mp h
        rw [whole?, if_pos ended]
        exact (Option.bind_some _ _).trans ((congrArg (Option.bind · _) wrong).trans rfl)
      case isFalse goes =>
        rw [whole?_of_block goes]
        cases read : markedBlock? d.source d.out with
        | none => rfl
        | some behind =>
          obtain ⟨source, out, last⟩ := behind
          rw [read] at h
          have fewer := (unread_markedBlock? read).1
          exact ih (d := ⟨source, out, d.given, last⟩) (by simp only; omega) h

end Pieces

/-- However the stream is cut into pieces, they are the whole together. -/
theorem drainWithin?_eq_whole? {most fuel : Nat} (positive : 0 < most) {d : Decoder}
    {whole : Inflated} (enough : d.left < fuel) (within : d.given ≤ d.out.size)
    (before : whole = d.out.extract 0 d.given) : drainWithin? most fuel d whole = d.whole? := by
  induction fuel generalizing d whole with
  | zero => exact absurd enough (Nat.not_lt_zero _)
  | succ fuel ih =>
    have bits : d.source.unread < d.source.size + 1 :=
      Nat.lt_succ_of_le (BitSource.unread_le_size _)
    rw [drainWithin?]
    cases read : d.piece? most with
    | none =>
      rw [whole?_of_pieceWithin?_none bits read]
      rfl
    | some handed =>
      obtain ⟨piece, next⟩ := handed
      have hands := hands_of_pieceWithin? positive within read
      have together := hands.extract_append within
      simp only [Option.bind_eq_bind, Option.bind_some, Array.isEmpty_iff_size_eq_zero]
      split
      case isTrue empty =>
        obtain ⟨all, ends⟩ := hands.ends empty
        rw [Array.eq_empty_of_size_eq_zero empty, Array.append_empty, all,
          Array.extract_size] at together
        rw [before, together, ends]
      case isFalse more =>
        have less := hands.less
        rw [ih (by omega) hands.within (before ▸ together), hands.whole]

end Decoder

/-- Reads a stream at once: what it stands for, and what follows its checksum. -/
def read? (stream : Bytes) : Option (Bytes × BitSource) := do
  let deflated ← behindHeader? stream
  let (run, source) ← inflate? (.ofBytes deflated)
  let rest ← checked? run source
  pure (run, rest)

/-- Whatever the limit of the pieces, decompressing gives what reading the stream at once gives. -/
theorem decompressBy?_eq_read? {most : Nat} (positive : 0 < most) (stream : Bytes) :
    decompressBy? most stream = (read? stream).map Prod.fst := by
  unfold decompressBy? read?
  cases behindHeader? stream with
  | none => rfl
  | some deflated =>
    have bits := BitSource.unread_le_size (.ofBytes deflated)
    have enough : (Decoder.ofBytes deflated).left <
        longestRepetition * (Decoder.ofBytes deflated).source.size + 1 := by
      have worthy := Nat.mul_le_mul_left longestRepetition bits
      simp only [Decoder.left, worth, Decoder.ofBytes, List.size_toArray, List.length_nil]
      omega
    have start : (#[] : Inflated) = (Decoder.ofBytes deflated).out.extract 0 0 := rfl
    have whole : (Decoder.ofBytes deflated).drain? most = (do
        let (source, out) ← blocks? ((BitSource.ofBytes deflated).size + 1) (.ofBytes deflated) #[]
        let _ ← checked? out.toList source
        pure out) := by
      rw [Decoder.drain?, Decoder.drainWithin?_eq_whole? positive enough (Nat.le_refl 0) start,
        blocks?_fuel (Nat.lt_succ_of_le bits) (Nat.lt_succ_self _)]
      rfl
    simp only [Option.bind_eq_bind, Option.bind_some, whole, inflate?]
    cases blocks? ((BitSource.ofBytes deflated).size + 1) (.ofBytes deflated) #[] with
    | none => rfl
    | some left =>
      obtain ⟨source, out⟩ := left
      simp only [Option.bind_some, Option.pure_def]
      cases checked? out.toList source <;> rfl

theorem decompress?_eq_read? (stream : Bytes) :
    decompress? stream = (read? stream).map Prod.fst :=
  decompressBy?_eq_read? (by decide) stream

end ObjectWire.Zlib
