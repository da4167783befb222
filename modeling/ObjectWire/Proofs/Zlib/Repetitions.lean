import Mathlib.Data.List.Basic
import ObjectWire.Zlib.Inflate
import ObjectWire.Zlib.Repetition

/-!
# The pieces of a run make up the run

A repetition that was found names bytes that came before and are the same, so to repeat them behind
the front of the run gives a longer front of it.  Whatever is found, and whether it is taken at
once or waits, the pieces that are settled stand for the front of the run that they cover: up to the
position, or up to the one before it where a repetition waits.
-/

namespace ObjectWire.Zlib

theorem push_extract {run : Inflated} {position : Nat} (h : position < run.size) :
    (run.extract 0 position).push run[position] = run.extract 0 (position + 1) := by
  apply Array.ext'
  rw [Array.toList_push, Array.toList_extract, Array.toList_extract, List.extract_eq_take_drop,
    List.extract_eq_take_drop, List.drop_zero, ← Array.getElem_toList]
  exact List.take_append_getElem _

theorem getD_extract {run : Inflated} {position i : Nat} (h : i < position) :
    (run.extract 0 position).getD i 0 = run.getD i 0 := by
  rw [Array.getD_eq_getD_getElem?, Array.getD_eq_getD_getElem?, Array.getElem?_extract]
  split
  case isTrue => rw [Nat.zero_add]
  case isFalse =>
    rw [Array.getElem?_eq_none]
    omega

/-- The repetition names bytes of the run that came before a position and are the same as those at the
    position, and it is neither too short nor too long. -/
structure Repetition.Sound (run : Inflated) (position : Nat) (r : Repetition) : Prop where
  long : 3 ≤ r.length
  limited : r.length ≤ longestRepetition
  distant : 0 < r.distance
  behind : r.distance ≤ position
  within : position + r.length ≤ run.size
  same : ∀ i < r.length, run.getD (position - r.distance + i) 0 = run.getD (position + i) 0

/-- To repeat bytes that are the same as those that follow gives the front that they end. -/
theorem repeatBytes_extract {run : Inflated} {distance length position : Nat} (distant : 0 < distance)
    (behind : distance ≤ position) (within : position + length ≤ run.size)
    (same : ∀ i < length, run.getD (position - distance + i) 0 = run.getD (position + i) 0) :
    repeatBytes distance length (run.extract 0 position) = run.extract 0 (position + length) := by
  induction length generalizing position with
  | zero => rfl
  | succ length ih =>
    have below : position < run.size := by omega
    have size : (run.extract 0 position).size = position := by
      rw [Array.size_extract]
      omega
    have byte : (run.extract 0 position).getD (position - distance) 0 = run[position] := by
      have first := same 0 (Nat.succ_pos _)
      rw [Nat.add_zero, Nat.add_zero] at first
      rw [getD_extract (by omega), first, Array.getD_eq_getD_getElem?,
        Array.getElem?_eq_getElem below, Option.getD_some]
    have later : ∀ i < length,
        run.getD (position + 1 - distance + i) 0 = run.getD (position + 1 + i) 0 := by
      intro i fits
      have next := same (i + 1) (Nat.succ_lt_succ fits)
      rwa [show position - distance + (i + 1) = position + 1 - distance + i by omega,
        show position + (i + 1) = position + 1 + i by omega] at next
    rw [repeatBytes, size, if_pos behind, byte, push_extract below, ih (by omega) (by omega) later]
    congr 1
    omega

namespace Repetition

variable {run : Inflated} {position limit : Nat} {r : Repetition}

theorem agreement_le (run : Inflated) (a b limit : Nat) : agreement run a b limit ≤ limit := by
  induction limit generalizing a b with
  | zero => exact Nat.le_refl 0
  | succ limit ih =>
    rw [agreement]
    split
    · exact Nat.succ_le_succ (ih _ _)
    · exact Nat.zero_le _

/-- Bytes that agree are the same. -/
theorem getD_of_lt_agreement {a b i : Nat} (h : i < agreement run a b limit) :
    run.getD (a + i) 0 = run.getD (b + i) 0 := by
  induction limit generalizing a b i with
  | zero => cases h
  | succ limit ih =>
    rw [agreement] at h
    split at h
    case isTrue same =>
      cases i with
      | zero => exact same
      | succ i =>
        have rest := ih (Nat.lt_of_succ_lt_succ h)
        rwa [Nat.succ_add_eq_add_succ, Nat.succ_add_eq_add_succ] at rest
    case isFalse => cases h

/-- The repetition is as long as the run agrees at one of the candidates. -/
def ComesFrom (run : Inflated) (position limit : Nat) (candidates : List Nat) (r : Repetition) :
    Prop :=
  ∃ candidate ∈ candidates,
    r = ⟨agreement run candidate position limit, position - candidate⟩

/-- What a search finds comes from one of the candidates, and is longer than what was to be beaten. -/
theorem search_some {candidates : List Nat} {patience : Patience} {beaten : Nat}
    {best : Option Repetition}
    (h : search run position limit candidates patience beaten best = some r) :
    best = some r ∨ beaten < r.length ∧ ComesFrom run position limit candidates r := by
  induction candidates generalizing patience beaten best with
  | nil => exact .inl h
  | cons candidate candidates ih =>
    have later : ∀ {patience : Patience} {other : Nat} {better : Option Repetition},
        search run position limit candidates patience other better = some r → beaten ≤ other →
        better = some r ∨
          beaten < r.length ∧ ComesFrom run position limit (candidate :: candidates) r := by
      intro patience other better h more
      rcases ih h with found | ⟨longer, earlier, member, found⟩
      · exact .inl found
      · exact .inr ⟨Nat.lt_of_le_of_lt more longer, earlier, List.mem_cons_of_mem _ member, found⟩
    have here : (if beaten < agreement run candidate position limit
          then some ⟨agreement run candidate position limit, position - candidate⟩ else best) =
            some r →
        best = some r ∨
          beaten < r.length ∧ ComesFrom run position limit (candidate :: candidates) r := by
      intro found
      split at found
      case isTrue longer =>
        cases found
        exact .inr ⟨longer, candidate, List.mem_cons_self, rfl⟩
      case isFalse => exact .inl found
    rw [search] at h
    split at h
    case isTrue =>
      split at h
      case h_1 => exact .inl h
      case h_2 => exact later h (Nat.le_refl _)
    case isFalse =>
      dsimp only at h
      split at h
      case isTrue => exact here h
      case isFalse =>
        split at h
        case h_1 => exact here h
        case h_2 => exact (later h (Nat.le_max_left _ _)).elim here .inr

/-- What is found at a position is sound, if all candidates come before it. -/
theorem sound_of_find? {candidates : Array (List Nat)} {beaten : Nat}
    (before : ∀ candidate ∈ candidates.getD position [], candidate < position)
    (least : 2 ≤ beaten) (h : find? run candidates position beaten = some r) :
    r.Sound run position := by
  unfold find? at h
  dsimp only at h
  split at h
  case isTrue => cases h
  case isFalse larger =>
    rcases search_some (Option.filter_eq_some_iff.mp h).1 with none | ⟨longer, candidate, member, rfl⟩
    · cases none
    · have limited := agreement_le run candidate position
        (min longestRepetition (run.size - position))
      have earlier := before candidate member
      dsimp only at longer
      exact {
        long := by dsimp only; omega
        limited := by dsimp only; omega
        distant := Nat.sub_pos_of_lt earlier
        behind := Nat.sub_le _ _
        within := by dsimp only; omega
        same := by
          intro i fits
          rw [show position - (position - candidate) = candidate by omega]
          exact getD_of_lt_agreement fits }

theorem foldl_range {σ : Type} {holds : Nat → σ → Prop} {step : σ → Nat → σ} {start : σ}
    (zero : holds 0 start) (succ : ∀ n state, holds n state → holds (n + 1) (step state n))
    (n : Nat) : holds n ((List.range n).foldl step start) := by
  induction n with
  | zero => exact zero
  | succ n ih =>
    rw [List.range_succ, List.foldl_append]
    exact succ n _ ih

/-- So many positions are done: each has its candidates, which come before it, and the candidates for
    the next one are among the positions that are done. -/
structure Gathered (done : Nat) (state : Std.HashMap Nat (List Nat) × Array (List Nat)) : Prop where
  size : state.2.size = done
  keyed : ∀ key, ∀ candidate ∈ state.1.getD key [], candidate < done
  placed : ∀ position, ∀ candidate ∈ state.2.getD position [], candidate < position

/-- The candidates of one more position are gathered. -/
def gather (run : Inflated) (state : Std.HashMap Nat (List Nat) × Array (List Nat))
    (position : Nat) : Std.HashMap Nat (List Nat) × Array (List Nat) :=
  (if position = 0 then state.1
    else state.1.insert (startKey run position)
      (position :: state.1.getD (startKey run position) []),
    state.2.push (state.1.getD (startKey run position) []))

theorem earlier_eq (run : Inflated) :
    earlier run = ((List.range (run.size - 2)).foldl (gather run) (∅, #[])).2 := rfl

theorem Gathered.step {n : Nat} {state : Std.HashMap Nat (List Nat) × Array (List Nat)}
    (gathered : Gathered n state) (run : Inflated) : Gathered (n + 1) (gather run state n) where
  size := by rw [gather, Array.size_push, gathered.size]
  keyed key candidate member := by
    dsimp only [gather] at member
    split at member
    case isTrue => exact Nat.lt_succ_of_lt (gathered.keyed key candidate member)
    case isFalse =>
      rw [Std.HashMap.getD_insert] at member
      split at member
      case isTrue =>
        rcases List.mem_cons.mp member with rfl | before
        · exact Nat.lt_succ_self _
        · exact Nat.lt_succ_of_lt (gathered.keyed _ candidate before)
      case isFalse => exact Nat.lt_succ_of_lt (gathered.keyed key candidate member)
  placed position candidate member := by
    rw [gather, Array.getD_eq_getD_getElem?, Array.getElem?_push] at member
    split at member
    case isTrue here =>
      rw [here, gathered.size]
      exact gathered.keyed _ candidate member
    case isFalse =>
      rw [← Array.getD_eq_getD_getElem?] at member
      exact gathered.placed position candidate member

/-- All candidates for a position come before it. -/
theorem lt_of_mem_earlier {candidate : Nat}
    (member : candidate ∈ (earlier run).getD position []) : candidate < position := by
  rw [earlier_eq] at member
  have start : Gathered 0 (∅, #[]) := ⟨rfl, by simp, by simp⟩
  have gathered := foldl_range start (fun _ _ gathered => gathered.step run) (run.size - 2)
  exact gathered.placed position candidate member

end Repetition

/-! ### Pieces -/

namespace Piece

/-- The piece behind what is out. -/
def expand (out : Inflated) : Piece → Inflated
  | literal b => out.push b
  | repetition r => repeatBytes r.distance r.length out

/-- The pieces behind what is out. -/
def expandAll (pieces : List Piece) (out : Inflated) : Inflated := pieces.foldl expand out

/-- A repetition has a length and a distance that can be written, as far as a run of so many bytes
    goes. -/
def Fits (size : Nat) : Piece → Prop
  | literal _ => True
  | repetition r => 3 ≤ r.length ∧ r.length ≤ longestRepetition ∧ 0 < r.distance ∧ r.distance ≤ size

theorem expandAll_append (front back : List Piece) (out : Inflated) :
    expandAll (front ++ back) out = expandAll back (expandAll front out) := List.foldl_append

end Piece

/-- What waits is the repetition at the position before, whose byte it keeps. -/
structure Waiting.Sound (run : Inflated) (position : Nat) (waiting : Waiting) : Prop where
  byte : run[position - 1]? = some waiting.first
  later : 0 < position
  repetition : waiting.repetition.Sound run (position - 1)

/-- How much of the run the settled pieces stand for, if so many positions are done: one less where
    a repetition waits. -/
def frontOf (position : Nat) : Option Waiting → Nat
  | none => position
  | some _ => position - 1

variable {run : Inflated} {position : Nat}

theorem expand_repetition {r : Repetition} (sound : r.Sound run position) :
    (Piece.repetition r).expand (run.extract 0 position) = run.extract 0 (position + r.length) :=
  repeatBytes_extract sound.distant sound.behind sound.within sound.same

theorem Repetition.Sound.fits {r : Repetition} (sound : r.Sound run position) :
    (Piece.repetition r).Fits run.size :=
  ⟨sound.long, sound.limited, sound.distant,
    Nat.le_trans sound.behind (Nat.le_trans (Nat.le_add_right _ _) sound.within)⟩

namespace Choice

/-- A choice at a position continues the front of the run, and what waits then is sound. -/
structure Continues (run : Inflated) (position front : Nat) (choice : Choice) : Prop where
  expands : Piece.expandAll choice.settled (run.extract 0 front) =
    run.extract 0 (frontOf (position + 1 + choice.covered) choice.waiting)
  within : position + 1 + choice.covered ≤ run.size
  waits : ∀ waiting ∈ choice.waiting, waiting.Sound run (position + 1 + choice.covered)
  fits : ∀ piece ∈ choice.settled, piece.Fits run.size

theorem continues_take {b : UInt8} {r : Repetition} {before : List Piece} {front : Nat}
    (byte : run[position]? = some b) (sound : r.Sound run position)
    (expands : Piece.expandAll before (run.extract 0 front) = run.extract 0 position)
    (fits : ∀ piece ∈ before, piece.Fits run.size) :
    (take b r before).Continues run position front := by
  have long := sound.long
  have within := sound.within
  unfold take
  split
  case isTrue =>
    have covered : position + 1 + (r.length - 1) = position + r.length := by omega
    exact {
      expands := by
        rw [Piece.expandAll_append, expands, covered]
        exact expand_repetition sound
      within := by dsimp only; omega
      waits := nofun
      fits := by
        intro piece member
        rcases List.mem_append.mp member with settled | last
        · exact fits piece settled
        · rw [List.mem_singleton.mp last]
          exact sound.fits }
  case isFalse =>
    exact {
      expands := expands
      within := by dsimp only; omega
      waits := by
        rintro _ ⟨⟩
        exact ⟨byte, Nat.succ_pos _, sound⟩
      fits := fits }

theorem continues_make {found : Option Repetition} {waiting : Option Waiting}
    (below : position < run.size) (sound : ∀ r ∈ found, r.Sound run position)
    (waits : ∀ w ∈ waiting, w.Sound run position) :
    (make run[position] found waiting).Continues run position (frontOf position waiting) := by
  have byte : run[position]? = some run[position] := Array.getElem?_eq_getElem below
  cases found with
  | none =>
    cases waiting with
    | none =>
      exact {
        expands := push_extract below
        within := below
        waits := nofun
        fits := by
          intro piece member
          rw [List.mem_singleton.mp member]
          trivial }
    | some waiting =>
      obtain ⟨-, later, before⟩ := waits waiting rfl
      have long := before.long
      have within := before.within
      have covered : position + 1 + (waiting.repetition.length - 2) =
          position - 1 + waiting.repetition.length := by omega
      exact {
        expands := (expand_repetition before).trans (congrArg _ covered.symm)
        within := Nat.le_trans (Nat.le_of_eq covered) within
        waits := nofun
        fits := by
          intro piece member
          rw [List.mem_singleton.mp member]
          exact before.fits }
  | some r =>
    cases waiting with
    | none => exact continues_take byte (sound r rfl) rfl nofun
    | some waiting =>
      obtain ⟨first, later, -⟩ := waits waiting rfl
      have previous : position - 1 < run.size := by omega
      have literal : (run.extract 0 (position - 1)).push waiting.first = run.extract 0 position := by
        rw [Array.getElem?_eq_getElem previous] at first
        rw [← Option.some.inj first, push_extract previous, Nat.sub_add_cancel later]
      refine continues_take byte (sound r rfl) literal fun piece member => ?_
      rw [List.mem_singleton.mp member]
      trivial

end Choice

theorem piecesFrom_spec {candidates : Array (List Nat)}
    (before : ∀ position, ∀ candidate ∈ candidates.getD position [], candidate < position)
    (position : Nat) (waiting : Option Waiting) (within : position ≤ run.size)
    (waits : ∀ w ∈ waiting, w.Sound run position) :
    Piece.expandAll (piecesFrom run candidates position waiting)
        (run.extract 0 (frontOf position waiting)) = run ∧
      ∀ piece ∈ piecesFrom run candidates position waiting, piece.Fits run.size := by
  induction position, waiting using piecesFrom.induct run candidates with
  | case1 position waiting below beaten choice ih =>
    have least : 2 ≤ beaten := by
      cases waiting with
      | none => exact Nat.le_refl 2
      | some waiting => exact Nat.le_of_succ_le (waits waiting rfl).repetition.long
    have continues : choice.Continues run position (frontOf position waiting) :=
      Choice.continues_make below
        (fun r found => Repetition.sound_of_find? (before position) least found) waits
    obtain ⟨expands, fits⟩ := ih continues.within continues.waits
    rw [piecesFrom, dif_pos below]
    refine ⟨?_, fun piece member => ?_⟩
    · exact (Piece.expandAll_append _ _ _).trans (by rw [continues.expands]; exact expands)
    · exact (List.mem_append.mp member).elim (continues.fits piece) (fits piece)
  | case2 position waiting done =>
    obtain rfl : position = run.size := by omega
    rw [piecesFrom, dif_neg done]
    cases waiting with
    | none => exact ⟨Array.extract_size, nofun⟩
    | some waiting =>
      -- nothing waits at the end, for there is no room for a repetition
      obtain ⟨-, later, sound⟩ := waits waiting rfl
      have long := sound.long
      have fits := sound.within
      omega

/-- The pieces of a run make up the run, and each can be written. -/
theorem pieces_spec (run : Bytes) :
    Piece.expandAll (pieces run) #[] = run.toArray ∧
      ∀ piece ∈ pieces run, piece.Fits run.length := by
  have spec := @piecesFrom_spec run.toArray (Repetition.earlier run.toArray)
    (fun _ _ => Repetition.lt_of_mem_earlier) 0 none (Nat.zero_le _) nofun
  rwa [frontOf, Array.extract_zero, List.size_toArray] at spec

end ObjectWire.Zlib
