import ObjectWire.Proofs.Zlib.Deflating
import ObjectWire.Proofs.Zlib.Pieces

/-!
# Compressing loses nothing

Stored blocks are read one by one, each behind its number of bytes, and a block that is not stored is
read piece by piece.  Either way what is left is the checksum, but for the rest of the byte in which
the last block ends.  A run that is not very short gets hardly any longer, since it is deflated only
where that makes it shorter.
-/

namespace ObjectWire.Zlib

theorem length_littleEndian (n : Nat) : (littleEndian n).length = 2 := by
  rw [littleEndian, List.length_reverse, BigEndian.length_encode]

theorem decode_littleEndian {n : Nat} (h : n ≤ 65535) :
    BigEndian.decode (littleEndian n).reverse = n := by
  rw [littleEndian, List.reverse_reverse, BigEndian.decode_encode, Nat.mod_eq_of_lt]
  exact Nat.lt_of_le_of_lt h (by decide)

theorem bytes?_of_align {source : BitSource} {front rest : Bytes} {n : Nat}
    (aligned : source.align = .ofBytes (front ++ rest)) (h : front.length = n) :
    source.bytes? n = some (front, .ofBytes rest) := by
  subst h
  simp [BitSource.bytes?, aligned, BitSource.ofBytes]

theorem bytes?_append {front rest : Bytes} {n : Nat} (h : front.length = n) :
    BitSource.bytes? n (.ofBytes (front ++ rest)) = some (front, .ofBytes rest) :=
  bytes?_of_align rfl h

/-- The bytes of a stored block, behind the byte that its three leading bits have begun. -/
theorem storedBlock_of_frame {run rest : Bytes} (small : run.length ≤ storedLimit) (b : UInt8)
    (out : Inflated) :
    storedBlock ⟨b :: (littleEndian run.length ++ littleEndian (65535 - run.length) ++ run ++ rest),
      3⟩ out = some (.ofBytes rest, out ++ run) := by
  have four : (littleEndian run.length ++ littleEndian (65535 - run.length)).length = 4 := by
    rw [List.length_append, length_littleEndian, length_littleEndian]
  have head : BitSource.bytes? 4 ⟨b :: (littleEndian run.length ++
      littleEndian (65535 - run.length) ++ run ++ rest), 3⟩ =
      some (littleEndian run.length ++ littleEndian (65535 - run.length),
        .ofBytes (run ++ rest)) := by
    have aligned := @bytes?_append _ (run ++ rest) _ four
    rw [← List.append_assoc] at aligned
    exact aligned
  have low : (littleEndian run.length ++ littleEndian (65535 - run.length)).take 2 =
      littleEndian run.length := List.take_left' (length_littleEndian _)
  have high : (littleEndian run.length ++ littleEndian (65535 - run.length)).drop 2 =
      littleEndian (65535 - run.length) := List.drop_left' (length_littleEndian _)
  have limit : run.length ≤ 65535 := small
  simp only [storedBlock, head, Option.bind_eq_bind, Option.bind_some, low, high,
    decode_littleEndian limit, decode_littleEndian (Nat.sub_le _ _)]
  rw [if_pos (by omega), bytes?_append rfl]
  rfl

/-- One block, with the marks in front of it. -/
theorem bits_of_frame (last : Bool) (rest : Bytes) :
    BitSource.bit? (.ofBytes ((if last then 1 else 0) :: rest)) =
        some (if last then 1 else 0, ⟨(if last then 1 else 0) :: rest, 1⟩) ∧
      BitSource.bits? 2 ⟨(if last then 1 else 0) :: rest, 1⟩ =
        some (0, ⟨(if last then 1 else 0) :: rest, 3⟩) := by
  cases last <;> simp [BitSource.bits?, BitSource.bit?, BitSource.ofBytes]

theorem block?_of_frame {run rest : Bytes} (small : run.length ≤ storedLimit) (last : Bool)
    (out : Inflated) :
    block? ⟨(if last then 1 else 0) ::
      (littleEndian run.length ++ littleEndian (65535 - run.length) ++ run ++ rest), 1⟩ out =
      some (.ofBytes rest, out ++ run) := by
  rw [block?, (bits_of_frame last _).2]
  simp only [Option.bind_eq_bind, Option.bind_some, if_true]
  exact storedBlock_of_frame small _ out

theorem blocks?_of_frame {run rest : Bytes} (small : run.length ≤ storedLimit) (last : Bool)
    (fuel : Nat) (out : Inflated) :
    blocks? (fuel + 1) (.ofBytes (storedFrame last run ++ rest)) out =
      if last then some (.ofBytes rest, out ++ run)
      else blocks? fuel (.ofBytes rest) (out ++ run) := by
  have split : storedFrame last run ++ rest = (if last then 1 else 0) ::
      (littleEndian run.length ++ littleEndian (65535 - run.length) ++ run ++ rest) := by
    simp [storedFrame]
  have marked : markedBlock? (.ofBytes (storedFrame last run ++ rest)) out =
      some (.ofBytes rest, out ++ run, last) := by
    rw [split, markedBlock?, (bits_of_frame last _).1]
    simp only [Option.bind_eq_bind, Option.bind_some, block?_of_frame small]
    cases last <;> rfl
  rw [blocks?, marked]
  rfl

/-- The stored blocks of a run, each read behind the other. -/
theorem blocks?_storedFrames (run rest : Bytes) (fuel : Nat) (out : Inflated)
    (enough : run.length < fuel) :
    blocks? fuel (.ofBytes (storedFrames run ++ rest)) out = some (.ofBytes rest, out ++ run) := by
  induction run using storedFrames.induct generalizing fuel out with
  | case1 run small =>
    obtain ⟨fuel, rfl⟩ : ∃ left, fuel = left + 1 := ⟨fuel - 1, by omega⟩
    rw [storedFrames, if_pos small, blocks?_of_frame small]
    rfl
  | case2 run large ih =>
    obtain ⟨fuel, rfl⟩ : ∃ left, fuel = left + 1 := ⟨fuel - 1, by omega⟩
    have full : (run.take storedLimit).length ≤ storedLimit := List.length_take_le _ _
    have shorter : (run.drop storedLimit).length < fuel := by
      rw [List.length_drop]
      simp only [storedLimit] at *
      omega
    rw [storedFrames, if_neg large, List.append_assoc, blocks?_of_frame full, if_neg (by simp),
      ih fuel _ shorter]
    have whole : out ++ run.take storedLimit ++ run.drop storedLimit = out ++ run := by
      apply Array.ext'
      simp
    rw [whole]

theorem length_storedFrames (run : Bytes) : run.length ≤ (storedFrames run).length := by
  induction run using storedFrames.induct with
  | case1 run small =>
    rw [storedFrames, if_pos small, storedFrame, List.length_append]
    omega
  | case2 run large ih =>
    rw [storedFrames, if_neg large, storedFrame, List.length_append, List.length_append,
      List.length_take]
    rw [List.length_drop] at ih
    omega

theorem sums_lt {c : Checksum} (h : c.bytes < Checksum.modulus ∧ c.sums < Checksum.modulus)
    (run : Bytes) : (run.foldl Checksum.add c).bytes < Checksum.modulus ∧
      (run.foldl Checksum.add c).sums < Checksum.modulus := by
  induction run generalizing c with
  | nil => exact h
  | cons b run ih => exact ih ⟨Nat.mod_lt _ (by decide), Nat.mod_lt _ (by decide)⟩

theorem checksum_lt (run : Bytes) : checksum run < BigEndian.words 4 := by
  have start :
      Checksum.start.bytes < Checksum.modulus ∧ Checksum.start.sums < Checksum.modulus := by
    decide
  obtain ⟨bytes, sums⟩ := sums_lt start run
  have words : BigEndian.words 4 = 4294967296 := rfl
  rw [checksum, Checksum.value, words]
  simp only [Checksum.modulus] at bytes sums
  omega

theorem inflate?_storedFrames (run rest : Bytes) :
    inflate? (.ofBytes (storedFrames run ++ rest)) = some (run, .ofBytes rest) := by
  have length := length_storedFrames run
  have enough : run.length < BitSource.size (.ofBytes (storedFrames run ++ rest)) + 1 := by
    simp only [BitSource.size, BitSource.ofBytes, List.length_append]
    omega
  rw [inflate?, blocks?_storedFrames run rest _ #[] enough]
  simp

theorem checked?_encode {source : BitSource} {run rest : Bytes}
    (aligned : source.align = .ofBytes (BigEndian.encode 4 (checksum run) ++ rest)) :
    checked? run source = some (.ofBytes rest) := by
  have sum : BigEndian.decode (BigEndian.encode 4 (checksum run)) = checksum run := by
    rw [BigEndian.decode_encode, Nat.mod_eq_of_lt (checksum_lt run)]
  rw [checked?, bytes?_of_align aligned (BigEndian.length_encode 4 (checksum run))]
  exact (Option.bind_some _ _).trans (if_pos sum)

theorem behindHeader?_framed (run deflated rest : Bytes) :
    behindHeader? (framed run deflated ++ rest) =
      some (deflated ++ (BigEndian.encode 4 (checksum run) ++ rest)) := by
  have split : framed run deflated ++ rest =
      0x78 :: 0xDA :: (deflated ++ (BigEndian.encode 4 (checksum run) ++ rest)) := by
    simp only [framed, header, List.cons_append, List.nil_append, List.append_assoc]
  rw [split, behindHeader?, if_pos (by decide)]

/-- A stream around blocks that make up the run is read to the end of its checksum. -/
theorem read?_framed {run deflated rest : Bytes} {source : BitSource}
    (inflated : inflate? (.ofBytes (deflated ++ (BigEndian.encode 4 (checksum run) ++ rest))) =
      some (run, source))
    (aligned : source.align = .ofBytes (BigEndian.encode 4 (checksum run) ++ rest)) :
    read? (framed run deflated ++ rest) = some (run, .ofBytes rest) := by
  rw [read?, behindHeader?_framed]
  simp only [Option.bind_eq_bind, Option.bind_some, inflated, checked?_encode aligned,
    Option.pure_def]

/-- A compressed run is read to the end of its checksum, whatever follows. -/
theorem read?_compress (run rest : Bytes) :
    read? (compress run ++ rest) = some (run, .ofBytes rest) := by
  unfold compress
  cases made : deflate? run with
  | some deflated =>
    obtain ⟨source, inflated, aligned⟩ := inflate?_of_deflate? made _
    exact read?_framed inflated aligned
  | none => exact read?_framed (inflate?_storedFrames run _) rfl

/-- What was compressed is what decompressing gives. -/
theorem decompress?_compress (run : Bytes) : decompress? (compress run) = some run := by
  have read := read?_compress run []
  rw [List.append_nil] at read
  rw [decompress?_eq_read?, read, Option.map_some]

/-- Compressing loses nothing: the pieces that decompressing hands out make up the run that was
    compressed, however long it is and however large the pieces may be. -/
theorem compressing_loses_nothing (run : Bytes) :
    decompress? (compress run) = some run ∧
      ∀ most, decompressBy? (most + 1) (compress run) = some run := by
  have whole := decompress?_compress run
  refine ⟨whole, fun most => ?_⟩
  rw [decompress?_eq_read?] at whole
  rw [decompressBy?_eq_read? (Nat.succ_pos most), whole]

theorem length_storedFrames_le (run : Bytes) :
    (storedFrames run).length ≤ run.length + 5 * (run.length / storedLimit + 1) := by
  have frame : ∀ last (run : Bytes), (storedFrame last run).length = run.length + 5 := by
    intro last run
    simp only [storedFrame, List.length_append, length_littleEndian, List.length_singleton]
    omega
  induction run using storedFrames.induct with
  | case1 run small =>
    rw [storedFrames, if_pos small, frame]
    simp only [storedLimit]
    omega
  | case2 run large ih =>
    rw [storedFrames, if_neg large, List.length_append, frame, List.length_take]
    rw [List.length_drop] at ih
    simp only [storedLimit] at *
    omega

theorem length_toBytes_le (bits : List Bool) :
    (Bits.toBytes bits).length ≤ bits.length / 8 + 1 := by
  induction bits using Bits.toBytes.induct with
  | case1 => simp [Bits.toBytes]
  | case2 bit bits ih =>
    rw [Bits.toBytes, List.length_cons, List.length_cons]
    by_cases short : bits.length < 7
    · have nothing : bits.drop 7 = [] := List.drop_eq_nil_of_le (by omega)
      rw [nothing, Bits.toBytes, List.length_nil]
      omega
    · rw [List.length_drop] at ih
      omega

theorem length_of_deflate? {run deflated : Bytes} (long : alwaysDeflated < run.length)
    (h : deflate? run = some deflated) : deflated.length ≤ run.length := by
  obtain ⟨-, bits, rfl, -, pays⟩ := deflate?_some h
  exact Nat.le_trans (length_toBytes_le _) (Nat.le_of_lt (pays long))

/-- What compressing a run adds to its length at most. -/
theorem length_compress_le {run : Bytes} (long : alwaysDeflated < run.length) :
    (compress run).length ≤ run.length + 5 * (run.length / storedLimit + 1) + 6 := by
  have around : ∀ deflated, (framed run deflated).length = deflated.length + 6 := by
    intro deflated
    simp only [framed, header, List.length_append, List.length_cons, List.length_nil,
      BigEndian.length_encode]
    omega
  rw [compress, around]
  cases shorter : deflate? run with
  | some deflated =>
    have bound := length_of_deflate? long shorter
    rw [Option.getD_some]
    omega
  | none =>
    have bound := length_storedFrames_le run
    rw [Option.getD_none]
    omega

end ObjectWire.Zlib
