import ObjectWire.Proofs.Portable.Compressed
import ObjectWire.Proofs.Zlib.CutOff

/-!
# Definitions that are cut off

A compressed definition of which the end is missing is not imported: the stream breaks off before
its checksum, whether what is there makes up a layout or not.
-/

namespace ObjectWire

namespace ClassDefinition

variable {definition : ClassDefinition} {stream cut : Bytes}

theorem ofCompressed_of_decompress?_none (damaged : Zlib.decompress? stream = none) :
    ofCompressed stream = .error .decompressionFailed := by
  rw [ofCompressed, damaged]
  rfl

/-- What is cut off a stream is missed, or it stands behind the stream's end. -/
theorem ofCompressed_of_prefix (read : ofCompressed stream = .ok definition)
    (part : cut <+: stream) :
    ofCompressed cut = .error .decompressionFailed ∨ ofCompressed cut = .ok definition := by
  obtain ⟨more, rfl⟩ := part
  cases decompressed : Zlib.decompress? cut with
  | none => exact .inl (ofCompressed_of_decompress?_none decompressed)
  | some run =>
    refine .inr ?_
    rw [ofCompressed, Zlib.decompress?_append decompressed more] at read
    rw [ofCompressed, decompressed]
    exact read

end ClassDefinition

namespace PortableContext

/-- No compressed definition that is cut off is imported, and nothing comes of the attempt, nor of a
    part of any stream that is read to its last byte.  A stream that has more bytes behind its end
    may lose those, and only those. -/
theorem importCompressed_of_cut {definition : ClassDefinition} {binary : Bytes}
    (written : definition.compressedLayout = .ok binary) :
    (∃ layout, definition.layout = .ok layout ∧ Zlib.decompress? binary = some layout ∧
        Zlib.EndsWith binary layout) ∧
      (∀ cut, cut <+: binary → cut ≠ binary → ∀ context : PortableContext,
        importCompressed cut context = (.error .decompressionFailed, context)) ∧
      (∀ stream run, Zlib.EndsWith stream run → ∀ cut, cut <+: stream → cut ≠ stream →
        ∀ context : PortableContext,
          importCompressed cut context = (.error .decompressionFailed, context)) ∧
      ∀ stream cut, ClassDefinition.ofCompressed stream = .ok definition → cut <+: stream →
        (∀ context : PortableContext,
          importCompressed cut context = (.error .decompressionFailed, context)) ∨
        ClassDefinition.ofCompressed cut = .ok definition := by
  obtain ⟨layout, laid, rfl⟩ := Act.settled_map_ok written
  have whole := Zlib.endsWith_compress layout
  have refused : ∀ stream run, Zlib.EndsWith stream run → ∀ cut, cut <+: stream → cut ≠ stream →
      ∀ context : PortableContext,
        importCompressed cut context = (.error .decompressionFailed, context) := by
    intro stream run whole cut part shorter context
    have damaged := whole.decompress?_of_cut part shorter
    exact importCompressed_of_unreadable (ClassDefinition.ofCompressed_of_decompress?_none damaged)
  refine ⟨⟨layout, laid, Zlib.decompress?_compress layout, whole⟩, refused _ layout whole, refused, ?_⟩
  intro stream cut read part
  refine (ClassDefinition.ofCompressed_of_prefix read part).imp_left ?_
  intro damaged context
  exact importCompressed_of_unreadable damaged

theorem importCompressed_of_cut_fieldless :
    ∃ binary, (ClassDefinition.fieldless ⟨7, 2⟩).compressedLayout = .ok binary ∧
      ClassDefinition.ofCompressed binary = .ok (.fieldless ⟨7, 2⟩) ∧
      binary.dropLast <+: binary ∧ binary.dropLast ≠ binary ∧
      ∀ context : PortableContext,
        importCompressed binary.dropLast context = (.error .decompressionFailed, context) := by
  obtain ⟨binary, written⟩ :
      ∃ binary, (ClassDefinition.fieldless ⟨7, 2⟩).compressedLayout = .ok binary := ⟨_, rfl⟩
  have read : ClassDefinition.ofCompressed binary = .ok (.fieldless ⟨7, 2⟩) :=
    ClassDefinition.ofCompressed_compressedLayout (ClassDefinition.wellFormed_fieldless ⟨7, 2⟩)
      (by decide) written
  have shorter : binary.dropLast ≠ binary := by
    obtain ⟨layout, -, rfl⟩ := Act.settled_map_ok written
    intro same
    have length := congrArg List.length same
    simp only [List.length_dropLast, Zlib.compress, Zlib.framed, Zlib.header, List.length_append,
      List.length_cons] at length
    omega
  have refused := (importCompressed_of_cut written).2.1 _ binary.dropLast_prefix shorter
  exact ⟨binary, written, read, binary.dropLast_prefix, shorter, refused⟩

end PortableContext

end ObjectWire
