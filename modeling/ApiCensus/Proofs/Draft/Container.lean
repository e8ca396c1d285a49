/-
  The container of a module that is written.

  * `RuntimeHeader.ofBytes_written`: the runtime header is read as it was written.
  * `Image.sees_content`: the section stands behind the headers of the image.
  * `Image.offset_written`: it is found at its address.
-/
import ApiCensus.Draft.Image
import ApiCensus.Proofs.Bytes.Reading

namespace ApiCensus

/-! ## The runtime header -/

namespace RuntimeHeader

theorem length_encode (header : RuntimeHeader) : header.encode.length = length := by
  simp [encode, LittleEndian.length_encodeAll, widths, fields, length]

theorem reads_directory {address size : Nat} (ha : address < LittleEndian.bound 4)
    (hs : size < LittleEndian.bound 4) :
    Cursor.Reads readDirectory (LittleEndian.encode 4 address ++ LittleEndian.encode 4 size)
      { address, size } :=
  (Cursor.reads_number ha).bind ((Cursor.reads_number hs).map _)

/-- The header of a module is read as it was written. -/
theorem ofBytes_written {position size : Nat}
    (haddress : Image.sectionAddress + position < LittleEndian.bound 4)
    (hsize : size < LittleEndian.bound 4) (hne : size ≠ 0) :
    ofBytes (ModuleDraft.runtimeHeader position size).encode.toByteArray =
      .ok (ModuleDraft.runtimeHeader position size) := by
  have hnone : Cursor.Reads readDirectory (LittleEndian.encode 4 0 ++ LittleEndian.encode 4 0) {} :=
    reads_directory (by decide) (by decide)
  have hmetadata : ¬ (Image.sectionAddress + position = 0 ∨ size = 0) := by
    simp only [Image.sectionAddress]
    omega
  have hbytes : (ModuleDraft.runtimeHeader position size).encode =
      LittleEndian.encode 4 length ++ (LittleEndian.encode 2 2 ++ (LittleEndian.encode 2 5 ++
        ((LittleEndian.encode 4 (Image.sectionAddress + position) ++ LittleEndian.encode 4 size) ++
          (LittleEndian.encode 4 1 ++ (LittleEndian.encode 4 0 ++
            ((LittleEndian.encode 4 0 ++ LittleEndian.encode 4 0) ++
            ((LittleEndian.encode 4 0 ++ LittleEndian.encode 4 0) ++
            ((LittleEndian.encode 4 0 ++ LittleEndian.encode 4 0) ++
            ((LittleEndian.encode 4 0 ++ LittleEndian.encode 4 0) ++
            ((LittleEndian.encode 4 0 ++ LittleEndian.encode 4 0) ++
              (LittleEndian.encode 4 0 ++ LittleEndian.encode 4 0))))))))))) := by
    simp [encode, widths, fields, LittleEndian.encodeAll, ModuleDraft.runtimeHeader]
  have hread : Cursor.Reads read (ModuleDraft.runtimeHeader position size).encode
      (ModuleDraft.runtimeHeader position size) := by
    rw [hbytes, read]
    refine (Cursor.reads_number (by decide)).bind ?_
    rw [if_neg (Nat.lt_irrefl _)]
    refine (Cursor.reads_number (by decide)).bind ((Cursor.reads_number (by decide)).bind ?_)
    refine (reads_directory haddress hsize).bind ?_
    refine (Cursor.reads_number (by decide)).bind ((Cursor.reads_number (by decide)).bind ?_)
    refine hnone.bind (hnone.bind (hnone.bind (hnone.bind (hnone.bind (hnone.bind_nil ?_)))))
    rw [if_neg hmetadata]
    exact Cursor.reads_pure _
  have hlength : (ModuleDraft.runtimeHeader position size).encode.toByteArray.size = length := by
    rw [List.size_toByteArray, length_encode]
  have hrun := hread { data := (ModuleDraft.runtimeHeader position size).encode.toByteArray } [] (by
    rw [List.append_nil]
    exact Cursor.sees_start _)
  rw [ofBytes, if_neg (Nat.not_lt.2 (Nat.le_of_eq hlength.symm))]
  exact congrArg Prod.fst hrun

end RuntimeHeader

namespace Image

/-! ## Headers -/

/-- The section that is written. -/
def writtenSection (size : Nat) : Section where
  address := sectionAddress
  virtualSize := size
  dataOffset := fileUnit
  dataSize := Alignment.roundUp fileUnit size

theorem length_encodeOptionalStart (size : Nat) : (encodeOptionalStart size).length = 96 := by
  simp [encodeOptionalStart, LittleEndian.length_encodeAll]

theorem length_encodeDirectories : encodeDirectories.length = 128 :=
  LittleEndian.length_encodeAll _

theorem length_encodeSectionHeader (size : Nat) : (encodeSectionHeader size).length = 40 := by
  have hname : ".text".utf8ByteSize = 5 := by decide
  simp [encodeSectionHeader, hname, LittleEndian.length_encodeAll]

theorem length_encodeHeaders (size : Nat) : (encodeHeaders size).length = 416 := by
  have hold : encodeOldHeader.length = 128 := LittleEndian.length_encodeAll _
  have hfile : encodeFileHeader.length = 24 := LittleEndian.length_encodeAll _
  simp only [encodeHeaders, List.length_append, hold, hfile, length_encodeOptionalStart,
    length_encodeDirectories, length_encodeSectionHeader]

/-- The bytes of an image: the headers, the section, and zeros behind both. -/
theorem encode_eq (content : List UInt8) : ∃ gap zeros : List UInt8,
    (encodeHeaders content.length ++ gap).length = fileUnit ∧
      encode content = (encodeHeaders content.length ++ gap) ++ (content ++ zeros) := by
  refine ⟨_, _, ?_, rfl⟩
  rw [List.length_append, Alignment.padding, List.length_replicate, length_encodeHeaders]
  rfl

/-- The section stands behind the headers. -/
theorem sees_content (content : List UInt8) : ∃ zeros : List UInt8,
    Cursor.Sees { data := (encode content).toByteArray, pos := fileUnit } (content ++ zeros) := by
  obtain ⟨gap, zeros, hunit, hbytes⟩ := encode_eq content
  have hs := Cursor.sees_behind (encodeHeaders content.length ++ gap) (content ++ zeros)
  rw [← hbytes, hunit] at hs
  exact ⟨zeros, hs⟩

/-! ## The way to the metadata -/

/-- A section: a runtime header, other bytes, and metadata. -/
def sectionOf (between metadata : List UInt8) : List UInt8 :=
  (ModuleDraft.runtimeHeader (RuntimeHeader.length + between.length) metadata.length).encode
    ++ (between ++ metadata)

theorem length_sectionOf (between metadata : List UInt8) :
    (sectionOf between metadata).length =
      RuntimeHeader.length + between.length + metadata.length := by
  rw [sectionOf, List.length_append, List.length_append, RuntimeHeader.length_encode,
    Nat.add_assoc]

theorem sees_metadata {data : ByteArray} {between metadata zeros : List UInt8}
    (hs : Cursor.Sees { data, pos := fileUnit } (sectionOf between metadata ++ zeros)) :
    Cursor.Sees { data, pos := fileUnit + (RuntimeHeader.length + between.length) }
      (metadata ++ zeros) := by
  rw [sectionOf, ← List.append_assoc, List.append_assoc] at hs
  have hback := hs.forward
  rwa [List.length_append, RuntimeHeader.length_encode] at hback

theorem offset_written {image : Image} {size offset : Nat}
    (hsections : image.sections = [writtenSection size])
    (hsize : sectionAddress + size < addressBound) (h : offset < size) :
    image.offset (sectionAddress + offset) = .ok (fileUnit + offset) := by
  have haddress : ¬ addressBound ≤ sectionAddress + offset := by omega
  have hextent : ¬ addressBound ≤ (writtenSection size).address + (writtenSection size).virtualSize :=
    Nat.not_le.2 hsize
  have hinside : (writtenSection size).address ≤ sectionAddress + offset ∧ sectionAddress + offset <
      (writtenSection size).address + (writtenSection size).virtualSize := by
    simp only [writtenSection]
    omega
  rw [Image.offset, if_neg haddress, hsections, offsetIn, if_neg hextent, if_pos hinside]
  have hplace : sectionAddress + offset - sectionAddress + fileUnit = fileUnit + offset := by omega
  exact congrArg Except.ok hplace

theorem slice_of_sees {image : Image} {pos : Nat} {front back : List UInt8}
    (hs : Cursor.Sees { data := image.data, pos } (front ++ back)) :
    image.slice pos front.length = .ok front.toByteArray := by
  have hlength := hs.length_add
  dsimp only at hlength
  rw [slice, sliceOf, if_pos (by omega)]
  exact congrArg Except.ok hs.extract

end Image

end ApiCensus
