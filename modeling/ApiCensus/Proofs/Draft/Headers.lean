/-
  The headers of a module that is written are read.

  * `Image.reads_optionalHeader`, `Image.reads_section`: the headers are read as they were written.
  * `Image.loadedOffset_written`: a loader finds the section at its address.
  * `Image.readLoadable_written`: so it gets to the metadata of a section, and takes the image.
  * `ModuleDraft.headersRead_loadable`: what is found in the headers of a module is what was
    written.
-/
import ApiCensus.Image.Headers
import ApiCensus.Proofs.Draft.Opening

namespace ApiCensus

open Attempt

namespace Cursor

/-- A step to a place inside the data. -/
theorem seek_sees {cursor place : Cursor} {bytes : List UInt8} (h : place.Sees bytes)
    (hdata : place.data = cursor.data) : seek place.pos cursor = (.ok (), place) := by
  have hinside := h.inside
  rw [hdata] at hinside
  rw [seek, if_pos hinside, ← hdata]

end Cursor

namespace Image

/-! ## Headers -/

/-- The directories that are written. -/
def writtenDirectories : List DataDirectory :=
  let none : DataDirectory := {}
  List.replicate runtimeDirectory none ++
    [{ address := sectionAddress, size := RuntimeHeader.length }, none]

/-- The optional header that is written. -/
def writtenOptional : OptionalFields where
  fileAlignment := fileUnit
  directories := writtenDirectories

theorem reads_directories :
    Cursor.Reads (repeated RuntimeHeader.readDirectory maxDirectories) encodeDirectories
      writtenDirectories := by
  have hbytes : encodeDirectories = writtenDirectories.flatMap fun directory =>
      LittleEndian.encode 4 directory.address ++ LittleEndian.encode 4 directory.size := by decide
  rw [hbytes]
  refine Cursor.reads_repeated fun directory hdirectory => ?_
  have hsmall : ∀ directory ∈ writtenDirectories, directory.address < LittleEndian.bound 4 ∧
      directory.size < LittleEndian.bound 4 := by decide
  exact RuntimeHeader.reads_directory (hsmall _ hdirectory).1 (hsmall _ hdirectory).2

theorem require_true (condition : Bool) (h : condition = true) : require condition = pure () :=
  if_pos h

/-- The optional header is read as it was written. -/
theorem reads_optionalHeader (size : Nat) :
    Cursor.Reads readOptionalHeader (encodeOptionalStart size ++ encodeDirectories)
      writtenOptional := by
  intro cursor back hs
  obtain ⟨before, after, hstart, hbefore, hafter⟩ : ∃ before after : List UInt8,
      encodeOptionalStart size = LittleEndian.encode 2 0x10B ++ (before ++
        (LittleEndian.encode 4 fileUnit ++ (after ++ LittleEndian.encode 4 maxDirectories))) ∧
      before.length = 34 ∧ after.length = 52 :=
    ⟨LittleEndian.encodeAll
        [(1, 48), (1, 0), (4, Alignment.roundUp fileUnit size), (12, 0), (4, sectionAddress), (4, 0),
         (4, 0x10000000), (4, sectionUnit)],
      LittleEndian.encodeAll
        [(2, 4), (6, 0), (2, 4), (2, 0), (4, 0),
         (4, sectionAddress + Alignment.roundUp sectionUnit size), (4, fileUnit), (4, 0), (2, 3),
         (2, 0x8540), (4, 0x100000), (4, 0x1000), (4, 0x100000), (4, 0x1000), (4, 0)],
      rfl, rfl, rfl⟩
  rw [hstart] at hs ⊢
  simp only [List.append_assoc] at hs
  obtain ⟨hmagic, hs⟩ := hs.number_bind (by decide)
  have halignment := hs.forward
  obtain ⟨hunit, hs⟩ := halignment.number_bind (by decide)
  have hcount := hs.forward
  obtain ⟨hnumber, hs⟩ := hcount.number_bind (by decide)
  have hdirectories := reads_directories _ _ hs
  simp only [Cursor.forward_forward, hbefore, hafter] at halignment hunit hcount hnumber hdirectories
  have hposition : Cursor.position cursor = (.ok cursor.pos, cursor) := rfl
  have hfirst : Cursor.seek (cursor.pos + 36) (cursor.forward 2) =
      (.ok (), cursor.forward (2 + 34)) := Cursor.seek_sees halignment rfl
  have hsecond : Cursor.seek (cursor.pos + if (0x10B == 0x10B) = true then 92 else 108)
      (cursor.forward (2 + 34 + 4)) = (.ok (), cursor.forward (2 + 34 + 4 + 52)) :=
    Cursor.seek_sees hcount rfl
  rw [readOptionalHeader, bind_apply_ok hposition, hmagic, require_true _ (by decide), pure_bind,
    bind_apply_ok hfirst, hunit, bind_apply_ok hsecond, hnumber, require_true _ (by decide),
    pure_bind, bind_apply_ok hdirectories]
  simp only [pure_apply, writtenOptional, List.length_append, LittleEndian.length_encode, hbefore,
    hafter, length_encodeDirectories]

/-- The header of the section is read as it was written. -/
theorem reads_section {size : Nat} (hsize : Alignment.roundUp fileUnit size < LittleEndian.bound 4) :
    Cursor.Reads readSection (encodeSectionHeader size) (writtenSection size) := by
  have hle : size ≤ Alignment.roundUp fileUnit size := by
    rw [Alignment.roundUp, Alignment.roundDown, fileUnit]
    omega
  have hbytes : encodeSectionHeader size =
      (".text".toUTF8.data.toList ++ LittleEndian.encode 3 0) ++ (LittleEndian.encode 4 size ++
        (LittleEndian.encode 4 sectionAddress ++
          (LittleEndian.encode 4 (Alignment.roundUp fileUnit size) ++
            (LittleEndian.encode 4 fileUnit ++ LittleEndian.encodeAll [(12, 0), (4, 0x60000020)])))) :=
    by simp [encodeSectionHeader, LittleEndian.encodeAll]
  rw [hbytes]
  refine (Cursor.reads_advance _).bind ?_
  refine (Cursor.reads_number (Nat.lt_of_le_of_lt hle hsize)).bind ?_
  refine (Cursor.reads_number (by decide)).bind ?_
  refine (Cursor.reads_number hsize).bind ?_
  refine (Cursor.reads_number (by decide)).bind ?_
  exact (Cursor.reads_advance (LittleEndian.encodeAll [(12, 0), (4, 0x60000020)])).map _

/-! ## Places -/

theorem le_loadedSize (size : Nat) : size ≤ loadedSize fileUnit (writtenSection size) := by
  by_cases hsize : size = 0
  · rw [hsize]
    exact Nat.zero_le _
  · have hdata : (writtenSection size).dataSize ≠ 0 := by
      simp only [writtenSection, fileUnit, Alignment.roundUp, Alignment.roundDown]
      omega
    have hvirtual : (writtenSection size).virtualSize ≠ 0 := hsize
    rw [loadedSize, if_neg hdata]
    dsimp only
    rw [if_neg hvirtual]
    simp only [writtenSection, fileUnit, sectorSize, pageSize, Alignment.roundUp,
      Alignment.roundDown]
    omega

theorem loadedOffset_written {size offset : Nat} (h : offset < size) :
    loadedOffset? fileUnit [writtenSection size] (sectionAddress + offset) =
      some (fileUnit + offset) := by
  have hsize := le_loadedSize size
  have hinside : (decide ((writtenSection size).address ≤ sectionAddress + offset) &&
      decide (sectionAddress + offset <
        (writtenSection size).address + loadedSize fileUnit (writtenSection size))) = true := by
    have haddress : (writtenSection size).address = sectionAddress := rfl
    rw [haddress, Bool.and_eq_true, decide_eq_true_eq, decide_eq_true_eq]
    omega
  simp only [loadedOffset?, List.find?_cons, hinside, Option.map_some]
  have hplace : sectionAddress + offset - sectionAddress + fileUnit = fileUnit + offset := by omega
  exact congrArg some hplace

/-- The header for old systems: two bytes that tell what it is, and the place of the other header. -/
theorem encodeOldHeader_eq : ∃ before after : List UInt8,
    encodeOldHeader = LittleEndian.encode 2 0x5A4D ++ (before ++
      (LittleEndian.encode 4 newHeaderStart ++ after)) ∧
    before.length = 0x3A ∧ after.length = 0x40 :=
  ⟨LittleEndian.encode 0x3A 0, LittleEndian.encode 0x40 0, rfl, LittleEndian.length_encode _ _,
    LittleEndian.length_encode _ _⟩

/-- What readers ask of the size of the data before they read on. -/
theorem guards_of_size {size : Nat} (h : fileUnit ≤ size) :
    decide (dosHeaderSize ≤ size) = true ∧
      (decide (dosHeaderSize ≤ newHeaderStart) && decide (newHeaderStart < size)) = true ∧
      decide (1 ≤ size / sectionHeaderSize) = true := by
  rw [fileUnit] at h
  rw [Bool.and_eq_true, decide_eq_true_eq, decide_eq_true_eq, decide_eq_true_eq,
    decide_eq_true_eq, dosHeaderSize, newHeaderStart, sectionHeaderSize]
  omega

/-- The headers are read as they were written. -/
theorem readHeaders_of_sees {data : ByteArray} {size : Nat} {back : List UInt8}
    (hs : Cursor.Sees { data } (encodeHeaders size ++ back)) (hdata : fileUnit ≤ data.size)
    (hsize : Alignment.roundUp fileUnit size < LittleEndian.bound 4) :
    readHeaders { data } =
      (.ok (some writtenOptional, [writtenSection size]), Cursor.forward { data } 416) := by
  obtain ⟨before, after, hold, hbefore, hafter⟩ := encodeOldHeader_eq
  have hfile : encodeFileHeader = LittleEndian.encode 4 0x4550 ++ (LittleEndian.encode 2 0x14C ++
      (LittleEndian.encode 2 1 ++ (LittleEndian.encode 12 0 ++
        (LittleEndian.encode 2 optionalSize ++ LittleEndian.encode 2 0x2102)))) := rfl
  rw [encodeHeaders, hold, hfile] at hs
  simp only [List.append_assoc] at hs
  obtain ⟨hmagic, hs⟩ := hs.number_bind (by decide)
  have hplace := hs.forward
  obtain ⟨hstart, hs⟩ := hplace.number_bind (by decide)
  have hnew := hs.forward
  obtain ⟨hsignature, hs⟩ := hnew.number_bind (by decide)
  have hmachine := Cursor.reads_advance (LittleEndian.encode 2 0x14C) _ _ hs
  obtain ⟨hcount, hs⟩ := hs.forward.number_bind (by decide)
  have hstamps := Cursor.reads_advance (LittleEndian.encode 12 0) _ _ hs
  obtain ⟨hlength, hs⟩ := hs.forward.number_bind (by decide)
  have hflags := Cursor.reads_advance (LittleEndian.encode 2 0x2102) _ _ hs
  have hs := hs.forward
  rw [← List.append_assoc (encodeOptionalStart size)] at hs
  have hoptional := reads_optionalHeader size _ _ hs
  have hsection := hs.forward
  have hlast := reads_section hsize _ _ hsection
  simp only [Cursor.forward_forward, hbefore, hafter, LittleEndian.length_encode,
    length_encodeOptionalStart, length_encodeDirectories, length_encodeSectionHeader,
    List.length_append]
    at hplace hstart hnew hsignature hmachine hcount hstamps hlength hflags hoptional hsection hlast
  have htop : Cursor.seek 0x3C (Cursor.forward { data } 2) =
      (.ok (), Cursor.forward { data } (2 + 58)) := Cursor.seek_sees hplace rfl
  have hnext : Cursor.seek newHeaderStart (Cursor.forward { data } (2 + 58 + 4)) =
      (.ok (), Cursor.forward { data } (2 + 58 + 4 + 64)) := Cursor.seek_sees hnew rfl
  have hsome := congrArg (fun run => (run.1.map some, run.2)) hoptional
  rw [← map_apply] at hsome
  have hend : Cursor.seek (newHeaderStart + 24 + optionalSize) _ = _ :=
    Cursor.seek_sees hsection rfl
  obtain ⟨hdos, hinside, hroom⟩ := guards_of_size hdata
  rw [readHeaders, bind_apply_ok (get_apply _)]
  dsimp only
  rw [require_true _ hdos, pure_bind, hmagic,
    require_true _ (by decide), pure_bind, bind_apply_ok htop, hstart,
    require_true _ hinside, pure_bind, bind_apply_ok hnext, hsignature,
    require_true _ (by decide), pure_bind, bind_apply_ok hmachine, hcount,
    bind_apply_ok hstamps, hlength, bind_apply_ok hflags, if_neg (by decide)]
  rw [bind_apply_ok hsome, require_true _ hroom, pure_bind, bind_apply_ok hend, repeated,
    bind_apply, bind_apply_ok hlast]
  rfl

/-! ## The way to the metadata -/

theorem seekLoaded_of_sees {data : ByteArray} {pos size offset : Nat} {bytes : List UInt8}
    (hs : Cursor.Sees { data, pos := fileUnit + offset } bytes) (h : offset < size) :
    seekLoaded fileUnit [writtenSection size] (sectionAddress + offset) { data, pos } =
      (.ok (), { data, pos := fileUnit + offset }) := by
  rw [seekLoaded, loadedOffset_written h]
  exact Cursor.seek_sees hs rfl

/-- The version of metadata is read. -/
theorem reads_version {front version back : List UInt8} (hfront : front.length = 12)
    (hback : back.length = 4) (hlength : version.length < LittleEndian.bound 4)
    (hversion : version.toByteArray.validateUTF8 = true) :
    Cursor.Reads (do
        Cursor.advance 12
        let versionLength ← Cursor.number 4
        let version ← Cursor.take versionLength
        require version.validateUTF8
        Cursor.advance 4)
      (front ++ (LittleEndian.encode 4 version.length ++ (version ++ back))) () := by
  have hskip := Cursor.reads_advance front
  have hlast := Cursor.reads_advance back
  rw [hfront] at hskip
  rw [hback] at hlast
  refine hskip.bind ((Cursor.reads_number hlength).bind ((Cursor.reads_take version).bind ?_))
  rw [require_true _ hversion, pure_bind]
  exact hlast

/-- The runtime header tells where the metadata lies. -/
theorem encode_runtimeHeader (offset size : Nat) : ∃ before after : List UInt8,
    (ModuleDraft.runtimeHeader offset size).encode =
      before ++ ((LittleEndian.encode 4 (sectionAddress + offset) ++ LittleEndian.encode 4 size) ++
        after) ∧
    before.length = 8 ∧ after.length = RuntimeHeader.length - 16 :=
  ⟨LittleEndian.encodeAll [(4, RuntimeHeader.length), (2, 2), (2, 5)],
    LittleEndian.encodeAll ((4, 1) :: List.replicate 13 (4, 0)), by
      simp [RuntimeHeader.encode, RuntimeHeader.widths, RuntimeHeader.fields,
        LittleEndian.encodeAll, ModuleDraft.runtimeHeader], rfl, rfl⟩

/-- A loader finds the metadata through the runtime header. -/
theorem checkRuntime_of_sees {data : ByteArray} {pos : Nat}
    {between metadata front version back rest zeros : List UInt8}
    (hs : Cursor.Sees { data, pos := fileUnit } (sectionOf between metadata ++ zeros))
    (hsize : sectionAddress + (sectionOf between metadata).length < LittleEndian.bound 4)
    (hmetadata : metadata =
      front ++ (LittleEndian.encode 4 version.length ++ (version ++ back)) ++ rest)
    (hfront : front.length = 12) (hback : back.length = 4)
    (hversion : version.toByteArray.validateUTF8 = true) :
    ∃ stop, checkRuntime fileUnit [writtenSection (sectionOf between metadata).length]
      sectionAddress { data, pos } = (.ok (), stop) := by
  have hplace := sees_metadata hs
  have hinside := hplace.length_add
  dsimp only at hinside
  have hlengths := congrArg List.length hmetadata
  simp only [List.length_append, LittleEndian.length_encode, hfront, hback] at hlengths
  rw [length_sectionOf] at hsize ⊢
  obtain ⟨before, after, hheader, hbefore, hafter⟩ :=
    encode_runtimeHeader (RuntimeHeader.length + between.length) metadata.length
  have hfirst : seekLoaded fileUnit
      [writtenSection (RuntimeHeader.length + between.length + metadata.length)] sectionAddress
      { data, pos } = (.ok (), { data, pos := fileUnit }) :=
    seekLoaded_of_sees hs (show 0 < _ by rw [RuntimeHeader.length]; omega)
  rw [sectionOf, hheader] at hs
  simp only [List.append_assoc] at hs
  have hskip := Cursor.reads_advance before _ _ hs
  have hs := hs.forward
  rw [← List.append_assoc (LittleEndian.encode 4 _)] at hs
  have hdirectory := RuntimeHeader.reads_directory (by omega) (by omega) _ _ hs
  have hrest := Cursor.reads_advance after _ _ hs.forward
  rw [hbefore] at hskip hdirectory hrest
  rw [hafter] at hrest
  rw [checkRuntime, require_true _ (by decide), pure_bind, bind_apply_ok hfirst,
    bind_apply_ok hskip, bind_apply_ok hdirectory, bind_apply_ok hrest]
  dsimp only [Cursor.forward]
  rw [bind_apply_ok (seekLoaded_of_sees hplace (by omega)),
    bind_apply_ok (show Cursor.position _ = _ from rfl), bind_apply_ok (get_apply _),
    require_true, pure_bind]
  · rw [hmetadata] at hplace
    rw [List.append_assoc] at hplace
    exact ⟨_, reads_version hfront hback (by omega) hversion _ _ hplace⟩
  · rw [decide_eq_true_eq]
    dsimp only
    omega

/-- **The image of a section with a runtime header and metadata is taken, with the section as it
    was written and the runtime header at its start.** -/
theorem readLoadable_written {data : ByteArray}
    {between metadata front version back rest : List UInt8}
    (hdata : data = (encode (sectionOf between metadata)).toByteArray)
    (hsize : sectionAddress + (sectionOf between metadata).length < addressBound)
    (hmetadata : metadata =
      front ++ (LittleEndian.encode 4 version.length ++ (version ++ back)) ++ rest)
    (hfront : front.length = 12) (hback : back.length = 4)
    (hversion : version.toByteArray.validateUTF8 = true) :
    readLoadable.result { data } = .ok
      { optional := some { runtime := some { address := sectionAddress, size := RuntimeHeader.length } }
        sections := [writtenSection (sectionOf between metadata).length] } := by
  obtain ⟨gap, zeros, -, hbytes⟩ := encode_eq (sectionOf between metadata)
  have hround : Alignment.roundUp fileUnit (sectionOf between metadata).length <
      LittleEndian.bound 4 := by
    simp only [Alignment.roundUp, Alignment.roundDown, fileUnit, sectionAddress, addressBound,
      LittleEndian.bound] at hsize ⊢
    omega
  have hs := Cursor.sees_start (encode (sectionOf between metadata))
  obtain ⟨_, hcontent⟩ := sees_content (sectionOf between metadata)
  rw [← hdata] at hcontent
  rw [← hdata, hbytes, List.append_assoc] at hs
  have hheaders := readHeaders_of_sees hs hcontent.inside hround
  obtain ⟨stop, hruntime⟩ : ∃ stop, checkRuntime fileUnit _ sectionAddress _ = (.ok (), stop) :=
    checkRuntime_of_sees hcontent hsize hmetadata hfront hback hversion
  have hplace : runtimeOf writtenOptional =
      some { address := sectionAddress, size := RuntimeHeader.length } := by decide
  have hrun : readLoadable { data } =
      (.ok { optional := some { runtime := runtimeOf writtenOptional }
             sections := [writtenSection (sectionOf between metadata).length] }, stop) := by
    rw [readLoadable, bind_apply_ok hheaders]
    dsimp only [Option.bind_some]
    rw [hplace]
    exact bind_apply_ok hruntime
  rw [Attempt.result, hrun, hplace]

end Image

namespace ModuleDraft

/-- The reader that the program runs with finds the headers of a module as they were written. -/
theorem headersRead_loadable (draft : ModuleDraft)
    (hsize : Image.sectionAddress + draft.content.length < Image.addressBound) :
    draft.HeadersRead := by
  obtain ⟨between, hcontent⟩ := draft.content_eq
  obtain ⟨front, back, rest, hmetadata, hfront, hback⟩ :=
    metadata_eq (draft.streams draft.addresses)
  have hversion : MetadataRoot.writtenVersion.toByteArray.validateUTF8 = true := by decide +kernel
  have himage : draft.image = (Image.encode (Image.sectionOf between
      (draft.metadata draft.addresses))).toByteArray := by rw [image, hcontent]
  rw [hcontent] at hsize
  have hread := Image.readLoadable_written himage hsize hmetadata hfront hback hversion
  rw [HeadersRead, loaded, hcontent]
  exact congrArg Except.toOption hread

end ModuleDraft

end ApiCensus
