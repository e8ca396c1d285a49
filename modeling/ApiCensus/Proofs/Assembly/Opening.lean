/-
  What is known of an assembly that was opened.

  * `MetadataRoot.inside_of_ofBytes`: the streams of metadata lie inside it.
  * `Assembly.exists_ofImage`: it was opened from an image with the bytes that were given.
  * `Assembly.ofImage_eq_ok`: where the metadata lies, and what its tables are read from.
  * `Assembly.tables_tile`: the tables of a stream lie one behind the other, so none of them is
    replaced by one without rows; nor is one in an assembly that was opened.
-/
import ApiCensus.Assembly.Basic
import ApiCensus.Draft.Image
import ApiCensus.Proofs.Metadata.Extents

namespace ApiCensus

/-! ## Streams -/

namespace MetadataRoot

theorem inside_of_readStreams {data : ByteArray} {count offset : Nat} {streams : List StreamHeader}
    (h : readStreams data count offset = .ok streams) :
    ∀ entry ∈ streams,
      entry.offset + entry.size ≤ data.size ∧ entry.offset + entry.size < extentBound := by
  induction count generalizing offset streams with
  | zero =>
    obtain rfl := Except.ok.inj h
    simp
  | succ count ih =>
    rw [readStreams] at h
    split at h
    · cases h
    obtain ⟨first, -, h⟩ := except_bind_eq_ok h
    simp only at h
    split at h
    · cases h
    rename_i hbound
    split at h
    · cases h
    rename_i hstop
    obtain ⟨rest, hrest, h⟩ := except_bind_eq_ok h
    obtain rfl := Except.ok.inj h
    intro entry hentry
    rcases List.mem_cons.1 hentry with rfl | hentry
    · exact ⟨Nat.le_of_not_lt hstop, Nat.lt_of_not_le hbound⟩
    · exact ih hrest entry hentry

/-- The streams of metadata lie inside it, and 32 bits hold the position where one ends. -/
theorem inside_of_ofBytes {data : ByteArray} {root : MetadataRoot} (h : ofBytes data = .ok root) :
    ∀ entry ∈ root.streams,
      entry.offset + entry.size ≤ data.size ∧ entry.offset + entry.size < extentBound := by
  unfold ofBytes at h
  split at h
  · cases h
  simp only at h
  split at h
  · cases h
  split at h
  · cases h
  split at h
  · split at h
    · cases h
    obtain ⟨streams, hstreams, h⟩ := except_bind_eq_ok h
    obtain rfl := Except.ok.inj h
    exact inside_of_readStreams hstreams
  · cases h

theorem mem_of_stream? {root : MetadataRoot} {name : String} {entry : StreamHeader}
    (h : root.stream? name = some entry) : entry ∈ root.streams :=
  List.mem_of_find?_eq_some h

end MetadataRoot

/-! ## Images -/

/-- An image holds all bytes that it is read from. -/
theorem Image.data_of_ofBytes [HeaderReader] {data : ByteArray} {image : Image}
    (h : ofBytes data = .ok image) : image.data = data := by
  rw [ofBytes] at h
  split at h
  · cases h
  split at h
  · cases h
  · cases h
  split at h
  · split at h
    · cases h
    · rw [← Except.ok.inj h]
  · cases h

theorem Image.slice_eq_ok {image : Image} {offset length : Nat} {data : ByteArray}
    (h : image.slice offset length = .ok data) :
    offset + length ≤ image.data.size ∧ data.size = length := by
  unfold slice sliceOf at h
  split at h
  · rename_i hle
    obtain rfl := Except.ok.inj h
    exact ⟨hle, by rw [ByteArray.size_extract]; omega⟩
  · cases h

theorem Image.slice_ok {image : Image} {offset length : Nat}
    (h : offset + length ≤ image.data.size) : ∃ data, image.slice offset length = .ok data :=
  ⟨_, if_pos h⟩

namespace Assembly

/-- Whatever a reader finds in the headers, an assembly is opened from an image of all bytes. -/
theorem exists_ofImage [HeaderReader] {data : ByteArray} {assembly : Assembly}
    (h : ofBytes data = .ok assembly) :
    ∃ image : Image, image.data = data ∧ ofImage image = .ok assembly := by
  obtain ⟨image, himage, hopen⟩ := except_bind_eq_ok h
  exact ⟨image, Image.data_of_ofBytes himage, hopen⟩

/-- Where the metadata of an opened assembly lies, and what its tables are read from. -/
theorem ofImage_eq_ok {image : Image} {assembly : Assembly} (h : ofImage image = .ok assembly) :
    assembly.image = image ∧ ∃ start metadata,
      assembly.image.offset assembly.runtime.metadata.address = .ok start ∧
      assembly.image.slice start assembly.runtime.metadata.size = .ok metadata ∧
      MetadataRoot.ofBytes metadata = .ok assembly.root ∧
      ∃ entry ∈ assembly.root.streams, ∃ tables,
        assembly.image.slice (start + entry.offset) entry.size = .ok tables ∧
        TableStream.ofBytes tables = .ok assembly.stream ∧
        assembly.rowBytes =
          Vector.ofFn fun i => assembly.stream.bytesOf tables (TableId.ofNat i) := by
  obtain ⟨runtimeOffset, -, h⟩ := except_bind_eq_ok h
  obtain ⟨header, -, h⟩ := except_bind_eq_ok h
  obtain ⟨runtime, -, h⟩ := except_bind_eq_ok h
  obtain ⟨start, hstart, h⟩ := except_bind_eq_ok h
  obtain ⟨metadata, hmetadata, h⟩ := except_bind_eq_ok h
  obtain ⟨root, hroot, h⟩ := except_bind_eq_ok h
  split at h
  · cases h
  · cases h
  · rename_i entry strings hentry _
    obtain ⟨tables, htables, h⟩ := except_bind_eq_ok h
    obtain ⟨stream, hstream, h⟩ := except_bind_eq_ok h
    split at h
    · cases h
    obtain ⟨owners, -, h⟩ := except_bind_eq_ok h
    obtain rfl := Except.ok.inj h
    have hmem : entry ∈ root.streams := by
      rcases Option.or_eq_some_iff.1 hentry with hentry | ⟨-, hentry⟩
      · exact MetadataRoot.mem_of_stream? hentry
      · exact MetadataRoot.mem_of_stream? hentry
    exact ⟨rfl, start, metadata, hstart, hmetadata, hroot, entry, hmem, tables, htables, hstream,
      rfl⟩

/-- The streams of an opened assembly lie in its image, and one of them holds its tables. -/
theorem streams_of_ofImage {image : Image} {assembly : Assembly}
    (h : ofImage image = .ok assembly) :
    ∃ start, assembly.image.offset assembly.runtime.metadata.address = .ok start ∧
      (∀ entry ∈ assembly.root.streams,
        assembly.image.slice (start + entry.offset) entry.size =
          .ok (streamBytes assembly.image start entry)) ∧
      ∃ entry ∈ assembly.root.streams,
        TableStream.ofBytes (streamBytes assembly.image start entry) = .ok assembly.stream ∧
        ∀ (α : Type) [MetadataRow α],
          assembly.table α = assembly.stream.table (streamBytes assembly.image start entry) := by
  obtain ⟨-, start, metadata, hstart, hmetadata, hroot, entry, hentry, tables, htables, hstream,
    hrows⟩ := ofImage_eq_ok h
  obtain ⟨hinside, hsize⟩ := Image.slice_eq_ok hmetadata
  have hslice : ∀ entry ∈ assembly.root.streams,
      assembly.image.slice (start + entry.offset) entry.size =
        .ok (streamBytes assembly.image start entry) := by
    intro entry hentry
    obtain ⟨hstop, -⟩ := MetadataRoot.inside_of_ofBytes hroot entry hentry
    obtain ⟨bytes, hbytes⟩ :
        ∃ bytes, assembly.image.slice (start + entry.offset) entry.size = .ok bytes :=
      Image.slice_ok (by omega)
    rw [streamBytes, hbytes]
    rfl
  obtain rfl : tables = streamBytes assembly.image start entry :=
    Except.ok.inj (htables.symm.trans (hslice entry hentry))
  refine ⟨start, hstart, hslice, entry, hentry, hstream, fun α _ => ?_⟩
  have hbytes : assembly.rowBytes.get
      ⟨(MetadataRow.table α).number, (MetadataRow.table α).number_lt⟩ =
      assembly.stream.bytesOf (streamBytes assembly.image start entry) (MetadataRow.table α) := by
    rw [hrows]
    exact (Vector.getElem_ofFn _).trans (by rw [TableId.ofNat_number])
  rw [table, hbytes]
  rfl

/-- **The tables of a stream whose header is read lie one behind the other, in the order of their
    numbers, from the end of the row counts on; each is as long as its rows are. So the rows of a
    table are always found, and no table is replaced by one without rows, in a stream or in an
    assembly that was opened.** -/
theorem tables_tile (data : ByteArray) :
    (∀ stream, TableStream.ofBytes data = .ok stream →
      stream.Tiled data ∧
      (∀ a b, a ≠ b → ∀ pos, (stream.extent a).Holds pos → ¬ (stream.extent b).Holds pos) ∧
      ∀ (α : Type) [MetadataRow α],
        let extent := stream.extent (MetadataRow.table α)
        Table.ofBytes (data.extract extent.offset (extent.offset + extent.size))
            (stream.rowCount (MetadataRow.table α)) stream.layout =
          .ok (stream.table data : Table α) ∧
        (stream.table data : Table α).count = stream.rowCount (MetadataRow.table α)) ∧
    ∀ image assembly, ofImage image = .ok assembly →
      ∃ start, assembly.image.offset assembly.runtime.metadata.address = .ok start ∧
        (∀ entry ∈ assembly.root.streams,
          assembly.image.slice (start + entry.offset) entry.size =
            .ok (streamBytes assembly.image start entry)) ∧
        ∃ entry ∈ assembly.root.streams,
          TableStream.ofBytes (streamBytes assembly.image start entry) = .ok assembly.stream ∧
          ∀ (α : Type) [MetadataRow α],
            assembly.table α = assembly.stream.table (streamBytes assembly.image start entry) ∧
            (assembly.table α).count = assembly.rowCount (MetadataRow.table α) := by
  refine ⟨fun stream h => ?_, fun image assembly h => ?_⟩
  · have ht := TableStream.tiled_of_ofBytes h
    refine ⟨ht, fun a b hab pos => ht.disjoint hab pos, fun α _ => ⟨?_, ?_⟩⟩
    · rw [← ht.bytesOf_eq, ht.ofBytes_bytesOf, ht.table_eq]
    · rw [ht.table_eq]
  · obtain ⟨start, hstart, hslice, entry, hentry, hstream, htable⟩ := streams_of_ofImage h
    refine ⟨start, hstart, hslice, entry, hentry, hstream, fun α _ => ⟨htable α, ?_⟩⟩
    rw [htable, (TableStream.tiled_of_ofBytes hstream).table_eq]
    rfl

/-- A stream of two tables whose header announces four more bytes. -/
def spacedTables : ByteArray :=
  ⟨#[0, 0, 0, 0, 2, 0, 0x40, 1, 3, 0, 0, 0, 0, 0, 0, 0, 0, 0, 0, 0, 0, 0, 0, 0,
     1, 0, 0, 0, 2, 0, 0, 0, 0xAA, 0xAA, 0xAA, 0xAA,
     0, 0, 1, 0, 1, 0, 0, 0, 0, 0, 6, 0, 1, 0, 5, 0, 10, 0, 9, 0, 5, 0]⟩

/-- The image of an assembly that has only rows. All its bytes are loaded. -/
def imageOf (rows : TableRows) : Image :=
  let metadata := MetadataRoot.encode [("#~", rows.stream 0), ("#Strings", [0])]
  let content := (ModuleDraft.runtimeHeader RuntimeHeader.length metadata.length).encode ++ metadata
  { data := ⟨content.toArray⟩
    sections :=
      [{ address := Image.sectionAddress, virtualSize := content.length
         dataOffset := 0, dataSize := content.length }]
    runtime := { address := Image.sectionAddress, size := RuntimeHeader.length } }

/-- The row of an assembly, and no others. -/
def bareRows : TableRows
  | .assembly => [[0, 1, 0, 0, 0, 0, 0, 0, 0]]
  | _ => []

theorem tables_tile_spaced :
    (∃ stream, TableStream.ofBytes spacedTables = .ok stream ∧
      (stream.extent .typeRef).offset = 24 + 4 * 2 + 4 + 10 ∧
      (stream.table spacedTables : Table TypeRefRow).count = 2) ∧
    ∃ assembly, ofImage (imageOf bareRows) = .ok assembly ∧
      (assembly.table AssemblyRow).count = assembly.rowCount .assembly := by
  constructor
  · have hstream : (TableStream.ofBytes spacedTables).toOption.map (fun stream =>
        ((stream.extent .typeRef).offset, stream.rowCount .typeRef)) = some (46, 2) := by
      decide +kernel
    obtain ⟨stream, hok, hvalues⟩ := exists_ok_of_map hstream
    obtain ⟨hoffset, hcount⟩ := Prod.mk.inj hvalues
    obtain ⟨-, -, htable⟩ := (tables_tile spacedTables).1 stream hok
    exact ⟨stream, hok, hoffset, (htable TypeRefRow).2.trans hcount⟩
  · obtain ⟨assembly, hok⟩ : ∃ assembly, ofImage (imageOf bareRows) = .ok assembly :=
      exists_ok_of_isOk (by decide +kernel)
    obtain ⟨_, -, -, _, -, -, htable⟩ := (tables_tile spacedTables).2 _ assembly hok
    exact ⟨assembly, hok, (htable AssemblyRow).2⟩

end Assembly

end ApiCensus
