/-
  A module that was written is opened.

  * `ModuleDraft.writtenRows`: the rows of a module as far as the columns hold them.
  * `ModuleDraft.ReadsBack`: an assembly has the heaps and the rows of a module.
  * `ModuleDraft.loaded`, `ModuleDraft.HeadersRead`: the image with its headers, and a reader that
    finds those in the bytes.
  * `ModuleDraft.ofImage_loaded`: the image of a module opens as such an assembly;
    `ofImage_loaded_of_not` is the case of a module that is not the main one of an assembly.
-/
import ApiCensus.Proofs.Assembly.Opening
import ApiCensus.Proofs.Assembly.Owners
import ApiCensus.Proofs.Draft.Container
import ApiCensus.Proofs.Draft.Cut
import ApiCensus.Proofs.Draft.Rows
import ApiCensus.Proofs.Draft.Streams
import Mathlib.Data.List.Forall2

namespace ApiCensus

theorem except_ok_bind {α β : Type} (a : α) (next : α → Except Fault β) :
    (Except.ok a >>= next) = next a := rfl

theorem exists_mapM_eq_ok {α β : Type} {f : α → Except Fault β} {R : α → β → Prop} {items : List α}
    (h : ∀ a ∈ items, ∃ b, f a = .ok b ∧ R a b) :
    ∃ results, items.mapM f = .ok results ∧ List.Forall₂ R items results := by
  induction items with
  | nil => exact ⟨[], rfl, .nil⟩
  | cons item items ih =>
    obtain ⟨first, hfirst, hr⟩ := h item List.mem_cons_self
    obtain ⟨rest, hrest, hall⟩ := ih fun a ha => h a (List.mem_cons_of_mem item ha)
    refine ⟨first :: rest, ?_, .cons hr hall⟩
    rw [List.mapM_cons, hfirst, hrest]
    rfl

theorem TableStream.tableOf_eq {stream : TableStream} {α : Type} [MetadataRow α] {rows : ByteArray}
    (h : stream.rowCount (MetadataRow.table α) * stream.layout.rowSize (MetadataRow.table α) ≤
      rows.size) :
    (stream.tableOf rows : Table α) =
      { data := rows, count := stream.rowCount (MetadataRow.table α), layout := stream.layout } := by
  rw [tableOf, Table.ofBytes, if_pos h]

/-- The bytes of the rows of a table. -/
def Assembly.bytesOf (assembly : Assembly) (table : TableId) : ByteArray :=
  assembly.rowBytes.get ⟨table.number, table.number_lt⟩

namespace ModuleDraft

variable (draft : ModuleDraft)

/-- The addresses of the bodies. -/
def addresses : List Nat :=
  (placeBodies RuntimeHeader.length draft.methods.toList).1

/-- Every method has an address. -/
theorem length_addresses : draft.addresses.length = draft.methods.toList.length := by
  have hplace : ∀ (methods : List MethodDraft) (position : Nat),
      (placeBodies position methods).1.length = methods.length := by
    intro methods
    induction methods with
    | nil => exact fun _ => rfl
    | cons method rest ih =>
      intro position
      rw [placeBodies]
      split <;> simp [ih]
  exact hplace _ _

/-- The rows as far as the columns hold them. -/
def writtenRows : TableRows :=
  TableRows.cut (draft.rows draft.addresses) draft.heapFlags

/-- An assembly has the heaps and the rows of a module. -/
structure ReadsBack (assembly : Assembly) : Prop where
  strings : assembly.strings = (Alignment.padded 4 draft.texts.bytes).toByteArray
  blobs : assembly.blobs = (Alignment.padded 4 draft.blobs.bytes).toByteArray
  fits : draft.writtenRows.Fits draft.heapFlags
  layout : assembly.stream.layout = draft.writtenRows.layout draft.heapFlags
  bytes : ∀ table, draft.writtenRows table ≠ [] → assembly.bytesOf table =
    (draft.writtenRows.tableBytes (draft.writtenRows.layout draft.heapFlags) table).toByteArray

/-- The section of a module. -/
theorem content_eq : ∃ between,
    draft.content = Image.sectionOf between (draft.metadata draft.addresses) := by
  refine ⟨(placeBodies RuntimeHeader.length draft.methods.toList).2 ++ Alignment.padding 4
    (RuntimeHeader.length + (placeBodies RuntimeHeader.length draft.methods.toList).2.length), ?_⟩
  simp only [content, Image.sectionOf, addresses, List.length_append, List.append_assoc,
    Nat.add_assoc]

theorem metadata_eq (streams : List MetadataRoot.NamedStream) : ∃ front back rest : List UInt8,
    MetadataRoot.encode streams = front ++ (LittleEndian.encode 4 MetadataRoot.writtenVersion.length
        ++ (MetadataRoot.writtenVersion ++ back)) ++ rest ∧
      front.length = 12 ∧ back.length = 4 := by
  refine ⟨LittleEndian.encodeAll [(4, MetadataRoot.signature), (2, 1), (2, 1), (4, 0)],
    LittleEndian.encodeAll [(2, 0), (2, streams.length)],
    (MetadataRoot.directory (MetadataRoot.encodedLength streams) streams).flatMap
      StreamHeader.encode ++ streams.flatMap Prod.snd, ?_, rfl, ?_⟩
  · simp only [MetadataRoot.encode, MetadataRoot.encodeStart, LittleEndian.encodeAll,
      List.flatMap_cons, List.flatMap_nil, List.append_nil, List.append_assoc]
  · simp [LittleEndian.encodeAll]

/-- The image of a module with what its headers tell: the one section, and the runtime header at
    the start of it. -/
def loaded : Image where
  data := draft.image
  sections := [Image.writtenSection draft.content.length]
  runtime := { address := Image.sectionAddress, size := RuntimeHeader.length }

/-- The headers in the bytes of a module are found as they were written. -/
def HeadersRead [HeaderReader] : Prop :=
  HeaderReader.headers? draft.image = some
    { optional := some { runtime := some draft.loaded.runtime }, sections := draft.loaded.sections }

theorem ofBytes_image [HeaderReader] (h : draft.HeadersRead) :
    Image.ofBytes draft.image = .ok draft.loaded := by
  obtain ⟨_, hs⟩ := Image.sees_content draft.content
  rw [← image] at hs
  have hinside := hs.inside
  dsimp only at hinside
  have hempty : draft.image.isEmpty = false := by
    rw [ByteArray.isEmpty, beq_eq_false_iff_ne]
    exact Nat.ne_of_gt (Nat.lt_of_lt_of_le (by decide) hinside)
  rw [Image.ofBytes, hempty, h]
  rfl

/-- Where the metadata of a module lies in its image, and what leads there. -/
theorem loaded_spec {image : Image} (himage : draft.loaded = image)
    (hsize : Image.sectionAddress + draft.content.length < Image.addressBound) :
    ∃ (header : RuntimeHeader) (runtime start : Nat) (zeros : List UInt8),
      image.offset image.runtime.address = .ok runtime ∧
      image.slice runtime image.runtime.size = .ok header.encode.toByteArray ∧
      RuntimeHeader.ofBytes header.encode.toByteArray = .ok header ∧
      image.offset header.metadata.address = .ok start ∧
      header.metadata.size = (draft.metadata draft.addresses).length ∧
      Cursor.Sees { data := image.data, pos := start }
        (draft.metadata draft.addresses ++ zeros) := by
  have hdata : draft.image = image.data := by rw [← himage, loaded]
  have hsections : image.sections = [Image.writtenSection draft.content.length] := by
    rw [← himage, loaded]
  have hruntime : image.runtime =
      { address := Image.sectionAddress, size := RuntimeHeader.length } := by
    rw [← himage, loaded]
  obtain ⟨between, hcontent⟩ := draft.content_eq
  obtain ⟨front, back, rest, hmetadata, hfront, hback⟩ :=
    metadata_eq (draft.streams draft.addresses)
  have hlength := Image.length_sectionOf between (draft.metadata draft.addresses)
  rw [← hcontent] at hlength
  have hne : (draft.metadata draft.addresses).length ≠ 0 := by
    have hlengths := congrArg List.length hmetadata
    rw [← metadata] at hlengths
    simp only [List.length_append, hfront, hback] at hlengths
    omega
  obtain ⟨zeros, hs⟩ := Image.sees_content draft.content
  rw [← ModuleDraft.image, hdata, hcontent] at hs
  have hplace := Image.sees_metadata hs
  rw [Image.sectionOf, List.append_assoc] at hs
  have hslice := Image.slice_of_sees hs
  rw [RuntimeHeader.length_encode] at hslice
  have hpos : RuntimeHeader.length = 72 := rfl
  have hbound : Image.addressBound = LittleEndian.bound 4 := rfl
  have hfirst := Image.offset_written hsections hsize (show 0 < _ by omega)
  refine ⟨_, Image.fileUnit, _, zeros, ?_, ?_, RuntimeHeader.ofBytes_written ?_ ?_ hne,
    Image.offset_written hsections hsize ?_, rfl, hplace⟩
  · rw [hruntime]
    exact hfirst
  · rw [hruntime]
    exact hslice
  all_goals omega

/-- A stream of metadata is found in the image by its name. -/
theorem slice_stream {image : Image} {start : Nat} {zeros : List UInt8}
    {streams after : List MetadataRoot.NamedStream} {name : String} {data : List UInt8}
    (before : List MetadataRoot.NamedStream)
    (hs : Cursor.Sees { data := image.data, pos := start } (MetadataRoot.encode streams ++ zeros))
    (hstreams : streams = before ++ (name, data) :: after)
    (hname : ∀ stream ∈ before, stream.1 ≠ name) :
    ∃ header, (MetadataRoot.written streams).stream? name = some header ∧
      image.slice (start + header.offset) header.size = .ok data.toByteArray := by
  refine ⟨_, MetadataRoot.stream?_written hstreams hname, ?_⟩
  subst hstreams
  exact Image.slice_of_sees (MetadataRoot.sees_stream hs)

/-- The section has a byte or more for every row. -/
theorem length_rows_le (table : TableId) :
    (draft.rows draft.addresses table).length ≤ draft.content.length := by
  obtain ⟨between, hcontent⟩ := draft.content_eq
  have hrows := TableRows.length_le_stream (draft.rows draft.addresses) draft.heapFlags
    (draft.readable_rows draft.addresses) table
  rw [hcontent, Image.length_sectionOf, metadata, MetadataRoot.length_encode]
  simp only [streams, List.flatMap_cons, List.length_append]
  omega

/-- The section of a module without methods is not larger than its rows and its heaps require. -/
theorem length_content_le (hmethods : draft.methods = #[])
    {most : Nat} (hrows : ∀ table, (draft.rows draft.addresses table).length ≤ most) :
    draft.content.length ≤
      500 + 45 * (most * 36) + draft.texts.bytes.length + draft.blobs.bytes.length := by
  have htables := TableRows.length_stream_le (draft.readable_rows draft.addresses) hrows
    draft.heapFlags
  have htexts := Alignment.length_padded_le draft.texts.bytes
  have hblobs := Alignment.length_padded_le draft.blobs.bytes
  have hguid : draft.guid.length = 16 := rfl
  have hmetadata : draft.content.length =
      RuntimeHeader.length + (draft.metadata draft.addresses).length := by
    have hbodies : placeBodies RuntimeHeader.length draft.methods.toList = ([], []) := by
      rw [hmethods]
      rfl
    rw [content, addresses, hbodies, List.length_append, List.append_nil, List.length_append,
      RuntimeHeader.length_encode]
    rfl
  have hfront : MetadataRoot.encodedLength (draft.streams draft.addresses) = 96 := by
    rw [MetadataRoot.encodedLength_eq]
    have hnames : (["#~", "#Strings", "#GUID", "#Blob"].map StreamHeader.lengthOf).foldr
        (· + ·) 0 = 64 := by decide
    exact congrArg (32 + ·) hnames
  rw [hmetadata, metadata, MetadataRoot.length_encode, hfront, RuntimeHeader.length]
  simp only [streams, List.flatMap_cons, List.flatMap_nil, List.append_nil, List.length_append]
  omega

theorem fits_writtenRows (hsize : draft.content.length < LittleEndian.bound 4) :
    draft.writtenRows.Fits draft.heapFlags :=
  TableRows.fits_cut _ _ fun table => Nat.lt_of_le_of_lt (draft.length_rows_le table) hsize

theorem readable_writtenRows : draft.writtenRows.Readable :=
  TableRows.readable_cut _ _ (draft.readable_rows draft.addresses)

theorem stream_writtenRows : TableRows.stream draft.writtenRows draft.heapFlags =
    TableRows.stream (draft.rows draft.addresses) draft.heapFlags :=
  TableRows.stream_cut _ _

theorem length_writtenRows (table : TableId) :
    (draft.writtenRows table).length = (draft.rows draft.addresses table).length :=
  TableRows.length_cut _ _ table

/-- What the image of a module is opened as, up to what belongs to what. -/
theorem ofImage_loaded_eq
    (hsize : Image.sectionAddress + draft.content.length < Image.addressBound) :
    ∃ assembly, draft.ReadsBack assembly ∧ Assembly.ofImage draft.loaded =
      if draft.hasAssembly then
        assembly.findOwners.map fun owners => { assembly with owners }
      else .error (.notAssembly .noAssemblyRow) := by
  generalize himage : draft.loaded = image
  have hcontent : draft.content.length < LittleEndian.bound 4 :=
    Nat.lt_of_le_of_lt (Nat.le_add_left _ _) hsize
  have hfits := draft.fits_writtenRows hcontent
  obtain ⟨stream, hstream, hlayout, hbytes⟩ := TableRows.ofBytes_stream hfits
    draft.readable_writtenRows draft.heapFlags_lt (List.cons_ne_nil _ _)
  obtain ⟨header, runtime, start, zeros, hruntime, hslice, hheader, hstart, hlength, hs⟩ :=
    draft.loaded_spec himage hsize
  have hmetadata := Image.slice_of_sees hs
  rw [metadata] at hs
  obtain ⟨tables, htables, htableBytes⟩ := slice_stream [] hs rfl (by simp)
  obtain ⟨strings, hstrings, hstringBytes⟩ := slice_stream [_] hs rfl (by simp)
  obtain ⟨blobs, hblobs, hblobBytes⟩ := slice_stream [_, _, _] hs rfl (by simp)
  have hnames : MetadataRoot.Named (draft.streams draft.addresses) := by
    simp only [MetadataRoot.Named, streams, List.forall_mem_cons]
    decide
  have hroot : MetadataRoot.ofBytes (draft.metadata draft.addresses).toByteArray =
      .ok (MetadataRoot.written (draft.streams draft.addresses)) := by
    refine MetadataRoot.ofBytes_written (List.cons_ne_nil _ _) (by decide : 4 ≤ 16) hnames ?_
    obtain ⟨between, hsection⟩ := draft.content_eq
    rw [hsection, Image.length_sectionOf, metadata] at hcontent
    exact Nat.lt_of_le_of_lt (Nat.le_add_left _ _) hcontent
  rw [← stream_writtenRows] at htableBytes
  have hmap : ∀ {α β : Type} (result : Except Fault α) (f : α → β),
      (result >>= fun a => pure (f a)) = result.map f := fun result _ => by cases result <;> rfl
  refine ⟨{ image, runtime := header
            root := MetadataRoot.written (draft.streams draft.addresses), stream
            rowBytes := Vector.ofFn fun i => stream.bytesOf
              (TableRows.stream draft.writtenRows draft.heapFlags).toByteArray (TableId.ofNat i)
            strings := Assembly.streamBytes image start strings
            blobs := Assembly.streamBytes image start blobs
            guids := ((MetadataRoot.written (draft.streams draft.addresses)).stream? "#GUID").elim
              .empty (Assembly.streamBytes image start) }, ⟨?_, ?_, hfits, hlayout, ?_⟩, ?_⟩
  · simp only [Assembly.streamBytes, hstringBytes]
    rfl
  · simp only [Assembly.streamBytes, hblobBytes]
    rfl
  · intro table htable
    rw [← hbytes table htable, Assembly.bytesOf]
    exact (Vector.getElem_ofFn _).trans (by rw [TableId.ofNat_number])
  · rw [Assembly.ofImage, hruntime, except_ok_bind, hslice, except_ok_bind, hheader,
      except_ok_bind, hstart, except_ok_bind, hlength, hmetadata, except_ok_bind, hroot,
      except_ok_bind, htables, Option.some_or, hstrings]
    dsimp only
    rw [htableBytes, except_ok_bind, hstream, except_ok_bind, hblobs]
    have hcount : stream.rowCount .assembly = if draft.hasAssembly then 1 else 0 := by
      rw [TableStream.rowCount, hlayout, TableRows.rowCount_layout, length_writtenRows, rows]
      split <;> rfl
    rw [hcount]
    cases draft.hasAssembly with
    | false => rfl
    | true =>
      exact (if_neg Nat.one_ne_zero).trans (hmap _ _)

/-! ## Rows of the opened assembly -/

namespace ReadsBack

variable {draft : ModuleDraft} {assembly : Assembly}

theorem rowCount (h : draft.ReadsBack assembly) (table : TableId) :
    assembly.rowCount table = (draft.writtenRows table).length := by
  rw [Assembly.rowCount, TableStream.rowCount, h.layout, TableRows.rowCount_layout]

/-- The columns of a row hold what was written there. -/
theorem cellsAt (h : draft.ReadsBack assembly) {table : TableId} {index : Nat} {row : List Nat}
    (hrow : (draft.writtenRows table)[index]? = some row) :
    ∃ cells, ReadsAs table.columns row cells ∧
      assembly.stream.layout.cellsAt (assembly.bytesOf table)
        (index * assembly.stream.layout.rowSize table) table.columns = .ok cells := by
  have hmem := List.mem_of_getElem? hrow
  obtain ⟨cells, hcells⟩ := draft.readable_writtenRows table row hmem
  obtain ⟨front, back, hbytes, hfront⟩ :=
    TableRows.tableBytes_eq draft.readable_writtenRows hrow assembly.stream.layout
  have hs := Cursor.sees_behind front
    (TableRows.encodeRow assembly.stream.layout table row ++ back)
  rw [← hbytes, hfront, h.layout, ← h.bytes table (List.ne_nil_of_mem hmem)] at hs
  refine ⟨cells, hcells, ?_⟩
  rw [h.layout]
  exact hcells.cellsAt_bytes (h.fits.values _ row hmem) hs

theorem table (h : draft.ReadsBack assembly) (kind : RowKind) :
    assembly.table kind.Row = kind.tableOf assembly.stream.layout (assembly.bytesOf kind.table)
      (draft.writtenRows kind.table).length := by
  have hcount := h.rowCount kind.table
  have hroom : assembly.stream.rowCount kind.table * assembly.stream.layout.rowSize kind.table ≤
      (assembly.bytesOf kind.table).size := by
    by_cases hne : draft.writtenRows kind.table = []
    · rw [← Assembly.rowCount, hcount, hne, List.length_nil, Nat.zero_mul]
      exact Nat.zero_le _
    · rw [h.bytes _ hne, List.size_toByteArray,
        TableRows.length_tableBytes draft.readable_writtenRows, h.layout]
      exact Nat.le_of_eq (by rw [Layout.tableBytes, TableStream.rowCount, h.layout])
  rw [← hcount]
  exact TableStream.tableOf_eq hroom

/-- A row is read as it was written. -/
theorem row (h : draft.ReadsBack assembly) {kind : RowKind} {index : Nat} {row : List Nat}
    (hrow : (draft.writtenRows kind.table)[index]? = some row) :
    ∃ record, assembly.row kind.Row (index + 1) = .ok record ∧ kind.rid record = index + 1 ∧
      ReadsAs kind.table.columns row (kind.cells record) := by
  have hne := List.ne_nil_of_mem (List.mem_of_getElem? hrow)
  obtain ⟨record, hget, hrecord⟩ :=
    TableRows.get_tableBytes h.fits draft.readable_writtenRows hrow
  refine ⟨record, ?_, hrecord⟩
  rw [← hget, Assembly.row, h.table, h.bytes _ hne, h.layout]

/-- All rows of a table are read as they were written. -/
theorem allRows (h : draft.ReadsBack assembly) (kind : RowKind) :
    ∃ records, assembly.allRows kind.Row = .ok records ∧
      List.Forall₂ (fun row record => ReadsAs kind.table.columns row (kind.cells record))
        (draft.writtenRows kind.table) records := by
  have hrows : ∀ index ∈ List.range (draft.writtenRows kind.table).length,
      ∃ record, (assembly.table kind.Row).get (index + 1) = .ok record ∧
        ∀ row, (draft.writtenRows kind.table)[index]? = some row →
          ReadsAs kind.table.columns row (kind.cells record) := by
    intro index hindex
    have hsome := List.getElem?_eq_getElem (List.mem_range.1 hindex)
    obtain ⟨record, hget, -, hcells⟩ := h.row hsome
    refine ⟨record, hget, fun row hrow => ?_⟩
    obtain rfl := Option.some.inj (hsome.symm.trans hrow)
    exact hcells
  obtain ⟨records, hrecords, hall⟩ := exists_mapM_eq_ok hrows
  refine ⟨records, ?_, ?_⟩
  · rw [h.table] at hrecords
    rw [Assembly.allRows, Table.rows, List.mapM_map, h.table]
    exact hrecords
  · obtain ⟨hlength, hall⟩ := List.forall₂_iff_get.1 hall
    rw [List.length_range] at hlength
    refine List.forall₂_iff_get.2 ⟨hlength, fun index hi hi' => ?_⟩
    refine hall index (by rwa [List.length_range]) hi' _ ?_
    simp

theorem findOwners (h : draft.ReadsBack assembly) :
    ∃ owners, assembly.findOwners = .ok owners := by
  obtain ⟨attributes, hattributes, -⟩ := h.allRows .customAttribute
  obtain ⟨nested, hnested, -⟩ := h.allRows .nestedClass
  obtain ⟨semantics, hsemantics, -⟩ := h.allRows .methodSemantics
  obtain ⟨interfaces, hinterfaces, -⟩ := h.allRows .interfaceImpl
  obtain ⟨methodImpls, hmethodImpls, -⟩ := h.allRows .methodImpl
  obtain ⟨properties, hproperties, -⟩ := h.allRows .propertyMap
  obtain ⟨events, hevents, -⟩ := h.allRows .eventMap
  dsimp only [RowKind.Row, RowKind.metadataRow] at *
  rw [Assembly.findOwners, hattributes, except_ok_bind, hnested, except_ok_bind, hsemantics,
    except_ok_bind, hinterfaces, except_ok_bind, hmethodImpls, except_ok_bind, hproperties,
    except_ok_bind, hevents, except_ok_bind]
  exact ⟨_, rfl⟩

end ReadsBack

/-- **The image of the main module of an assembly opens, and it has the heaps and the rows of the
    module.** -/
theorem ofImage_loaded (hsize : Image.sectionAddress + draft.content.length < Image.addressBound)
    (hassembly : draft.hasAssembly = true) :
    ∃ assembly, Assembly.ofImage draft.loaded = .ok assembly ∧ draft.ReadsBack assembly := by
  obtain ⟨assembly, hread, hopen⟩ := draft.ofImage_loaded_eq hsize
  obtain ⟨owners, howners⟩ := hread.findOwners
  rw [if_pos hassembly, howners] at hopen
  exact ⟨_, hopen, hread.strings, hread.blobs, hread.fits, hread.layout, hread.bytes⟩

theorem ofImage_loaded_of_not
    (hsize : Image.sectionAddress + draft.content.length < Image.addressBound)
    (hassembly : draft.hasAssembly = false) :
    Assembly.ofImage draft.loaded = .error (.notAssembly .noAssemblyRow) := by
  obtain ⟨assembly, -, hopen⟩ := draft.ofImage_loaded_eq hsize
  rw [hopen, hassembly]
  rfl

/-- The bytes of a module open as its image does. -/
theorem assemblyOfBytes_image [HeaderReader] (h : draft.HeadersRead) :
    Assembly.ofBytes draft.image = Assembly.ofImage draft.loaded := by
  rw [Assembly.ofBytes, draft.ofBytes_image h, except_ok_bind]

end ModuleDraft

end ApiCensus
