/-
  A stream directory and what is read from it.

  The entries stand one behind the other without an index. Where an entry ends is not taken from
  its bytes but from the text that stands for its name, which may be longer.

  * `DirectoryEntry`: an entry that is written; its name may be any bytes but zeros.
    `ofBytes_entry` reads one back, `length_header` says how long it is taken to be.
  * `DirectoryEntry.Measured`: the entry is taken to be as long as it is. Every name that is text
    is measured; `FF FF` is not.
  * `WrittenRoot.readStreams_entries`: as long as the entries before are measured, an entry is
    found where it stands.
  * `WrittenRoot.ofBytes_directory`: what is read from a whole root.
-/
import ApiCensus.Bytes.Alignment
import ApiCensus.Metadata.Root
import ApiCensus.Proofs.Bytes.Reading
import ApiCensus.Proofs.Text.Utf8

namespace ApiCensus

/-- An entry of the stream directory that is written. Its name may be any bytes but zeros. -/
structure DirectoryEntry where
  offset : Nat
  size : Nat
  name : List UInt8
  offset_lt : offset < LittleEndian.bound 4
  size_lt : size < LittleEndian.bound 4
  length_name_lt : name.length < StreamHeader.maxNameLength
  zero_notMem : 0 ∉ name

namespace DirectoryEntry

variable (entry : DirectoryEntry)

/-- The bytes of the entry: the name ends with a zero and is filled up with zeros. -/
def encode : List UInt8 :=
  LittleEndian.encodeAll [(4, entry.offset), (4, entry.size)]
    ++ Alignment.padded 4 (entry.name ++ [0])

/-- What is read from the entry. -/
def header : StreamHeader where
  offset := entry.offset
  size := entry.size
  name := Utf8.lossy entry.name.toByteArray

/-- The end of the stream. -/
def stop : Nat := entry.offset + entry.size

/-- What is read from the entry where the stream lies inside the metadata. -/
def read : Except Fault StreamHeader :=
  if MetadataRoot.extentBound ≤ entry.stop then
    .error (.malformed (.streamExtent entry.offset entry.size))
  else .ok entry.header

/-- What is added to the name where it is not text fits into the zeros that the entry is filled
    up with. -/
def Measured : Prop :=
  entry.name.length % 4 + Utf8.surplus entry.name < 4

instance : Decidable entry.Measured :=
  inferInstanceAs (Decidable (_ < _))

/-! ## Lengths -/

theorem length_encode : entry.encode.length = 8 + (entry.name.length + 1 + 3) / 4 * 4 := by
  simp [encode, LittleEndian.encodeAll, Alignment.padded, Alignment.padding, Alignment.roundUp,
    Alignment.roundDown]
  omega

theorem length_header :
    entry.header.length = 8 + (entry.name.length + Utf8.surplus entry.name + 1 + 3) / 4 * 4 := by
  rw [StreamHeader.length, header, Utf8.utf8ByteSize_lossy]

theorem length_header_eq_iff : entry.header.length = entry.encode.length ↔ entry.Measured := by
  rw [length_encode, length_header, Measured]
  omega

/-- If the length is missed, then by at least four bytes. -/
theorem length_encode_add_le (h : ¬ entry.Measured) :
    entry.encode.length + 4 ≤ entry.header.length := by
  rw [Measured] at h
  rw [length_encode, length_header]
  omega

/-- A name that is text is shown as it is, so the entry is taken to be as long as it is. -/
theorem measured_of_text {text : String} (h : entry.name = text.toUTF8.data.toList) :
    entry.header.name = text ∧ entry.Measured := by
  constructor
  · have hbytes : entry.name.toByteArray = text.toUTF8 := by
      rw [h]
      exact ByteArray.ext (by rw [List.data_toByteArray, Array.toArray_toList])
    rw [header, hbytes, Utf8.lossy_toUTF8]
  · rw [Measured, h, Utf8.surplus_toUTF8]
    omega

/-! ## Reading one entry -/

theorem beforeZero_append {name : List UInt8} (h : 0 ∉ name) (back : List UInt8) :
    StreamHeader.beforeZero (name ++ 0 :: back).toByteArray = name.toByteArray := by
  have hname : ∀ byte ∈ name, (byte != 0) = true := fun byte hbyte =>
    bne_iff_ne.2 fun hzero => h (hzero ▸ hbyte)
  rw [StreamHeader.beforeZero, List.data_toByteArray, List.toList_toArray,
    List.takeWhile_append_of_pos hname, List.takeWhile_cons_of_neg (by simp), List.append_nil]

theorem encode_append (back : List UInt8) : ∃ more : List UInt8,
    entry.encode ++ back = LittleEndian.encode 4 entry.offset ++
      (LittleEndian.encode 4 entry.size ++ (entry.name ++ 0 :: more)) :=
  ⟨Alignment.padding 4 (entry.name ++ [0]).length ++ back, by
    simp [encode, LittleEndian.encodeAll, Alignment.padded]⟩

theorem take_name (more : List UInt8) : ∃ rest : List UInt8,
    (entry.name ++ 0 :: more).take StreamHeader.maxNameLength = entry.name ++ 0 :: rest := by
  have hlt := entry.length_name_lt
  obtain ⟨room, hroom⟩ : ∃ room, StreamHeader.maxNameLength = entry.name.length + (room + 1) :=
    ⟨StreamHeader.maxNameLength - entry.name.length - 1, by omega⟩
  exact ⟨more.take room, by rw [hroom, List.take_length_add_append, List.take_succ_cons]⟩

theorem ofBytes_entry (back : List UInt8) :
    StreamHeader.ofBytes (entry.encode ++ back).toByteArray = .ok entry.header := by
  obtain ⟨more, hbytes⟩ := entry.encode_append back
  obtain ⟨rest, hfield⟩ := entry.take_name more
  rw [hbytes]
  have hs := Cursor.sees_start (LittleEndian.encode 4 entry.offset ++
    (LittleEndian.encode 4 entry.size ++ (entry.name ++ 0 :: more)))
  have hlength := hs.length_add
  generalize (LittleEndian.encode 4 entry.offset ++ (LittleEndian.encode 4 entry.size ++
    (entry.name ++ 0 :: more))).toByteArray = data at hs hlength ⊢
  obtain ⟨hoffset, hs⟩ := hs.number entry.offset_lt
  obtain ⟨hsize, hs⟩ := hs.number entry.size_lt
  have hname := hs.extract_take (8 + StreamHeader.maxNameLength)
  simp only [Cursor.forward, Nat.zero_add, Nat.add_sub_cancel_left, hfield] at hoffset hsize hname
  simp only [List.length_append, LittleEndian.length_encode, List.length_cons, Nat.zero_add]
    at hlength
  have hshort : entry.name.toByteArray.size ≠ (entry.name ++ 0 :: rest).toByteArray.size := by
    simp
  rw [StreamHeader.ofBytes, if_neg (by omega)]
  simp only [hname, beforeZero_append entry.zero_notMem, if_neg hshort, hoffset, hsize]
  rfl

end DirectoryEntry

/-! ## Reading a directory -/

/-- The root of metadata that is written, and what stands behind its directory. -/
structure WrittenRoot where
  majorVersion : Nat
  minorVersion : Nat
  reserved : Nat
  version : List UInt8
  flags : Nat
  entries : List DirectoryEntry
  back : List UInt8
  majorVersion_lt : majorVersion < LittleEndian.bound 2
  minorVersion_lt : minorVersion < LittleEndian.bound 2
  reserved_lt : reserved < LittleEndian.bound 4
  length_version_lt : version.length < LittleEndian.bound 4
  flags_lt : flags < LittleEndian.bound 2
  entries_ne_nil : entries ≠ []
  length_entries_le : entries.length ≤ MetadataRoot.maxStreams

namespace WrittenRoot

variable (root : WrittenRoot)

/-- The bytes of the metadata. -/
def encode : List UInt8 :=
  LittleEndian.encodeAll
      [(4, MetadataRoot.signature), (2, root.majorVersion), (2, root.minorVersion),
       (4, root.reserved), (4, root.version.length)]
    ++ root.version ++ LittleEndian.encodeAll [(2, root.flags), (2, root.entries.length)]
    ++ root.entries.flatMap DirectoryEntry.encode ++ root.back

/-- The streams lie inside the metadata. -/
def Holds : Prop :=
  ∀ entry ∈ root.entries, entry.stop ≤ root.encode.length

instance : Decidable root.Holds :=
  inferInstanceAs (Decidable (∀ entry ∈ root.entries, entry.stop ≤ root.encode.length))

/-- The root with given streams. -/
def withStreams (streams : List StreamHeader) : MetadataRoot where
  majorVersion := root.majorVersion
  minorVersion := root.minorVersion
  version := Utf8.lossy (StreamHeader.beforeZero root.version.toByteArray)
  flags := root.flags
  streams := streams

/-- As long as the entries before it are measured, an entry is found where it stands. -/
theorem readStreams_entries {entries : List DirectoryEntry} {cursor : Cursor} {back : List UInt8}
    (hs : cursor.Sees (entries.flatMap DirectoryEntry.encode ++ back))
    (hinside : ∀ entry ∈ entries, entry.stop ≤ cursor.data.size)
    (hmeasured : ∀ entry ∈ entries.dropLast, entry.Measured) :
    MetadataRoot.readStreams cursor.data entries.length cursor.pos =
      entries.mapM DirectoryEntry.read := by
  induction entries generalizing cursor with
  | nil => rfl
  | cons entry entries ih =>
    rw [List.flatMap_cons, List.append_assoc] at hs
    have hstop : ¬ cursor.data.size < entry.stop := Nat.not_lt.2 (hinside entry List.mem_cons_self)
    have hrest : MetadataRoot.readStreams cursor.data entries.length
        (cursor.pos + entry.header.length) = entries.mapM DirectoryEntry.read := by
      -- Behind the last entry nothing is looked for, so its length does not matter.
      cases entries with
      | nil => rfl
      | cons next entries =>
        have hentry : entry.Measured := hmeasured entry (by simp)
        rw [entry.length_header_eq_iff.2 hentry]
        exact ih hs.forward (fun other hother => hinside other (List.mem_cons_of_mem _ hother))
          fun other hother => hmeasured other (List.mem_cons_of_mem _ hother)
    rw [List.length_cons, MetadataRoot.readStreams, if_neg (Nat.not_lt.2 hs.inside),
      hs.extract_rest, DirectoryEntry.ofBytes_entry, List.mapM_cons, DirectoryEntry.read, ← hrest]
    show (if MetadataRoot.extentBound ≤ entry.stop then _ else _) = _
    by_cases hbound : MetadataRoot.extentBound ≤ entry.stop
    · rw [if_pos hbound, if_pos hbound]
      rfl
    · rw [if_neg hbound, if_neg hbound]
      exact if_neg hstop

variable {root}

theorem ofBytes_measured (hinside : root.Holds)
    (hmeasured : ∀ entry ∈ root.entries.dropLast, entry.Measured) :
    MetadataRoot.ofBytes root.encode.toByteArray =
      (root.entries.mapM DirectoryEntry.read).map root.withStreams := by
  have hcount : root.entries.length ≠ 0 := fun hzero =>
    root.entries_ne_nil (List.eq_nil_of_length_eq_zero hzero)
  have hmax := root.length_entries_le
  have hs := Cursor.sees_start root.encode
  have hsize : root.encode.toByteArray.size = root.encode.length := List.size_toByteArray
  rw [WrittenRoot.Holds, ← hsize] at hinside
  simp only [encode, LittleEndian.encodeAll, List.flatMap_cons, List.flatMap_nil, List.append_nil,
    List.append_assoc] at hs hinside hsize ⊢
  -- From here on only what the cursor sees is known of the bytes.
  generalize List.toByteArray _ = data at hs hinside hsize ⊢
  simp only [List.length_append, LittleEndian.length_encode] at hsize
  obtain ⟨hsignature, hs⟩ := hs.number (by decide)
  obtain ⟨hmajor, hs⟩ := hs.number root.majorVersion_lt
  obtain ⟨hminor, hs⟩ := hs.number root.minorVersion_lt
  obtain ⟨-, hs⟩ := hs.number root.reserved_lt
  obtain ⟨hlength, hs⟩ := hs.number root.length_version_lt
  have hversion := hs.extract
  obtain ⟨hflags, hs⟩ := hs.forward.number root.flags_lt
  obtain ⟨hentries, hs⟩ := hs.number (Nat.lt_of_le_of_lt hmax (by decide))
  have hstreams := readStreams_entries hs hinside hmeasured
  simp only [Cursor.forward, Nat.zero_add, Nat.reduceAdd] at *
  have hreadFlags : LittleEndian.read? data (16 + root.version.length) 2 = some root.flags := by
    rw [LittleEndian.read?, if_pos (by omega), hflags]
  have hreadCount :
      LittleEndian.read? data (16 + root.version.length + 2) 2 = some root.entries.length := by
    rw [LittleEndian.read?, if_pos (by omega), hentries]
  rw [MetadataRoot.ofBytes, if_neg (by omega)]
  simp only [hsignature, ne_eq, not_true_eq_false, if_false, hlength]
  rw [if_neg (by omega), hreadFlags, hreadCount]
  simp only
  rw [if_neg (by omega), hstreams, hversion, hmajor, hminor]
  cases root.entries.mapM DirectoryEntry.read <;> rfl

theorem mapM_read {entries : List DirectoryEntry}
    (h : ∀ entry ∈ entries, entry.stop < MetadataRoot.extentBound) :
    entries.mapM DirectoryEntry.read = .ok (entries.map DirectoryEntry.header) := by
  induction entries with
  | nil => rfl
  | cons entry entries ih =>
    have hentry : entry.read = .ok entry.header :=
      if_neg (Nat.not_le.2 (h entry List.mem_cons_self))
    rw [List.mapM_cons, hentry, ih fun other hother => h other (List.mem_cons_of_mem entry hother)]
    rfl

theorem mapM_read_of_beyond {entries : List DirectoryEntry} {entry : DirectoryEntry}
    (h : entry ∈ entries) (hbeyond : MetadataRoot.extentBound ≤ entry.stop) :
    ∃ first ∈ entries, entries.mapM DirectoryEntry.read =
      .error (.malformed (.streamExtent first.offset first.size)) := by
  induction entries with
  | nil => simp at h
  | cons next entries ih =>
    by_cases hnext : MetadataRoot.extentBound ≤ next.stop
    · refine ⟨next, List.mem_cons_self, ?_⟩
      rw [List.mapM_cons, DirectoryEntry.read, if_pos hnext]
      rfl
    · have htail : entry ∈ entries := by
        rcases List.mem_cons.1 h with rfl | htail
        · exact absurd hbeyond hnext
        · exact htail
      obtain ⟨first, hfirst, hread⟩ := ih htail
      refine ⟨first, List.mem_cons_of_mem next hfirst, ?_⟩
      rw [List.mapM_cons, DirectoryEntry.read, if_neg hnext, hread]
      rfl

/-- **From its own bytes every entry of a directory is read as it was written, and it is taken to
    be as long as it is just where what is added to its name fits into the zeros behind it, as
    nothing is for a name that is text; else it is taken to be at least four bytes longer. Where
    that concerns no entry but the last one, the root is read with one header for each entry, in
    order; the only fault left is a stream that ends beyond 32 bits.** -/
theorem ofBytes_directory (root : WrittenRoot) (hinside : root.Holds) :
    (∀ entry ∈ root.entries,
      (∀ back, StreamHeader.ofBytes (entry.encode ++ back).toByteArray = .ok entry.header) ∧
      (entry.header.length = entry.encode.length ↔ entry.Measured) ∧
      (¬ entry.Measured → entry.encode.length + 4 ≤ entry.header.length) ∧
      ∀ text : String, entry.name = text.toUTF8.data.toList →
        entry.header.name = text ∧ entry.Measured) ∧
    ((∀ entry ∈ root.entries.dropLast, entry.Measured) →
      ((∀ entry ∈ root.entries, entry.stop < MetadataRoot.extentBound) →
        MetadataRoot.ofBytes root.encode.toByteArray =
          .ok (root.withStreams (root.entries.map DirectoryEntry.header))) ∧
      ∀ entry ∈ root.entries, MetadataRoot.extentBound ≤ entry.stop →
        ∃ first ∈ root.entries, MetadataRoot.ofBytes root.encode.toByteArray =
          .error (.malformed (.streamExtent first.offset first.size))) := by
  refine ⟨fun entry _ => ⟨entry.ofBytes_entry, entry.length_header_eq_iff,
    entry.length_encode_add_le, fun _ => entry.measured_of_text⟩, fun hmeasured => ⟨?_, ?_⟩⟩
  · intro hstop
    rw [ofBytes_measured hinside hmeasured, mapM_read hstop]
    rfl
  · intro entry hentry hbeyond
    obtain ⟨first, hfirst, hread⟩ := mapM_read_of_beyond hentry hbeyond
    refine ⟨first, hfirst, ?_⟩
    rw [ofBytes_measured hinside hmeasured, hread]
    rfl

/-- A root of a few numbers. -/
def ofEntries (entries : List DirectoryEntry) (back : List UInt8) (hne : entries ≠ [])
    (hle : entries.length ≤ MetadataRoot.maxStreams) : WrittenRoot where
  majorVersion := 1
  minorVersion := 1
  reserved := 0
  version := [0x76, 0x34, 0, 0]
  flags := 0
  entries := entries
  back := back
  majorVersion_lt := by decide
  minorVersion_lt := by decide
  reserved_lt := by decide
  length_version_lt := by decide
  flags_lt := by decide
  entries_ne_nil := hne
  length_entries_le := hle

/-- A directory with the names `#~`, `FF` and `FF FF`. -/
def measuredRoot : WrittenRoot :=
  ofEntries
    [⟨60, 4, [0x23, 0x7E], by decide, by decide, by decide, by decide⟩,
     ⟨64, 0, [0xFF], by decide, by decide, by decide, by decide⟩,
     ⟨64, 4, [0xFF, 0xFF], by decide, by decide, by decide, by decide⟩]
    [0, 0, 0, 0, 0, 0, 0, 0] (by decide) (by decide)

theorem ofBytes_directory_measuredRoot :
    measuredRoot.Holds ∧ MetadataRoot.ofBytes measuredRoot.encode.toByteArray =
      .ok (measuredRoot.withStreams
        [⟨60, 4, "#~"⟩, ⟨64, 0, "\uFFFD"⟩, ⟨64, 4, "\uFFFD\uFFFD"⟩]) := by
  have hinside : measuredRoot.Holds := by decide +kernel
  have hheaders : measuredRoot.entries.map DirectoryEntry.header =
      [⟨60, 4, "#~"⟩, ⟨64, 0, "\uFFFD"⟩, ⟨64, 4, "\uFFFD\uFFFD"⟩] := by decide +kernel
  rw [← hheaders]
  exact ⟨hinside, ((ofBytes_directory measuredRoot hinside).2 (by decide +kernel)).1
    (by decide +kernel)⟩

/-- A directory with the names `FF FF` and `#~`. -/
def missedRoot : WrittenRoot :=
  ofEntries
    [⟨48, 4, [0xFF, 0xFF], by decide, by decide, by decide, by decide⟩,
     ⟨52, 4, [0x23, 0x7E], by decide, by decide, by decide, by decide⟩]
    [0, 0, 0, 0, 0, 0, 0, 0] (by decide) (by decide)

/-- The streams lie inside the metadata, but the second entry is looked for four bytes behind where
    it stands, and what is taken for its stream ends outside. -/
theorem ofBytes_missedRoot :
    missedRoot.Holds ∧ missedRoot.entries.map (fun entry => entry.encode.length) = [12, 12] ∧
      missedRoot.entries.map (fun entry => entry.header.length) = [16, 12] ∧
      (∀ entry ∈ missedRoot.entries, entry.stop < MetadataRoot.extentBound) ∧
      (MetadataRoot.ofBytes missedRoot.encode.toByteArray).isOk = false := by
  decide +kernel

end WrittenRoot

end ApiCensus
