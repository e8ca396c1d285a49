/-
  The streams of metadata that is written.

  * `MetadataRoot.ofBytes_written`: the directory is read as it was written.
  * `MetadataRoot.sees_stream`: a stream stands where its entry says.
-/
import ApiCensus.Draft.Metadata
import ApiCensus.Proofs.Metadata.Directory

namespace ApiCensus

/-! ## Entries -/

/-- The numbers of an entry fit, and its name is short and has no zeros. -/
structure StreamHeader.Proper (header : StreamHeader) : Prop where
  offset_lt : header.offset < LittleEndian.bound 4
  size_lt : header.size < LittleEndian.bound 4
  length_name_lt : header.name.toUTF8.data.toList.length < maxNameLength
  zero_notMem : 0 ∉ header.name.toUTF8.data.toList

/-- The entry that is written for a header. -/
def DirectoryEntry.ofHeader (header : StreamHeader) (h : header.Proper) : DirectoryEntry where
  offset := header.offset
  size := header.size
  name := header.name.toUTF8.data.toList
  offset_lt := h.offset_lt
  size_lt := h.size_lt
  length_name_lt := h.length_name_lt
  zero_notMem := h.zero_notMem

/-- The number of bytes of an entry for a stream of a given name. -/
def StreamHeader.lengthOf (name : String) : Nat :=
  8 + (Alignment.padded 4 (name.toUTF8.data.toList ++ [0])).length

theorem DirectoryEntry.header_ofHeader {header : StreamHeader} (h : header.Proper) :
    (ofHeader header h).header = header := by
  have hname := ((ofHeader header h).measured_of_text rfl).1
  rw [DirectoryEntry.header] at hname ⊢
  rw [StreamHeader.mk.injEq]
  exact ⟨rfl, rfl, hname⟩

namespace MetadataRoot

variable {offset : Nat} {streams : List NamedStream}

/-! ## Places -/

theorem directory_append (before after : List NamedStream) :
    directory offset (before ++ after) = directory offset before ++
      directory (offset + (before.flatMap Prod.snd).length) after := by
  induction before generalizing offset with
  | nil => rfl
  | cons stream before ih =>
    obtain ⟨name, data⟩ := stream
    rw [List.cons_append, directory, directory, ih, List.flatMap_cons, List.length_append,
      Nat.add_assoc, List.cons_append]

theorem length_directory (offset : Nat) (streams : List NamedStream) :
    (directory offset streams).length = streams.length := by
  induction streams generalizing offset with
  | nil => rfl
  | cons stream streams ih => rw [directory, List.length_cons, ih, List.length_cons]

/-- The entries are as long wherever the streams lie. -/
theorem length_encode_directory (offset : Nat) (streams : List NamedStream) :
    ((directory offset streams).flatMap StreamHeader.encode).length =
      ((streams.map Prod.fst).map StreamHeader.lengthOf).foldr (· + ·) 0 := by
  induction streams generalizing offset with
  | nil => rfl
  | cons stream streams ih =>
    obtain ⟨name, data⟩ := stream
    rw [directory, List.flatMap_cons, List.length_append, ih, StreamHeader.encode,
      List.length_append, LittleEndian.length_encodeAll]
    rfl

/-- The number of bytes before the first stream. -/
theorem encodedLength_eq (streams : List NamedStream) :
    encodedLength streams = 32 + ((streams.map Prod.fst).map StreamHeader.lengthOf).foldr (· + ·) 0 := by
  have hversion : writtenVersion.length = 12 := by decide
  rw [encodedLength, length_encode_directory, encodeStart, List.length_append, List.length_append,
    LittleEndian.length_encodeAll, LittleEndian.length_encodeAll, hversion]
  rfl

/-- What stands before the streams. -/
def encodeFront (streams : List NamedStream) : List UInt8 :=
  encodeStart streams.length
    ++ (directory (encodedLength streams) streams).flatMap StreamHeader.encode

theorem length_encodeFront (streams : List NamedStream) :
    (encodeFront streams).length = encodedLength streams := by
  rw [encodeFront, List.length_append, encodedLength, length_encode_directory,
    length_encode_directory]

theorem length_encode (streams : List NamedStream) :
    (encode streams).length = encodedLength streams + (streams.flatMap Prod.snd).length := by
  rw [encode, List.length_append, ← encodeFront, length_encodeFront]

/-- Where an entry stands in the directory, and where its stream lies. -/
theorem mem_directory {header : StreamHeader} (h : header ∈ directory offset streams) :
    ∃ before name data after, streams = before ++ (name, data) :: after ∧
      header = { offset := offset + (before.flatMap Prod.snd).length, size := data.length, name } := by
  induction streams generalizing offset with
  | nil => simp [directory] at h
  | cons stream streams ih =>
    obtain ⟨name, data⟩ := stream
    rcases List.mem_cons.1 h with rfl | h
    · exact ⟨[], name, data, streams, rfl, rfl⟩
    · obtain ⟨before, other, bytes, after, rfl, rfl⟩ := ih h
      refine ⟨(name, data) :: before, other, bytes, after, rfl, ?_⟩
      rw [List.flatMap_cons, List.length_append, Nat.add_assoc]

/-- A stream stands where its entry says. -/
theorem sees_stream {cursor : Cursor} {before after : List NamedStream} {name : String}
    {data back : List UInt8}
    (hs : cursor.Sees (encode (before ++ (name, data) :: after) ++ back)) :
    (cursor.forward (encodedLength (before ++ (name, data) :: after) +
      (before.flatMap Prod.snd).length)).Sees (data ++ (after.flatMap Prod.snd ++ back)) := by
  have hbytes : encode (before ++ (name, data) :: after) ++ back =
      (encodeFront (before ++ (name, data) :: after) ++ before.flatMap Prod.snd) ++
        (data ++ (after.flatMap Prod.snd ++ back)) := by
    simp only [encode, encodeFront, List.flatMap_append, List.flatMap_cons, List.append_assoc]
  rw [hbytes] at hs
  have hstream := hs.forward
  rwa [List.length_append, length_encodeFront] at hstream

/-! ## The root -/

/-- The names of streams are short and have no zeros. -/
def Named (streams : List NamedStream) : Prop :=
  ∀ stream ∈ streams, stream.1.toUTF8.data.toList.length < StreamHeader.maxNameLength ∧
    0 ∉ stream.1.toUTF8.data.toList

theorem stop_le {header : StreamHeader}
    (h : header ∈ directory (encodedLength streams) streams) :
    header.offset + header.size ≤ (encode streams).length := by
  obtain ⟨before, name, data, after, hstreams, rfl⟩ := mem_directory h
  rw [length_encode]
  conv => rhs; rw [hstreams]
  rw [List.flatMap_append, List.flatMap_cons, List.length_append, List.length_append]
  dsimp only
  rw [← hstreams]
  omega

theorem proper_of_mem (hnames : Named streams) (hsize : (encode streams).length < extentBound)
    {header : StreamHeader} (h : header ∈ directory (encodedLength streams) streams) :
    header.Proper := by
  have hstop := stop_le h
  have hbound : extentBound = LittleEndian.bound 4 := rfl
  obtain ⟨before, name, data, after, hstreams, rfl⟩ := mem_directory h
  obtain ⟨hlength, hzero⟩ := hnames (name, data) (by rw [hstreams]; simp)
  exact ⟨by omega, by omega, hlength, hzero⟩

theorem version_lt : 1 < LittleEndian.bound 2 := by decide

theorem flags_lt : 0 < LittleEndian.bound 2 := by decide

theorem reserved_lt : 0 < LittleEndian.bound 4 := by decide

theorem length_writtenVersion_lt : writtenVersion.length < LittleEndian.bound 4 := by decide

theorem entries_ne_nil {headers : List StreamHeader} (hne : headers ≠ [])
    (hproper : ∀ header ∈ headers, header.Proper) :
    headers.pmap DirectoryEntry.ofHeader hproper ≠ [] := by
  rwa [ne_eq, List.pmap_eq_nil_iff]

theorem length_entries_le {headers : List StreamHeader} (hle : headers.length ≤ maxStreams)
    (hproper : ∀ header ∈ headers, header.Proper) :
    (headers.pmap DirectoryEntry.ofHeader hproper).length ≤ maxStreams := by
  rwa [List.length_pmap]

/-- The root with the entries of given headers. -/
def rootOf (headers : List StreamHeader) (back : List UInt8) (hne : headers ≠ [])
    (hle : headers.length ≤ maxStreams) (hproper : ∀ header ∈ headers, header.Proper) :
    WrittenRoot where
  majorVersion := 1
  minorVersion := 1
  reserved := 0
  version := writtenVersion
  flags := 0
  entries := headers.pmap DirectoryEntry.ofHeader hproper
  back := back
  majorVersion_lt := version_lt
  minorVersion_lt := version_lt
  reserved_lt := reserved_lt
  length_version_lt := length_writtenVersion_lt
  flags_lt := flags_lt
  entries_ne_nil := entries_ne_nil hne hproper
  length_entries_le := length_entries_le hle hproper

theorem encode_rootOf (headers : List StreamHeader) (back : List UInt8) (hne : headers ≠ [])
    (hle : headers.length ≤ maxStreams) (hproper : ∀ header ∈ headers, header.Proper) :
    (rootOf headers back hne hle hproper).encode =
      encodeStart headers.length ++ headers.flatMap StreamHeader.encode ++ back := by
  have hentries : ∀ (headers : List StreamHeader) (h : ∀ header ∈ headers, header.Proper),
      (headers.pmap DirectoryEntry.ofHeader h).flatMap DirectoryEntry.encode =
        headers.flatMap StreamHeader.encode := by
    intro headers h
    induction headers with
    | nil => rfl
    | cons header headers ih =>
      rw [List.pmap_cons, List.flatMap_cons, List.flatMap_cons, ih]
      rfl
  simp only [WrittenRoot.encode, rootOf, hentries, List.length_pmap]
  rfl

theorem headers_rootOf (headers : List StreamHeader) (back : List UInt8) (hne : headers ≠ [])
    (hle : headers.length ≤ maxStreams) (hproper : ∀ header ∈ headers, header.Proper) :
    (rootOf headers back hne hle hproper).entries.map DirectoryEntry.header = headers := by
  rw [rootOf, List.map_pmap, List.pmap_eq_self]
  exact fun header hheader => DirectoryEntry.header_ofHeader (hproper header hheader)

/-- The root that is read. -/
def written (streams : List NamedStream) : MetadataRoot where
  majorVersion := 1
  minorVersion := 1
  version := Utf8.lossy (StreamHeader.beforeZero writtenVersion.toByteArray)
  flags := 0
  streams := directory (encodedLength streams) streams

/-- **The directory of metadata is read as it was written.** -/
theorem ofBytes_written (hne : streams ≠ []) (hle : streams.length ≤ maxStreams)
    (hnames : Named streams) (hsize : (encode streams).length < extentBound) :
    ofBytes (encode streams).toByteArray = .ok (written streams) := by
  have hproper : ∀ header ∈ directory (encodedLength streams) streams, header.Proper :=
    fun header => proper_of_mem hnames hsize
  have hlength := length_directory (encodedLength streams) streams
  have hheaders : directory (encodedLength streams) streams ≠ [] := by
    rw [← List.length_pos_iff, hlength]
    exact List.length_pos_iff.2 hne
  have hle : (directory (encodedLength streams) streams).length ≤ maxStreams := hlength ▸ hle
  have hbytes := encode_rootOf _ (streams.flatMap Prod.snd) hheaders hle hproper
  have hentries := headers_rootOf _ (streams.flatMap Prod.snd) hheaders hle hproper
  generalize hroot : rootOf _ _ hheaders hle hproper = root at hbytes hentries
  rw [hlength, ← encode] at hbytes
  have hstop : ∀ entry ∈ root.entries, entry.stop ≤ (encode streams).length := by
    intro entry hentry
    have hheader := List.mem_map_of_mem (f := DirectoryEntry.header) hentry
    rw [hentries] at hheader
    exact stop_le hheader
  have hinside : root.Holds := by
    rw [WrittenRoot.Holds, hbytes]
    exact hstop
  have hmeasured : ∀ entry ∈ root.entries, entry.Measured := by
    intro entry hentry
    rw [← hroot] at hentry
    obtain ⟨header, _, rfl⟩ := List.mem_pmap.1 hentry
    exact (DirectoryEntry.measured_of_text _ rfl).2
  rw [← hbytes, WrittenRoot.ofBytes_measured hinside fun entry hentry =>
    hmeasured entry (List.dropLast_subset _ hentry), WrittenRoot.mapM_read fun entry hentry =>
    Nat.lt_of_le_of_lt (hstop entry hentry) hsize, hentries, ← hroot]
  rfl

theorem find?_directory {before after : List NamedStream} {name : String} {data : List UInt8}
    (hname : ∀ stream ∈ before, stream.1 ≠ name) :
    (directory offset (before ++ (name, data) :: after)).find? (fun header => header.name == name) =
      some { offset := offset + (before.flatMap Prod.snd).length, size := data.length, name } := by
  have hnone : (directory offset before).find? (fun header => header.name == name) = none := by
    rw [List.find?_eq_none]
    intro header hheader
    obtain ⟨_, other, bytes, _, rfl, rfl⟩ := mem_directory hheader
    simpa using hname (other, bytes) (by simp)
  rw [directory_append, List.find?_append, hnone, Option.none_or, directory]
  exact List.find?_cons_of_pos (beq_self_eq_true name)

/-- A stream is found by its name if none before it has the same one. -/
theorem stream?_written {before after : List NamedStream} {name : String} {data : List UInt8}
    (hstreams : streams = before ++ (name, data) :: after)
    (hname : ∀ stream ∈ before, stream.1 ≠ name) :
    (written streams).stream? name =
      some { offset := encodedLength streams + (before.flatMap Prod.snd).length
             size := data.length, name } := by
  rw [stream?, written, ← find?_directory hname, hstreams]

end MetadataRoot

end ApiCensus
