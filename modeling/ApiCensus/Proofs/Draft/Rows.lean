/-
  The rows of a module that is written are read back.

  * `ModuleDraft.readable_rows`: the values of every row are those of the cells of its table.
  * `ModuleDraft.tables_read_back`: the table stream of a module reads as its rows.
-/
import ApiCensus.Draft.Metadata
import ApiCensus.Proofs.Draft.Tables

namespace ApiCensus

namespace ModuleDraft

variable (draft : ModuleDraft) (addresses : List Nat)

theorem mem_sortedBy {key : List Nat → Nat} {rows : List (List Nat)} {row : List Nat} :
    row ∈ sortedBy key rows ↔ row ∈ rows := by
  rw [sortedBy, List.mem_mergeSort]

theorem length_sortedBy (key : List Nat → Nat) (rows : List (List Nat)) :
    (sortedBy key rows).length = rows.length := by
  rw [sortedBy, List.length_mergeSort]

/-- A run of members has the two values of its first member. -/
theorem mem_runStarts {last : Option Nat} {number : Nat} {owners : List Nat} {row : List Nat}
    (h : row ∈ runStarts last number owners) : ∃ owner first, row = [owner, first] := by
  induction owners generalizing last number with
  | nil => simp [runStarts] at h
  | cons owner owners ih =>
    rw [runStarts] at h
    split at h
    · exact ih h
    · rcases List.mem_cons.1 h with rfl | h
      · exact ⟨owner, number, rfl⟩
      · exact ih h

/-- Every row has the columns of its table. -/
theorem readable_rows : TableRows.Readable (draft.rows addresses) := by
  intro table row hrow
  cases table
  case module =>
    obtain rfl := List.mem_singleton.1 hrow
    simp [TableId.columns]
  case typeDef =>
    simp only [rows, typeRows, List.mem_mapIdx] at hrow
    obtain ⟨_, _, rfl⟩ := hrow
    simp [TableId.columns]
  case typeRef | field | memberRef | event | property | typeSpec | assemblyRef =>
    simp only [rows, List.mem_map] at hrow
    obtain ⟨_, -, rfl⟩ := hrow
    simp [TableId.columns]
  case customAttribute | methodSemantics | methodImpl =>
    simp only [rows, mem_sortedBy, List.mem_map] at hrow
    obtain ⟨_, -, rfl⟩ := hrow
    simp [TableId.columns]
  case methodDef | interfaceImpl | nestedClass =>
    simp only [rows, mem_sortedBy, List.mem_map] at hrow
    obtain ⟨⟨_, _⟩, -, rfl⟩ := hrow
    simp [TableId.columns]
  case eventMap | propertyMap =>
    obtain ⟨_, _, rfl⟩ := mem_runStarts hrow
    simp [TableId.columns]
  case assembly =>
    simp only [rows] at hrow
    split at hrow
    · obtain rfl := List.mem_singleton.1 hrow
      simp [TableId.columns]
    · simp at hrow
  all_goals simp [rows] at hrow

theorem heapFlags_lt : draft.heapFlags < 64 := by
  have htext := Bool.toNat_lt draft.texts.isLarge
  have hblob := Bool.toNat_lt draft.blobs.isLarge
  rw [ModuleDraft.heapFlags, ApiCensus.heapFlags]
  omega

/-- **The table stream of a module is read as it was written: it opens, it has the row counts of
    the module, and every row of a table that can be read has the values that were written, a coded
    index the table and the row of the token that it was made of.** -/
theorem tables_read_back (hfits : TableRows.Fits (draft.rows addresses) draft.heapFlags) :
    let data := (TableRows.stream (draft.rows addresses) draft.heapFlags).toByteArray
    ∃ stream, TableStream.ofBytes data = .ok stream ∧
      (∀ table, stream.rowCount table = (draft.rows addresses table).length) ∧
      ∀ (kind : RowKind) (index : Nat) (row : List Nat),
        (draft.rows addresses kind.table)[index]? = some row →
        ∃ record, (stream.table data : Table kind.Row).get (index + 1) = .ok record ∧
          kind.rid record = index + 1 ∧ ReadsAs kind.table.columns row (kind.cells record) :=
  TableRows.get_stream hfits (draft.readable_rows addresses) draft.heapFlags_lt
    (List.cons_ne_nil _ _)

/-- A type that has a base and an interface of another assembly, and a method. -/
def derived : ModuleDraft where
  name := 1
  hasAssembly := true
  texts := {}
  assemblyRefs := #[{ version := ⟨8, 0, 0, 0⟩, flags := 0, key := 0, name := 5 }]
  typeRefs := #[{ scope := Token.ofRow .assemblyRef 1, name := 7, nameSpace := 9 }]
  types := #[{ flags := 1, name := 1, nameSpace := 0, base := Token.ofRow .typeRef 1 }]
  methods := #[{ owner := 1, name := 3, signature := 1, implFlags := 0, flags := 6,
                 code := none, catches := [] }]
  interfaces := #[(1, Token.ofRow .typeRef 1)]

theorem fits_derived : TableRows.Fits (derived.rows [0x2050]) derived.heapFlags := by
  have hrows : ∀ table, (derived.rows [0x2050] table).length < LittleEndian.bound 4 ∧
      ∀ row ∈ derived.rows [0x2050] table, ∀ value ∈ row, value < 0x10000 := by
    intro table
    cases table
    case interfaceImpl | customAttribute | methodSemantics | methodImpl | nestedClass =>
      simp only [rows, mem_sortedBy, length_sortedBy]
      decide
    all_goals decide
  exact TableRows.fits_of_lt (fun table => (hrows table).1) fun table => (hrows table).2

theorem tables_read_back_derived :
    TableRows.Fits (derived.rows [0x2050]) derived.heapFlags ∧
      let data := (TableRows.stream (derived.rows [0x2050]) derived.heapFlags).toByteArray
      ∃ stream, TableStream.ofBytes data = .ok stream ∧ stream.rowCount .typeDef = 1 ∧
        ∃ record, (stream.table data : Table TypeDefRow).get 1 = .ok record ∧
          RowKind.cells .typeDef record =
            [.number 1, .number 1, .number 0, .index { table := .typeRef, row := 1 }, .number 1,
             .number 1] := by
  refine ⟨fits_derived, ?_⟩
  obtain ⟨stream, hok, hcount, hget⟩ := derived.tables_read_back [0x2050] fits_derived
  obtain ⟨record, hrecord, -, hcells⟩ := hget .typeDef 0 _ rfl
  refine ⟨stream, hok, hcount .typeDef, record, hrecord, ?_⟩
  exact hcells.unique (.number nofun (.number nofun (.number nofun
    (.coded .typeDefOrRef (Token.ofRow .typeRef 1) (.number nofun (.number nofun .nil))))))

end ModuleDraft

end ApiCensus
