import ClassFormat.Proofs.Constant.Rows
import ClassFormat.Proofs.Constant.Views
import ClassFormat.Proofs.Text.Canonical

/-!
# Nothing of a constant pool is lost

The rows of a pool, written in the order of their indexes, are the bytes that
the pool was read off. For strings this takes that their bytes are modified
UTF-8 without the generosity of the decoder, that is without zero bytes and
without sequences of four bytes.
-/
namespace ClassFormat.Constant

open BigEndian ModifiedUtf8

/-- The number of bytes behind a tag, of which a string has the first two for
its length. -/
def Tag.payloadSize (tag : Tag) (rest : List UInt8) : Nat :=
  match tag with
  | .utf8 => 2 + value (rest.take 2)
  | .classInfo | .string | .methodType | .moduleInfo | .packageInfo => 2
  | .methodHandle => 3
  | .long | .double => 8
  | _ => 4

/-- The bytes of all strings among the entries that fill so many slots, up to the
first byte that is no tag. -/
def stringBytes : Nat → List UInt8 → List (List UInt8)
  | left + 1, code :: rest =>
    match Tag.ofCode? code with
    | some tag =>
      let size := tag.payloadSize rest
      (if tag = .utf8 then [(rest.take size).drop 2] else []) ++
        stringBytes (left + 1 - tag.width) (rest.drop size)
    | none => []
  | _, _ => []
termination_by left => left
decreasing_by
  have wide := width_pos tag
  omega

theorem WrittenCells.singleton {column : Column Tag} {bytes : List UInt8}
    {cells : List (Cell Tag)} (written : WrittenCells [column] bytes cells) :
    ∃ cell, cells = [cell] ∧ Written column bytes cell := by
  cases written with
  | @cons _ _ first _ cell _ here rest =>
      cases rest
      rw [List.append_nil]
      exact ⟨cell, rfl, here⟩

/-- The size of a cell that is no string is settled by its column. -/
theorem WrittenCells.length_fixed {columns : List (Column Tag)} {bytes : List UInt8}
    {cells : List (Cell Tag)} (written : WrittenCells columns bytes cells)
    (fixed : ∀ column ∈ columns, column.type ≠ .utf8String) :
    bytes.length = (columns.map fun column => column.type.fixedSize?.getD 0).sum := by
  induction written with
  | nil => rfl
  | @cons column _ first _ _ _ here _ ih =>
      obtain ⟨plain, fixed⟩ := List.forall_mem_cons.mp fixed
      have size : first.length = column.type.fixedSize?.getD 0 := by
        cases here with
        | byte n type | short n type | word n type =>
            rw [type]
            simp [ColumnType.fixedSize?]
        | text type => exact (plain type).elim
      simp [size, ih fixed]

theorem Written.length_text {column : Column Tag} {bytes : List UInt8} {cell : Cell Tag}
    (written : Written column bytes cell) (string : column.type = .utf8String)
    (after : List UInt8) : bytes.length = 2 + value ((bytes ++ after).take 2) := by
  cases written with
  | byte n type | short n type | word n type =>
      rw [type] at string
      cases string
  | @text text _ _ bound _ =>
      have front : (digits 2 text.length ++ text ++ after).take 2 = digits 2 text.length := by
        rw [List.append_assoc]
        exact List.take_left' (length_digits 2 text.length)
      rw [front, value_digits_of_lt bound, List.length_append, length_digits]

theorem Tag.type_ne_utf8String {tag : Tag} (other : tag ≠ .utf8) :
    ∀ column ∈ tag.columns, column.type ≠ .utf8String := by
  cases tag with
  | utf8 => exact (other rfl).elim
  | _ => decide

/-- Where the cells of a row end is settled by its tag and the bytes behind. -/
theorem Tag.payloadSize_append {tag : Tag} {bytes : List UInt8} {cells : List (Cell Tag)}
    (written : WrittenCells tag.columns bytes cells) (after : List UInt8) :
    tag.payloadSize (bytes ++ after) = bytes.length := by
  by_cases string : tag = .utf8
  · subst string
    obtain ⟨cell, -, here⟩ := written.singleton
    exact (here.length_text rfl after).symm
  · rw [written.length_fixed (Tag.type_ne_utf8String string)]
    cases tag with
    | utf8 => exact (string rfl).elim
    | _ => rfl

/-- The strings among entries are those of the first one and of the others. -/
theorem stringBytes_append {left : Nat} {first : List UInt8} {row : Row Tag}
    (written : WrittenRow first row) (after : List UInt8) :
    stringBytes (left + 1) (first ++ after) =
      (if row.table = .utf8 then [first.drop 3] else []) ++
        stringBytes (left + 1 - row.table.width) after := by
  obtain ⟨payload, rfl, cells⟩ := written
  rw [List.cons_append, stringBytes, Tag.ofCode?_eq_some.mpr rfl]
  simp only [Tag.payloadSize_append cells after, List.take_left, List.drop_left]
  rfl

theorem encodeCell_of_written {column : Column Tag} {bytes : List UInt8} {cell : Cell Tag}
    (written : Written column bytes cell)
    (strict : column.type = .utf8String → Strict (bytes.drop 2)) : encodeCell cell = bytes := by
  cases written with
  | byte n | short n | word n => rfl
  | @text text s type _ decoded =>
      have behind : (digits 2 text.length ++ text).drop 2 = text :=
        List.drop_left' (length_digits 2 text.length)
      have own := strict type
      rw [behind] at own
      change digits 2 text.length ++ ModifiedUtf8.encode s = _
      rw [ModifiedUtf8.encode_of_decode own decoded]

theorem flatMap_encodeCell {columns : List (Column Tag)} {bytes : List UInt8}
    {cells : List (Cell Tag)} (written : WrittenCells columns bytes cells)
    (fixed : ∀ column ∈ columns, column.type ≠ .utf8String) :
    cells.flatMap encodeCell = bytes := by
  induction written with
  | nil => rfl
  | cons here _ ih =>
      obtain ⟨plain, fixed⟩ := List.forall_mem_cons.mp fixed
      have first := encodeCell_of_written here fun string => (plain string).elim
      rw [List.flatMap_cons, first, ih fixed]

theorem encodeRow_of_written {bytes : List UInt8} {row : Row Tag} (written : WrittenRow bytes row)
    (strict : row.table = .utf8 → Strict (bytes.drop 3)) : encodeRow row = bytes := by
  obtain ⟨payload, rfl, cells⟩ := written
  rw [encodeRow]
  congr 1
  by_cases string : row.table = .utf8
  · rw [string] at cells
    obtain ⟨cell, single, here⟩ := cells.singleton
    rw [single, List.flatMap_cons, List.flatMap_nil, List.append_nil]
    exact encodeCell_of_written here fun _ => strict string
  · exact flatMap_encodeCell cells (Tag.type_ne_utf8String string)

theorem flatMap_encodeRow {slot left : Nat} {bytes : List UInt8} {rows : List (Row Tag)}
    (written : WrittenRows slot left bytes rows) (after : List UInt8)
    (strict : ∀ text ∈ stringBytes left (bytes ++ after), Strict text) :
    rows.flatMap encodeRow = bytes := by
  induction written with
  | nil => rfl
  | @cons slot left first rest row rows here _ _ ih =>
      rw [List.append_assoc, stringBytes_append here] at strict
      have own : encodeRow row = first := by
        refine encodeRow_of_written here fun string => strict _ ?_
        rw [if_pos string]
        exact List.mem_append_left _ List.mem_cons_self
      have others := ih fun text member => strict text (List.mem_append_right _ member)
      rw [List.flatMap_cons, own, others]

/-- The rows of a pool in the order of their indexes, written one behind the
other, are the bytes from where the pool began to where it ended, and the sizes
of their cells add up to the length of the pool. -/
theorem read_lossless {source : Source} (small : source.size < 2 ^ 32) {count start : Nat}
    (inside : start ≤ source.size) {pool : Pool}
    (ok : (Pool.read source count start).result = .ok pool)
    (strict : ∀ text ∈ stringBytes (count - 1) (source.bytes.toList.drop start), Strict text) :
    ∃ rows, pool.store.indexes.mapM pool.get = .ok rows ∧
      (Pool.read source count start).offset = start + (rows.flatMap encodeRow).length ∧
      source.slice start (rows.flatMap encodeRow).length = .ok (rows.flatMap encodeRow) ∧
      pool.data source = .ok (rows.flatMap encodeRow) ∧
      pool.dataLength = (rows.map fun row => 1 + (row.cells.map Cell.size).sum).sum := by
  obtain ⟨bytes, rows, written, holds, moved, len, found⟩ := exists_rows_of_read small ok
  have same : rows.flatMap encodeRow = bytes := by
    obtain ⟨after, whole⟩ := holds
    refine flatMap_encodeRow written after ?_
    rwa [whole]
  have slice : source.slice start bytes.length = .ok bytes :=
    Source.slice_eq_ok.mpr ⟨rfl, holds.fits (.inl inside), holds⟩
  have data : pool.data source = .ok bytes := by
    rw [Pool.data_of_read ok, moved, Nat.add_sub_cancel_left, slice]
  rw [written.length_eq] at len
  refine ⟨rows, mapM_get_indexes written found, ?_⟩
  rw [same]
  exact ⟨moved, slice, data, len⟩

/-- The sample on its own. Its string is strict, although it has a NUL and a
supplementary character. -/
theorem read_lossless_sampleContents :
    ∃ pool, (Pool.read ⟨(encodeAll sampleContents).toArray⟩ 8 0).result = .ok pool ∧
      (∀ text ∈ stringBytes 7 (encodeAll sampleContents), Strict text) ∧
      ∃ rows, pool.store.indexes.mapM pool.get = .ok rows ∧
        (Pool.read ⟨(encodeAll sampleContents).toArray⟩ 8 0).offset =
          0 + (rows.flatMap encodeRow).length ∧
        Source.slice ⟨(encodeAll sampleContents).toArray⟩ 0 (rows.flatMap encodeRow).length =
          .ok (rows.flatMap encodeRow) ∧
        pool.data ⟨(encodeAll sampleContents).toArray⟩ = .ok (rows.flatMap encodeRow) ∧
        pool.dataLength = (rows.map fun row => 1 + (row.cells.map Cell.size).sum).sum := by
  have small : Source.size ⟨(encodeAll sampleContents).toArray⟩ < 2 ^ 32 := by decide
  have holds : Source.Holds ⟨(encodeAll sampleContents).toArray⟩ 0 (encodeAll sampleContents) := by
    simp [Source.Holds]
  have width : totalWidth sampleContents = 7 := by decide
  have strict : ∀ text ∈ stringBytes 7 (encodeAll sampleContents), Strict text := by
    decide +kernel
  obtain ⟨pool, ok, -⟩ := read_encodeAll small sampleContents_fit holds
  rw [width] at ok
  exact ⟨pool, ok, strict, read_lossless small (Nat.zero_le _) ok strict⟩

end ClassFormat.Constant
