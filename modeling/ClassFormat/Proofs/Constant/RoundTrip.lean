import ClassFormat.Constant.Content
import ClassFormat.Proofs.Constant.Entries
import ClassFormat.Proofs.Table.Numbering
import ClassFormat.Proofs.Text.ModifiedUtf8

/-!
# Constants and their bytes

Reading the written form of constants registers a row for each of them, under
the slot that the widths of those in front of it lead to.
-/
namespace ClassFormat.Constant

open BigEndian

/-- The cell that a value is read into. -/
def writtenCell (column : Column Tag) (value : Value Tag) : Cell Tag :=
  match value with
  | .byte n => ⟨column, n.toNat, 1, value⟩
  | .short n => ⟨column, n.toNat, 2, value⟩
  | .word n => ⟨column, n.toNat, 4, value⟩
  | .text s => ⟨column, (ModifiedUtf8.encode s).length, 2 + (ModifiedUtf8.encode s).length, value⟩
  | .bytes _ | .shorts _ | .references _ => ⟨column, 0, 0, value⟩

/-- The row of a constant in a slot. -/
def Content.row (content : Content) (slot : Nat) : Row Tag :=
  ⟨content.tag, slot, List.zipWith writtenCell content.tag.columns content.values⟩

/-- Whether a column takes a value, which must not be too long. -/
def Takes (column : Column Tag) : Value Tag → Prop
  | .byte _ => column.type = .byte
  | .short _ => column.type = .uint16
  | .word _ => column.type = .uint32
  | .text s => column.type = .utf8String ∧ (ModifiedUtf8.encode s).length < 2 ^ 16
  | .bytes _ | .shorts _ | .references _ => False

theorem Content.takes {content : Content} (fits : content.Fits) :
    List.Forall₂ Takes content.tag.columns content.values := by
  cases content with
  | utf8 s => exact .cons ⟨rfl, fits⟩ .nil
  | integer | float => exact .cons rfl .nil
  | long | double => exact .cons rfl (.cons rfl .nil)
  | classInfo | string | methodType | moduleInfo | packageInfo => exact .cons rfl .nil
  | fieldref | methodref | interfaceMethodref | nameAndType | dynamic | invokeDynamic =>
      exact .cons rfl (.cons rfl .nil)
  | methodHandle => exact .cons rfl (.cons rfl .nil)

theorem digits_eight (bits : UInt64) :
    digits 8 bits.toNat =
      digits 4 (bits >>> 32).toUInt32.toNat ++ digits 4 bits.toUInt32.toNat := by
  have high : (bits >>> 32).toUInt32.toNat = bits.toNat / 256 ^ 4 := by
    have bound := bits.toNat_lt
    rw [UInt64.toNat_toUInt32, UInt64.toNat_shiftRight, Nat.shiftRight_eq_div_pow]
    simp
    omega
  have low : bits.toUInt32.toNat = bits.toNat % 256 ^ 4 := UInt64.toNat_toUInt32 bits
  rw [digits_add 4 4, high, low, digits_mod]

/-- The row of a constant has the same written form. -/
theorem encodeRow_row (content : Content) (slot : Nat) :
    encodeRow (content.row slot) = content.encode := by
  cases content <;>
    simp [Content.row, encodeRow, Content.encode, Content.code_eq, Content.payload, Content.values, Content.tag,
      Tag.columns, Tag.layout, Layout.columns, writtenCell, encodeCell, digits_eight]

theorem written_writtenCell {column : Column Tag} {value : Value Tag} (takes : Takes column value) :
    Written column (encodeCell (writtenCell column value)) (writtenCell column value) := by
  cases value with
  | byte n => exact .byte n takes
  | short n => exact .short n takes
  | word n => exact .word n takes
  | text s => exact .text takes.1 takes.2 (ModifiedUtf8.decode_encode s)
  | bytes | shorts | references => exact takes.elim

theorem writtenCells_zipWith {columns : List (Column Tag)} {values : List (Value Tag)}
    (takes : List.Forall₂ Takes columns values) :
    WrittenCells columns ((List.zipWith writtenCell columns values).flatMap encodeCell)
      (List.zipWith writtenCell columns values) := by
  induction takes with
  | nil => exact .nil
  | cons first rest ih => exact .cons (written_writtenCell first) ih

section Entries

variable {source : Source}

/-- A constant is read off its written form into a free slot of a store that
has all tables. -/
theorem readEntry_encode (small : source.size < 2 ^ 32) {content : Content} (fits : content.Fits)
    {slot : Nat} {s : Pool.Progress} (stocked : Stocked s.store)
    (holds : source.Holds s.offset content.encode) {store : Store Tag}
    (added : Store.addRowAt slot (content.row slot) s.store = .ok () store) :
    ∃ log, Pool.readEntry source slot s =
      .ok content.tag ⟨s.offset + content.encode.length, store, log⟩ := by
  have written := writtenCells_zipWith (content.takes fits)
  rw [← encodeRow_row content slot] at holds ⊢
  exact ⟨_, (Pool.readEntry_eq_ok small stocked).mpr ⟨_, _, written, holds, rfl, rfl, added⟩⟩

end Entries

/-- The store has the tables of all kinds, and rows for these constants. -/
structure Filled (store : Store Tag) (placed : List (Nat × Content)) : Prop
    extends Stocked store where
  rows : ∀ (slot : Nat) (row : Row Tag), store.rows[slot]? = some row ↔
    ∃ content, (slot, content) ∈ placed ∧ row = content.row slot

theorem filled_emptyStore : Filled Pool.emptyStore [] := by
  refine ⟨Pool.stocked_emptyStore, fun slot row => ?_⟩
  rw [Pool.rows_emptyStore, Std.TreeMap.getElem?_emptyc]
  simp

theorem length_cells (content : Content) (slot : Nat) :
    (content.row slot).cells.length = content.tag.columns.length := by
  cases content <;> rfl

theorem Filled.add {store : Store Tag} {placed : List (Nat × Content)} (h : Filled store placed)
    {slot : Nat} (free : ∀ content, (slot, content) ∉ placed) (content : Content) :
    ∃ store', Store.addRowAt slot (content.row slot) store = .ok () store' ∧
      Filled store' (placed ++ [(slot, content)]) := by
  have accepts : store.Accepts (content.row slot) :=
    (Store.accepts_iff h.shaped).mpr ⟨h.tables _, length_cells content slot⟩
  obtain ⟨position, bound, found, len⟩ := accepts
  have fresh : slot ∉ store.rows := by
    intro taken
    have some := Std.TreeMap.mem_iff_isSome_getElem?.mp taken
    obtain ⟨row, present⟩ := Option.isSome_iff_exists.mp some
    obtain ⟨other, member, -⟩ := (h.rows slot row).mp present
    exact free other member
  have added : Store.addRowAt slot (content.row slot) store =
      .ok () (store.withRow position slot (content.row slot)) :=
    Store.addRowAt_eq_ok.mpr ⟨fresh, position, bound, found, len, rfl⟩
  refine ⟨_, added, h.toStocked.of_addRowAt added, fun i row => ?_⟩
  · rw [← Store.row_eq_ok, Store.row_eq_ok_withRow fresh, Store.row_eq_ok, h.rows]
    constructor
    · rintro (⟨other, member, rfl⟩ | ⟨rfl, rfl⟩)
      · exact ⟨other, List.mem_append_left _ member, rfl⟩
      · exact ⟨content, List.mem_append_right _ List.mem_cons_self, rfl⟩
    · rintro ⟨other, member, rfl⟩
      rcases List.mem_append.mp member with old | new
      · exact .inl ⟨other, old, rfl⟩
      · cases List.mem_singleton.mp new
        exact .inr ⟨rfl, rfl⟩

section Pools

variable {source : Source} {slot left : Nat}

/-- What is left when an entry was read are the slots behind it. -/
theorem readEntries_of_readEntry {tag : Tag} {s t : Pool.Progress}
    (run : Pool.readEntry source slot s = .ok tag t) :
    Pool.readEntries source slot (tag.width + left) s =
      Pool.readEntries source (slot + tag.width) left t := by
  have wide := width_pos tag
  obtain ⟨behind, more⟩ : ∃ behind, tag.width + left = behind + 1 :=
    Nat.exists_eq_add_one.mpr (Nat.add_pos_left wide left)
  have rest : behind + 1 - tag.width = left := by omega
  rw [more, Pool.readEntries_succ]
  change EStateM.bind _ _ s = _
  rw [EStateM.bind, run]
  dsimp only
  rw [rest]

/-- Entries are read off their written form into the slots from the next one
on. -/
theorem readEntries_encodeAll (small : source.size < 2 ^ 32) {contents : List Content}
    (fits : ∀ content ∈ contents, content.Fits) {s : Pool.Progress}
    (holds : source.Holds s.offset (encodeAll contents)) {placed : List (Nat × Content)}
    (filled : Filled s.store placed) (below : ∀ p ∈ placed, p.1 < slot) :
    ∃ store log, Pool.readEntries source slot (totalWidth contents) s =
        .ok () ⟨s.offset + (encodeAll contents).length, store, log⟩ ∧
      Filled store (placed ++ withSlots slot contents) := by
  induction contents generalizing slot s placed with
  | nil =>
      refine ⟨s.store, s.log, rfl, ?_⟩
      rw [withSlots, List.append_nil]
      exact filled
  | cons content contents ih =>
      obtain ⟨fit, fits⟩ := List.forall_mem_cons.mp fits
      obtain ⟨here, there⟩ := Source.holds_append.mp holds
      have total : totalWidth (content :: contents) = content.width + totalWidth contents := rfl
      obtain ⟨store, added, filled'⟩ :=
        filled.add (fun other member => Nat.lt_irrefl slot (below _ member)) content
      obtain ⟨log, run⟩ := readEntry_encode small fit filled.toStocked here added
      have wide : 0 < content.width := content.width_eq ▸ width_pos content.tag
      have below' : ∀ p ∈ placed ++ [(slot, content)], p.1 < slot + content.width := by
        intro p member
        rcases List.mem_append.mp member with old | new
        · exact Nat.lt_add_right _ (below p old)
        · rw [List.mem_singleton.mp new]
          exact Nat.lt_add_of_pos_right wide
      obtain ⟨store', log', rest, whole⟩ := ih fits
        (s := ⟨s.offset + content.encode.length, store, log⟩) there filled' below'
      refine ⟨store', log', ?_, ?_⟩
      · rw [total, content.width_eq, readEntries_of_readEntry run, ← content.width_eq, rest,
          encodeAll, encodeAll, List.flatMap_cons, List.length_append, Nat.add_assoc]
      · rw [List.append_assoc] at whole
        exact whole

/-- The constant pool of a list of constants. -/
structure Pool.Holds (pool : Pool) (contents : List Content) : Prop where
  filled : Filled pool.store (withSlots 1 contents)
  count_eq : pool.count = totalWidth contents + 1

theorem read_encodeAll (small : source.size < 2 ^ 32) {contents : List Content}
    (fits : ∀ content ∈ contents, content.Fits) {offset : Nat}
    (holds : source.Holds offset (encodeAll contents)) :
    ∃ pool, (Pool.read source (totalWidth contents + 1) offset).result = .ok pool ∧
      (Pool.read source (totalWidth contents + 1) offset).offset =
        offset + (encodeAll contents).length ∧ pool.Holds contents := by
  obtain ⟨store, log, run, filled⟩ := readEntries_encodeAll small fits
    (s := ⟨offset, Pool.emptyStore, #[.constantsBegun offset (totalWidth contents)]⟩) holds
    filled_emptyStore (fun _ member => (List.not_mem_nil member).elim)
  have reading : Pool.read source (totalWidth contents + 1) offset = _ := Pool.read_of_ok run
  rw [reading]
  exact ⟨_, rfl, rfl, filled, rfl⟩

end Pools

namespace Pool.Holds

variable {pool : Pool} {contents : List Content} {slot : Nat}

/-- The slots lead to the constants and to nothing else. -/
theorem get_eq_ok (h : pool.Holds contents) {row : Row Tag} :
    pool.get slot = .ok row ↔
      ∃ content, (slot, content) ∈ withSlots 1 contents ∧ row = content.row slot := by
  rw [← h.filled.rows]
  unfold Pool.get Store.row
  cases pool.store.rows[slot]? with
  | none => simp
  | some other => simp

theorem utf8_eq_ok (h : pool.Holds contents) {s : String}
    (placed : (slot, .utf8 s) ∈ withSlots 1 contents) : pool.utf8 slot = .ok s := by
  have row := (h.filled.rows slot _).mpr ⟨_, placed, rfl⟩
  have found : pool.entry .utf8 slot = .ok (Content.row (.utf8 s) slot) :=
    Store.entry_eq_ok.mpr ⟨h.filled.tables .utf8, row, rfl⟩
  rw [Pool.utf8, found]
  rfl

end Pool.Holds

section Names

/-- A source that consists of strings, one behind the other. -/
def namesSource (names : List String) : Source :=
  ⟨(encodeAll (names.map .utf8)).toArray⟩

variable {names : List String}

theorem exists_read_namesSource (fits : ∀ name ∈ names, (ModifiedUtf8.encode name).length < 2 ^ 16)
    (small : (namesSource names).size < 2 ^ 32) :
    ∃ pool, (Pool.read (namesSource names) (totalWidth (names.map .utf8) + 1) 0).result = .ok pool ∧
      pool.Holds (names.map .utf8) := by
  have allFit : ∀ content ∈ names.map Content.utf8, content.Fits := by
    intro content member
    obtain ⟨name, listed, rfl⟩ := List.mem_map.mp member
    exact fits name listed
  have whole : (namesSource names).Holds 0 (encodeAll (names.map .utf8)) := List.prefix_rfl
  obtain ⟨pool, run, -, holds⟩ := read_encodeAll small allFit whole
  exact ⟨pool, run, holds⟩

/-- The pool that is read off such a source. -/
def namesPool (names : List String)
    (fits : ∀ name ∈ names, (ModifiedUtf8.encode name).length < 2 ^ 16)
    (small : (namesSource names).size < 2 ^ 32) : Pool :=
  (Pool.read (namesSource names) (totalWidth (names.map .utf8) + 1) 0).result.toOption.get <| by
    obtain ⟨pool, run, -⟩ := exists_read_namesSource fits small
    rw [run]
    rfl

variable (fits : ∀ name ∈ names, (ModifiedUtf8.encode name).length < 2 ^ 16)
  (small : (namesSource names).size < 2 ^ 32)

theorem read_namesPool :
    (Pool.read (namesSource names) (totalWidth (names.map .utf8) + 1) 0).result =
      .ok (namesPool names fits small) := by
  obtain ⟨pool, run, -⟩ := exists_read_namesSource fits small
  simp [namesPool, run, Except.toOption]

theorem holds_namesPool : (namesPool names fits small).Holds (names.map .utf8) := by
  obtain ⟨pool, run, holds⟩ := exists_read_namesSource fits small
  cases run.symm.trans (read_namesPool fits small)
  exact holds

theorem utf8_namesPool {slot : Nat} {name : String}
    (placed : (slot, .utf8 name) ∈ withSlots 1 (names.map .utf8)) :
    (namesPool names fits small).utf8 slot = .ok name :=
  (holds_namesPool fits small).utf8_eq_ok placed

end Names

end ClassFormat.Constant
