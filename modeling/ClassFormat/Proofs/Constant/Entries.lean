import ClassFormat.Proofs.Bytes.Source
import ClassFormat.Proofs.Constant.Tables

/-!
# Entries of a constant pool

An entry is read off a tag and a written form of each cell. For numbers there is
one written form only. Strings have several, since the decoder takes more than
the encoder makes, so that these are a relation and not a function.
-/
namespace ClassFormat.Constant

open BigEndian

/-- Whether a cell is read off these bytes. -/
inductive Written (column : Column Tag) : List UInt8 → Cell Tag → Prop
  | byte (n : UInt8) : column.type = .byte → Written column [n] ⟨column, n.toNat, 1, .byte n⟩
  | short (n : UInt16) : column.type = .uint16 →
      Written column (digits 2 n.toNat) ⟨column, n.toNat, 2, .short n⟩
  | word (n : UInt32) : column.type = .uint32 →
      Written column (digits 4 n.toNat) ⟨column, n.toNat, 4, .word n⟩
  | text {bytes : List UInt8} {s : String} : column.type = .utf8String →
      bytes.length < 2 ^ 16 → ModifiedUtf8.decode bytes = some s →
      Written column (digits 2 bytes.length ++ bytes)
        ⟨column, bytes.length, 2 + bytes.length, .text s⟩

/-- The cells of a row, one behind the other. -/
inductive WrittenCells : List (Column Tag) → List UInt8 → List (Cell Tag) → Prop
  | nil : WrittenCells [] [] []
  | cons {column : Column Tag} {columns : List (Column Tag)} {first rest : List UInt8}
      {cell : Cell Tag} {cells : List (Cell Tag)} :
      Written column first cell → WrittenCells columns rest cells →
      WrittenCells (column :: columns) (first ++ rest) (cell :: cells)

namespace Written

variable {column : Column Tag} {bytes : List UInt8} {cell : Cell Tag}

theorem length_eq (h : Written column bytes cell) : bytes.length = cell.size := by
  cases h with
  | byte | short | word => rfl
  | text => rw [List.length_append, length_digits]

theorem column_eq (h : Written column bytes cell) : cell.column = column := by
  cases h with
  | byte | short | word | text => rfl

theorem ne_nil (h : Written column bytes cell) : bytes ≠ [] := by
  cases h with
  | byte | short | word | text => simp [digits]

end Written

theorem Tag.ofCode?_eq_some {code : UInt8} {tag : Tag} :
    ofCode? code = some tag ↔ code = tag.code := by
  constructor
  · intro h
    unfold ofCode? at h
    have same := List.find?_some h
    exact (beq_iff_eq.mp same).symm
  · intro h
    subst h
    cases tag <;> decide

theorem width_pos (tag : Tag) : 0 < tag.width := by
  unfold Tag.width
  split <;> decide

section Reads

variable {source : Source} {column : Column Tag} {cell : Cell Tag}

/-- A string with its length in front. -/
theorem readText_eq_ok (small : source.size < 2 ^ 32) {offset : Nat} {length : UInt16}
    {bytes : List UInt8} :
    source.short offset = .ok length ∧
        source.slice (saturate (offset + 2)) length.toNat = .ok bytes ↔
      length.toNat = bytes.length ∧ source.Holds offset (digits 2 bytes.length ++ bytes) := by
  rw [Source.short_eq_ok, Source.slice_eq_ok, Source.holds_append, length_digits]
  have start {n : Nat} (h : source.Holds offset (digits 2 n)) : offset + 2 ≤ source.size := by
    have inside := h.fits (.inr (by simp [digits]))
    rwa [length_digits] at inside
  constructor
  · intro h
    obtain ⟨count, len, -, holds⟩ := h
    have inside := start count
    rw [saturate_of_lt (by omega)] at holds
    exact ⟨len.symm, len ▸ count, holds⟩
  · intro h
    obtain ⟨len, count, holds⟩ := h
    have inside := start count
    rw [saturate_of_lt (by omega)]
    exact ⟨len ▸ count, len.symm, len ▸ holds.fits (.inl inside), holds⟩

theorem valueAt_eq_ok (small : source.size < 2 ^ 32) {offset raw size : Nat} {value : Value Tag} :
    Pool.valueAt source column offset = .ok (raw, value, size) ↔
      ∃ bytes, Written column bytes ⟨column, raw, size, value⟩ ∧ source.Holds offset bytes := by
  constructor
  · intro h
    unfold Pool.valueAt Pool.Decode.valueAt at h
    split at h
    next type =>
      obtain ⟨n, run, same⟩ := Except.map_eq_ok.mp h
      cases same
      exact ⟨_, .byte n type, Source.byte_eq_ok.mp run⟩
    next type =>
      obtain ⟨n, run, same⟩ := Except.map_eq_ok.mp h
      cases same
      exact ⟨_, .short n type, Source.short_eq_ok.mp run⟩
    next type =>
      obtain ⟨n, run, same⟩ := Except.map_eq_ok.mp h
      cases same
      exact ⟨_, .word n type, Source.word_eq_ok.mp run⟩
    next type =>
      obtain ⟨length, first, h⟩ := Except.bind_eq_ok.mp h
      obtain ⟨_, behind, h⟩ := Except.bind_eq_ok.mp h
      cases behind
      obtain ⟨bytes, second, h⟩ := Except.bind_eq_ok.mp h
      obtain ⟨len, holds⟩ := (readText_eq_ok small).mp ⟨first, second⟩
      split at h
      next decoded =>
        cases h
        have bound : bytes.length < 2 ^ 16 := len ▸ length.toNat_lt
        rw [len]
        exact ⟨_, .text type bound decoded, holds⟩
      next => cases h
    next => cases h
  · intro h
    obtain ⟨bytes, written, holds⟩ := h
    cases written with
    | byte n type =>
        rw [Pool.valueAt, Pool.Decode.valueAt, type]
        exact Except.map_eq_ok.mpr ⟨n, Source.byte_eq_ok.mpr holds, rfl⟩
    | short n type =>
        rw [Pool.valueAt, Pool.Decode.valueAt, type]
        exact Except.map_eq_ok.mpr ⟨n, Source.short_eq_ok.mpr holds, rfl⟩
    | word n type =>
        rw [Pool.valueAt, Pool.Decode.valueAt, type]
        exact Except.map_eq_ok.mpr ⟨n, Source.word_eq_ok.mpr holds, rfl⟩
    | @text bytes s type bound decoded =>
        have len : (UInt16.ofNat bytes.length).toNat = bytes.length :=
          UInt16.toNat_ofNat_of_lt' bound
        obtain ⟨first, second⟩ := (readText_eq_ok small).mpr ⟨len, holds⟩
        rw [Pool.valueAt, Pool.Decode.valueAt, type]
        refine Except.bind_eq_ok.mpr ⟨_, first, Except.bind_eq_ok.mpr ⟨_, rfl, ?_⟩⟩
        refine Except.bind_eq_ok.mpr ⟨_, second, ?_⟩
        rw [decoded, len]
        rfl

theorem cellAt_eq_ok (small : source.size < 2 ^ 32) {offset : Nat} :
    Pool.cellAt source column offset = .ok cell ↔
      ∃ bytes, Written column bytes cell ∧ source.Holds offset bytes := by
  constructor
  · intro h
    obtain ⟨⟨raw, value, size⟩, read, same⟩ := Except.bind_eq_ok.mp h
    cases same
    exact (valueAt_eq_ok small).mp read
  · rintro ⟨bytes, written, holds⟩
    obtain ⟨own, raw, size, value⟩ := cell
    obtain rfl : own = column := written.column_eq
    exact Except.bind_eq_ok.mpr ⟨_, (valueAt_eq_ok small).mpr ⟨bytes, written, holds⟩, rfl⟩

end Reads

namespace Pool

variable {source : Source} {s t : Progress}

theorem readCell_eq_ok (small : source.size < 2 ^ 32) {column : Column Tag} {cell : Cell Tag} :
    readCell source column s = .ok cell t ↔
      ∃ bytes, Written column bytes cell ∧ source.Holds s.offset bytes ∧
        t = ⟨s.offset + bytes.length, s.store, s.log⟩ := by
  rw [readCell_eq]
  simp only [bind_eq_ok, Reader.currentOffset_eq_ok, ofExcept_eq_ok, advance_eq_ok,
    pure_eq_ok, cellAt_eq_ok small]
  have moves {bytes : List UInt8} (written : Written column bytes cell)
      (holds : source.Holds s.offset bytes) :
      saturate (s.offset + cell.size) = s.offset + bytes.length := by
    have inside := holds.fits (.inr written.ne_nil)
    rw [← written.length_eq, saturate_of_lt (by omega)]
  constructor
  · intro h
    obtain ⟨_, _, ⟨rfl, rfl⟩, made, _, ⟨⟨bytes, written, holds⟩, rfl⟩, _, _, rfl, rfl, rfl⟩ := h
    exact ⟨bytes, written, holds, by rw [moves written holds]⟩
  · intro h
    obtain ⟨bytes, written, holds, rfl⟩ := h
    exact ⟨s.offset, s, ⟨rfl, rfl⟩, cell, s, ⟨⟨bytes, written, holds⟩, rfl⟩, (), _, rfl, rfl,
      by rw [moves written holds]⟩

theorem mapM_readCell_eq_ok (small : source.size < 2 ^ 32) {columns : List (Column Tag)}
    {cells : List (Cell Tag)} :
    columns.mapM (readCell source) s = .ok cells t ↔
      ∃ bytes, WrittenCells columns bytes cells ∧ source.Holds s.offset bytes ∧
        t = ⟨s.offset + bytes.length, s.store, s.log⟩ := by
  induction columns generalizing s cells with
  | nil =>
      rw [mapM_nil_eq_ok]
      constructor
      · intro h
        obtain ⟨rfl, rfl⟩ := h
        exact ⟨[], .nil, List.nil_prefix, rfl⟩
      · intro h
        obtain ⟨bytes, written, -, rfl⟩ := h
        cases written
        exact ⟨rfl, rfl⟩
  | cons column columns ih =>
      rw [mapM_cons_eq_ok]
      constructor
      · intro h
        obtain ⟨cell, r, rest, run, others, rfl⟩ := h
        obtain ⟨first, written, holds, rfl⟩ := (readCell_eq_ok small).mp run
        obtain ⟨behind, all, holds', rfl⟩ := ih.mp others
        refine ⟨first ++ behind, .cons written all, Source.holds_append.mpr ⟨holds, holds'⟩, ?_⟩
        rw [List.length_append, Nat.add_assoc]
      · intro h
        obtain ⟨bytes, written, holds, rfl⟩ := h
        cases written with
        | cons written all =>
            obtain ⟨holds, holds'⟩ := Source.holds_append.mp holds
            refine ⟨_, _, _, (readCell_eq_ok small).mpr ⟨_, written, holds, rfl⟩,
              ih.mpr ⟨_, all, holds', ?_⟩, rfl⟩
            rw [List.length_append, Nat.add_assoc]

/-- A row is read off its cells, and registered in its slot. -/
theorem readRow_eq_ok (small : source.size < 2 ^ 32) (stocked : Stocked s.store) {slot : Nat}
    {tag : Tag} {u : Unit} :
    readRow source slot tag s = .ok u t ↔
      ∃ bytes cells, WrittenCells tag.columns bytes cells ∧ source.Holds s.offset bytes ∧
        t.offset = s.offset + bytes.length ∧
        t.log = s.log.push (.constantRead ⟨tag, slot, cells⟩) ∧
        Store.addRowAt slot ⟨tag, slot, cells⟩ s.store = .ok () t.store := by
  rw [readRow_eq stocked]
  constructor
  · intro h
    obtain ⟨cells, _, read, h⟩ := bind_eq_ok.mp h
    obtain ⟨bytes, written, holds, rfl⟩ := (mapM_readCell_eq_ok small).mp read
    obtain ⟨_, _, noted, stored⟩ := bind_eq_ok.mp h
    obtain rfl := Reader.note_eq_ok.mp noted
    obtain ⟨added, offset, log⟩ := Reader.onStore_eq_ok.mp stored
    exact ⟨bytes, cells, written, holds, offset, log, added⟩
  · rintro ⟨bytes, cells, written, holds, offset, log, added⟩
    have read := (mapM_readCell_eq_ok small).mpr ⟨bytes, written, holds, rfl⟩
    exact bind_eq_ok.mpr ⟨cells, _, read, bind_eq_ok.mpr ⟨(), _, rfl,
      Reader.onStore_eq_ok.mpr ⟨added, offset, log⟩⟩⟩

/-- An entry is read off its tag and its cells, and registered in its slot. -/
theorem readEntry_eq_ok (small : source.size < 2 ^ 32) (stocked : Stocked s.store) {slot : Nat}
    {tag : Tag} :
    readEntry source slot s = .ok tag t ↔
      ∃ bytes cells, WrittenCells tag.columns bytes cells ∧
        source.Holds s.offset (tag.code :: bytes) ∧
        t.offset = s.offset + (tag.code :: bytes).length ∧
        t.log = s.log.push (.constantRead ⟨tag, slot, cells⟩) ∧
        Store.addRowAt slot ⟨tag, slot, cells⟩ s.store = .ok () t.store := by
  have moves {code : UInt8} (holds : source.Holds s.offset [code]) :
      saturate (s.offset + 1) = s.offset + 1 := by
    have inside := holds.fits (.inr (List.cons_ne_nil _ _))
    rw [List.length_singleton] at inside
    exact saturate_of_lt (by omega)
  constructor
  · intro h
    obtain ⟨_, _, start, h⟩ := bind_eq_ok.mp h
    obtain ⟨rfl, rfl⟩ := Reader.currentOffset_eq_ok.mp start
    obtain ⟨code, _, first, h⟩ := bind_eq_ok.mp h
    obtain ⟨run, rfl⟩ := ofExcept_eq_ok.mp first
    have holds := Source.byte_eq_ok.mp run
    cases found : Tag.ofCode? code with
    | none =>
      rw [found] at h
      exact (throw_ne_ok h).elim
    | some other =>
      rw [found] at h
      obtain ⟨_, _, moved, h⟩ := bind_eq_ok.mp h
      obtain rfl := advance_eq_ok.mp moved
      obtain ⟨_, _, row, h⟩ := bind_eq_ok.mp h
      obtain ⟨rfl, rfl⟩ := pure_eq_ok.mp h
      obtain ⟨bytes, cells, written, holds', offset, log, added⟩ :=
        (readRow_eq_ok (s := ⟨saturate (s.offset + 1), s.store, s.log⟩) small stocked).mp row
      obtain rfl := Tag.ofCode?_eq_some.mp found
      dsimp only at holds' offset
      rw [moves holds] at holds' offset
      refine ⟨bytes, cells, written, Source.holds_append.mpr ⟨holds, holds'⟩, ?_, log, added⟩
      rw [offset, List.length_cons, Nat.add_assoc, Nat.add_comm 1]
  · intro h
    obtain ⟨bytes, cells, written, holds, offset, log, added⟩ := h
    have whole : source.Holds s.offset ([tag.code] ++ bytes) := holds
    obtain ⟨first, second⟩ := Source.holds_append.mp whole
    have row : readRow source slot tag ⟨s.offset + 1, s.store, s.log⟩ = .ok () t := by
      refine (readRow_eq_ok (s := ⟨s.offset + 1, s.store, s.log⟩) small stocked).mpr
        ⟨bytes, cells, written, second, ?_, log, added⟩
      rw [offset, List.length_cons, Nat.add_assoc, Nat.add_comm 1]
    refine bind_eq_ok.mpr ⟨s.offset, s, rfl, bind_eq_ok.mpr ⟨tag.code, s, ?_, ?_⟩⟩
    · exact ofExcept_eq_ok.mpr ⟨Source.byte_eq_ok.mpr first, rfl⟩
    · rw [Tag.ofCode?_eq_some.mpr rfl]
      refine bind_eq_ok.mpr ⟨(), _, advance_eq_ok.mpr rfl, ?_⟩
      rw [moves first]
      exact bind_eq_ok.mpr ⟨(), t, row, rfl⟩

/-- An entry is read into the first slot that is left, and the others into those
behind it. -/
theorem readEntries_succ (source : Source) (slot left : Nat) :
    readEntries source slot (left + 1) =
      readEntry source slot >>= fun tag =>
        readEntries source (slot + tag.width) (left + 1 - tag.width) := by
  cases left with
  | zero =>
      rw [readEntries, Decode.entries]
      congr 1
      funext tag
      have none : 0 + 1 - tag.width = 0 := by
        have wide := width_pos tag
        omega
      rw [none]
      rfl
  | succ left =>
      rw [readEntries, Decode.entries]
      congr 1
      funext tag
      unfold Tag.width
      split
      · rfl
      · rfl

end Pool

end ClassFormat.Constant
