import ClassFormat.Proofs.Constant.Failures
import ClassFormat.Proofs.Text.Grammar

/-!
# Which strings a constant pool takes

Once the entries in front of a string are read, its payload decides. A payload in
modified UTF-8 without halves of surrogate pairs, or in standard UTF-8, becomes a
row of the pool, and any other ends the read where the payload starts.
-/
namespace ClassFormat.Constant

open BigEndian ModifiedUtf8

section Front

variable {source : Source} {count : Nat}

theorem WrittenCells.length_cells {columns : List (Column Tag)} {bytes : List UInt8}
    {cells : List (Cell Tag)} (written : WrittenCells columns bytes cells) :
    cells.length = columns.length := by
  induction written with
  | nil => rfl
  | cons _ _ ih => rw [List.length_cons, List.length_cons, ih]

/-- A complete entry is read into a slot that is free. -/
theorem readEntry_of_writtenRow (small : source.size < 2 ^ 32) {bytes : List UInt8} {row : Row Tag}
    (written : WrittenRow bytes row) {s : Pool.Progress} (ready : Ready s.store row.index)
    (holds : source.Holds s.offset bytes) :
    ∃ store, Ready store (row.index + row.table.width) ∧
      Store.addRowAt row.index row s.store = .ok () store ∧
      Pool.readEntry source row.index s =
        .ok row.table ⟨s.offset + bytes.length, store, s.log.push (.constantRead row)⟩ := by
  obtain ⟨payload, rfl, cells⟩ := written
  obtain ⟨store, added⟩ := ready.exists_addRowAt cells.length_cells
  exact ⟨store, ready.of_addRowAt added, added,
    (Pool.readEntry_eq_ok small ready.toStocked).mpr ⟨payload, row.cells, cells, holds, rfl, rfl, added⟩⟩

/-- A slot is read, and then the slots behind its constant. -/
theorem readEntries_at (source : Source) {slot : Nat} (inside : slot < count) :
    Pool.readEntries source slot (count - slot) =
      Pool.readEntry source slot >>= fun tag =>
        Pool.readEntries source (slot + tag.width) (count - (slot + tag.width)) := by
  obtain ⟨left, more⟩ : ∃ left, count - slot = left + 1 :=
    Nat.exists_eq_add_one.mpr (Nat.sub_pos_of_lt inside)
  rw [more, Pool.readEntries_succ]
  congr 1
  funext tag
  rw [← more, Nat.sub_sub]

/-- Reading goes on behind complete entries, with a row noted for each of them. -/
theorem readEntries_of_front (small : source.size < 2 ^ 32) {parts : List (List UInt8)}
    {rows : List (Row Tag)} (complete : List.Forall₂ WrittenRow parts rows) :
    ∀ {slot stop : Nat} {s : Pool.Progress}, Laid slot rows stop → stop ≤ count →
      Ready s.store slot → source.Holds s.offset parts.flatten →
      ∃ t : Pool.Progress, Ready t.store stop ∧ t.offset = s.offset + parts.flatten.length ∧
        t.log.toList = s.log.toList ++ rows.map .constantRead ∧
        Pool.readEntries source slot (count - slot) s =
          Pool.readEntries source stop (count - stop) t := by
  induction complete with
  | nil =>
      intro slot stop s laid _ ready _
      cases laid
      exact ⟨s, ready, rfl, by simp, rfl⟩
  | @cons bytes row parts rows written _ ih =>
      intro slot stop s laid inside ready holds
      cases laid with
      | cons here laid =>
          subst here
          have reached := laid.stop_eq
          have wide := width_pos row.table
          obtain ⟨first, others⟩ := Source.holds_append.mp holds
          obtain ⟨store, ready', -, run⟩ := readEntry_of_writtenRow small written ready first
          obtain ⟨t, last, moved, noted, rest⟩ := ih
            (s := ⟨s.offset + bytes.length, store, s.log.push (.constantRead row)⟩)
            laid inside ready' others
          refine ⟨t, last, ?_, ?_, ?_⟩
          · rw [moved, List.flatten_cons, List.length_append, Nat.add_assoc]
          · rw [noted]
            simp
          · rw [readEntries_at source (by omega), bind_of_ok run]
            exact rest

/-- The reader comes to a slot of the pool at an offset, behind these rows. -/
structure Reaches (source : Source) (count start slot offset : Nat) (rows : List (Row Tag)) :
    Prop where
  inside : slot < count
  laid : Laid 1 rows slot
  front : ∃ parts, List.Forall₂ WrittenRow parts rows ∧ source.Holds start parts.flatten ∧
    offset = start + parts.flatten.length

/-- What is left of a read when it has come to a slot. -/
theorem Reaches.exists_progress (small : source.size < 2 ^ 32) {start slot offset : Nat}
    {rows : List (Row Tag)} (reaches : Reaches source count start slot offset rows) :
    ∃ s : Pool.Progress, Ready s.store slot ∧ s.offset = offset ∧
      s.log.toList = .constantsBegun start (count - 1) :: rows.map .constantRead ∧
      Pool.readEntries source 1 (count - 1)
          ⟨start, Pool.emptyStore, #[.constantsBegun start (count - 1)]⟩ =
        Pool.readEntries source slot (count - slot) s := by
  obtain ⟨inside, laid, parts, complete, front, rfl⟩ := reaches
  obtain ⟨s, ready, moved, noted, run⟩ := readEntries_of_front small complete
    (s := ⟨start, Pool.emptyStore, #[.constantsBegun start (count - 1)]⟩) laid
    (Nat.le_of_lt inside) ready_emptyStore front
  exact ⟨s, ready, moved, noted, run⟩

end Front

section Later

variable {source : Source} {count : Nat}

/-- Nothing is taken back from the log. -/
def Logs (s t : Pool.Progress) : Prop := s.log.toList <+: t.log.toList

theorem evolution_logs : Evolution Logs := ⟨fun _ => List.prefix_rfl, List.IsPrefix.trans⟩

theorem lift_logs {α : Type} (result : Except DecodingError α) :
    Always Logs (ofExcept result) := by
  intro s
  cases result <;> exact List.prefix_rfl

theorem note_logs (event : Event) : Always Logs (Pool.Reader.note event) := by
  intro s
  change s.log.toList <+: (s.log.push event).toList
  rw [Array.toList_push]
  exact List.prefix_append _ _

theorem onStore_logs (act : EStateM TableError (Store Tag) Unit) :
    Always Logs (Pool.Reader.onStore act) := by
  rintro ⟨offset, store, log⟩
  unfold stateAfter Pool.Reader.onStore
  cases run : act store <;> simp [Logs, run]

theorem check_logs {α : Type} (result : Except TableError α) :
    Always Logs (Reads.plain.check result) :=
  lift_logs _

theorem readCell_logs (source : Source) (column : Column Tag) :
    Always Logs (Pool.readCell source column) := by
  have law := evolution_logs
  refine .bind law law.refl fun _ => .bind law (lift_logs _) fun result => ?_
  exact .bind law law.refl fun _ => check_logs _

theorem readRow_logs (source : Source) (slot : Nat) (tag : Tag) :
    Always Logs (Pool.readRow source slot tag) := by
  have law := evolution_logs
  have found : Always Logs (Pool.Reader.table tag) := fun s => check_logs _ s
  refine .bind law found fun table => .bind law (.mapM law (readCell_logs source) _) fun cells => ?_
  exact .bind law (check_logs _) fun _ => .bind law (note_logs _) fun _ => onStore_logs _

theorem readEntry_logs (source : Source) (slot : Nat) :
    Always Logs (Pool.readEntry source slot) := by
  have law := evolution_logs
  refine .bind law law.refl fun offset => .bind law (lift_logs _) fun code => ?_
  cases Tag.ofCode? code with
  | none => exact law.refl
  | some tag =>
      refine .bind law law.refl fun _ => ?_
      exact .bind law (readRow_logs source slot tag) fun _ => .pure law tag

theorem readEntries_logs (source : Source) (slot left : Nat) :
    Always Logs (Pool.readEntries source slot left) := by
  have law := evolution_logs
  induction left using Nat.strongRecOn generalizing slot with
  | ind left ih =>
      cases left with
      | zero => exact law.refl
      | succ left =>
          rw [Pool.readEntries_succ]
          refine .bind law (readEntry_logs source slot) fun tag => ih _ ?_ _
          exact Nat.sub_lt left.succ_pos (width_pos tag)

end Later

/-- The entry of a string, by its payload. -/
def stringEntry (payload : List UInt8) : List UInt8 :=
  Tag.utf8.code :: (digits 2 payload.length ++ payload)

/-- The row of a string that is read off a payload. -/
def stringRow (slot : Nat) (payload : List UInt8) (s : String) : Row Tag :=
  ⟨.utf8, slot, [⟨⟨.utf8, 0, "bytes", .utf8String⟩, payload.length, 2 + payload.length, .text s⟩]⟩

/-- The payload in a slot was decoded: the row of the string was noted behind those
of the entries in front, and if all entries could be read, the slot has it. -/
structure Decodes (source : Source) (count start : Nat) (rows : List (Row Tag)) (slot : Nat)
    (payload : List UInt8) (s : String) : Prop where
  noted : ∃ later, (Pool.read source count start).log.toList =
    .constantsBegun start (count - 1) :: rows.map .constantRead ++
      .constantRead (stringRow slot payload s) :: later
  kept : ∀ pool, (Pool.read source count start).result = .ok pool →
    pool.get slot = .ok (stringRow slot payload s) ∧ pool.utf8 slot = .ok s

section Strings

variable {source : Source} {count start slot offset : Nat} {rows : List (Row Tag)}
  {payload : List UInt8}

theorem writtenRow_string (short : payload.length < 2 ^ 16) {s : String}
    (decoded : decode payload = some s) :
    WrittenRow (stringEntry payload) (stringRow slot payload s) := by
  refine ⟨digits 2 payload.length ++ payload, rfl, ?_⟩
  have text : Written (⟨.utf8, 0, "bytes", .utf8String⟩ : Column Tag)
      (digits 2 payload.length ++ payload) ⟨_, payload.length, 2 + payload.length, .text s⟩ :=
    .text rfl short decoded
  have cells := WrittenCells.cons text .nil
  rwa [List.append_nil] at cells

theorem valueAt_malformed (small : source.size < 2 ^ 32) (short : payload.length < 2 ^ 16)
    (malformed : decode payload = none)
    (holds : source.Holds offset (digits 2 payload.length ++ payload)) :
    Pool.valueAt source ⟨.utf8, 0, "bytes", .utf8String⟩ offset =
      .error (.invalidModifiedUtf8 (offset + 2)) := by
  have inside := holds.fits (.inr (by simp [digits]))
  rw [List.length_append, length_digits] at inside
  have len : (UInt16.ofNat payload.length).toNat = payload.length := UInt16.toNat_ofNat_of_lt' short
  obtain ⟨first, second⟩ := (readText_eq_ok small).mpr ⟨len, holds⟩
  have start : saturate (offset + 2) = offset + 2 := saturate_of_lt (by omega)
  refine Except.bind_eq_error.mpr (.inr ⟨_, first, ?_⟩)
  refine Except.bind_eq_error.mpr (.inr ⟨_, rfl, ?_⟩)
  refine Except.bind_eq_error.mpr (.inr ⟨_, second, ?_⟩)
  rw [malformed, start]
  rfl

/-- A string that is not decoded ends the read where its payload starts. -/
theorem readEntry_malformed (small : source.size < 2 ^ 32) (short : payload.length < 2 ^ 16)
    (malformed : decode payload = none) {s : Pool.Progress} (stocked : Stocked s.store)
    (holds : source.Holds s.offset (stringEntry payload)) :
    Pool.readEntry source slot s =
      .error (.invalidModifiedUtf8 (s.offset + 3)) ⟨s.offset + 1, s.store, s.log⟩ := by
  have whole : source.Holds s.offset ([Tag.utf8.code] ++ (digits 2 payload.length ++ payload)) :=
    holds
  obtain ⟨front, behind⟩ := Source.holds_append.mp whole
  rw [List.length_singleton] at behind
  have inside := front.fits (.inr (List.cons_ne_nil _ _))
  rw [List.length_singleton] at inside
  have value := valueAt_malformed small short malformed behind
  have place : saturate (s.offset + 1) = s.offset + 1 := saturate_of_lt (by omega)
  have row : Pool.readRow source slot .utf8 ⟨s.offset + 1, s.store, s.log⟩ =
      .error (.invalidModifiedUtf8 (s.offset + 3)) ⟨s.offset + 1, s.store, s.log⟩ := by
    have columns : Tag.utf8.columns = [⟨.utf8, 0, "bytes", .utf8String⟩] := rfl
    rw [Pool.readRow_eq (s := ⟨s.offset + 1, s.store, s.log⟩) stocked, columns, List.mapM_cons]
    refine bind_eq_error.mpr (.inl (bind_eq_error.mpr (.inl ?_)))
    refine bind_eq_error.mpr (.inr ⟨s.offset + 1, _, rfl, bind_eq_error.mpr (.inl ?_)⟩)
    exact ofExcept_eq_error.mpr ⟨value, rfl⟩
  refine bind_eq_error.mpr (.inr ⟨s.offset, s, rfl, bind_eq_error.mpr (.inr ⟨Tag.utf8.code, s,
    ofExcept_eq_ok.mpr ⟨Source.byte_eq_ok.mpr front, rfl⟩, ?_⟩)⟩)
  rw [Tag.ofCode?_eq_some.mpr rfl]
  refine bind_eq_error.mpr (.inr ⟨(), _, Pool.advance_eq_ok.mpr rfl,
    bind_eq_error.mpr (.inl ?_)⟩)
  rw [place]
  exact row

/-- The read of a pool is a run of the entries, with its log. -/
theorem read_log (source : Source) (count start : Nat) :
    (Pool.read source count start).log = (stateAfter (Pool.readEntries source 1 (count - 1))
      ⟨start, Pool.emptyStore, #[.constantsBegun start (count - 1)]⟩).log := by
  cases run : Pool.readEntries source 1 (count - 1)
      ⟨start, Pool.emptyStore, #[.constantsBegun start (count - 1)]⟩ with
  | ok u t => rw [Pool.read_of_ok run, stateAfter_of_ok run]
  | error e t => rw [Pool.read_of_error run, stateAfter_of_error run]

variable (small : source.size < 2 ^ 32) (reaches : Reaches source count start slot offset rows)
  (short : payload.length < 2 ^ 16) (holds : source.Holds offset (stringEntry payload))

include small reaches short holds

/-- A payload that can be decoded is kept, whatever stands behind it. -/
theorem decodes_of_decode {s : String} (decoded : decode payload = some s) :
    Decodes source count start rows slot payload s := by
  have inside := reaches.inside
  obtain ⟨p, ready, moved, noted, run⟩ := reaches.exists_progress small
  rw [← moved] at holds
  have written : WrittenRow (stringEntry payload) (stringRow slot payload s) :=
    writtenRow_string short decoded
  obtain ⟨store, ready', added, entry⟩ := readEntry_of_writtenRow small written ready holds
  let t : Pool.Progress := ⟨p.offset + (stringEntry payload).length, store,
    p.log.push (.constantRead (stringRow slot payload s))⟩
  have entry : Pool.readEntry source slot p = .ok Tag.utf8 t := entry
  rw [readEntries_at source inside, bind_of_ok entry] at run
  constructor
  · obtain ⟨later, grown⟩ := readEntries_logs source (slot + 1) (count - (slot + 1)) t
    refine ⟨later, ?_⟩
    change (p.log.push _).toList ++ later = _ at grown
    rw [Array.toList_push, noted, List.append_assoc] at grown
    rw [read_log, stateAfter, run]
    exact grown.symm
  · intro pool ok
    obtain ⟨last, run', -, rfl⟩ := Pool.exists_run_of_read ok
    rw [run] at run'
    obtain ⟨_, _, -, -, -, found⟩ := exists_rows_of_readEntries small ready'.toStocked run'
    have here : store.row slot = .ok (stringRow slot payload s) :=
      (Store.row_eq_ok_of_addRowAt added).mpr (.inr ⟨rfl, rfl⟩)
    have there := (found slot _).mpr (.inl here)
    refine ⟨there, ?_⟩
    have typed := ((Pool.slotted_of_read ok).entry .utf8 slot _).mpr ⟨there, rfl⟩
    rw [Pool.utf8, typed]
    rfl

/-- A payload that cannot be decoded ends the read, and its row is not noted. -/
theorem rejects_of_decode (malformed : decode payload = none) :
    (Pool.read source count start).result = .error (.invalidModifiedUtf8 (offset + 3)) ∧
      (Pool.read source count start).offset = offset + 1 ∧
      (Pool.read source count start).log.toList =
        .constantsBegun start (count - 1) :: rows.map .constantRead := by
  have inside := reaches.inside
  obtain ⟨p, ready, moved, noted, run⟩ := reaches.exists_progress small
  rw [← moved] at holds
  have entry : Pool.readEntry source slot p =
      .error (.invalidModifiedUtf8 (p.offset + 3)) ⟨p.offset + 1, p.store, p.log⟩ :=
    readEntry_malformed small short malformed ready.toStocked holds
  rw [readEntries_at source inside] at run
  have failed := run.trans (bind_eq_error.mpr (.inl entry))
  rw [Pool.read_of_error failed, ← moved]
  exact ⟨rfl, rfl, noted⟩

/-- What is kept of a payload is what the payload decodes to. -/
theorem Decodes.decode_eq {s : String} (decodes : Decodes source count start rows slot payload s) :
    decode payload = some s := by
  obtain ⟨later, noted⟩ := decodes.noted
  cases read : decode payload with
  | none =>
      obtain ⟨-, -, log⟩ := rejects_of_decode small reaches short holds read
      simp [log] at noted
  | some other =>
      obtain ⟨later', noted'⟩ := (decodes_of_decode small reaches short holds read).noted
      have same := List.append_cancel_left (noted'.symm.trans noted)
      simpa [stringRow] using (List.cons.inj same).1

/-- A payload becomes the string of its slot if it is in modified UTF-8 without
halves of surrogate pairs, or in standard UTF-8, and these are the two forms of the
string. The read of any other payload fails where it starts. -/
theorem read_string :
    ((∃ s, Decodes source count start rows slot payload s) ↔
        PairedForm payload ∨ IsStandard payload) ∧
      (∀ s, Decodes source count start rows slot payload s →
        (PairedForm payload → encode s = payload) ∧
          (IsStandard payload → encodeStandard s = payload)) ∧
      (¬(PairedForm payload ∨ IsStandard payload) →
        (Pool.read source count start).result = .error (.invalidModifiedUtf8 (offset + 3)) ∧
          (Pool.read source count start).offset = offset + 1) := by
  have decoded {s : String} (decodes : Decodes source count start rows slot payload s) :
      decode payload = some s := decodes.decode_eq small reaches short holds
  refine ⟨⟨fun ⟨s, decodes⟩ => exists_decode_iff.mp ⟨s, decoded decodes⟩, fun form => ?_⟩,
    fun s decodes => ⟨fun paired => paired.encode_eq (decoded decodes),
      fun standard => standard.encodeStandard_eq (decoded decodes)⟩, fun other => ?_⟩
  · obtain ⟨s, read⟩ := exists_decode_iff.mpr form
    exact ⟨s, decodes_of_decode small reaches short holds read⟩
  · obtain ⟨failed, stop, -⟩ := rejects_of_decode small reaches short holds
      (decode_eq_none_iff.mpr (not_or.mp other))
    exact ⟨failed, stop⟩

end Strings

/-- A class constant, and behind it a string with NUL in two bytes. -/
def nulString : Source := ⟨⟨#[7, 0, 2, 1, 0, 2, 0xC0, 0x80]⟩⟩

theorem reaches_nulString : Reaches nulString 3 0 2 3 [(Content.classInfo 2).row 1] where
  inside := by decide
  laid := .cons rfl .nil
  front := by
    refine ⟨[[7, 0, 2]], .cons ⟨[0, 2], rfl, .cons (.short 2 rfl) .nil⟩ .nil, ?_, rfl⟩
    simp [Source.Holds, nulString]

theorem read_string_nulString :
    ((∃ s, Decodes nulString 3 0 [(Content.classInfo 2).row 1] 2 [0xC0, 0x80] s) ↔
        PairedForm [0xC0, 0x80] ∨ IsStandard [0xC0, 0x80]) ∧
      (∀ s, Decodes nulString 3 0 [(Content.classInfo 2).row 1] 2 [0xC0, 0x80] s →
        (PairedForm [0xC0, 0x80] → encode s = [0xC0, 0x80]) ∧
          (IsStandard [0xC0, 0x80] → encodeStandard s = [0xC0, 0x80])) ∧
      (¬(PairedForm [0xC0, 0x80] ∨ IsStandard [0xC0, 0x80]) →
        (Pool.read nulString 3 0).result = .error (.invalidModifiedUtf8 6) ∧
          (Pool.read nulString 3 0).offset = 4) :=
  read_string (by decide) reaches_nulString (by decide) ⟨[], rfl⟩

theorem reaches_first (payload : List UInt8) :
    Reaches ⟨(stringEntry payload).toArray⟩ 2 0 1 0 [] :=
  ⟨by decide, .nil, [], .nil, List.nil_prefix, rfl⟩

theorem holds_stringEntry (payload : List UInt8) :
    Source.Holds ⟨(stringEntry payload).toArray⟩ 0 (stringEntry payload) := by
  simp [Source.Holds]

/-- A zero byte is no modified UTF-8, but it is read. Half of a surrogate pair is, but
it is not read. -/
theorem exists_read_string_otherwise :
    (¬WellFormed [0x00] ∧ ∃ s, Decodes ⟨(stringEntry [0x00]).toArray⟩ 2 0 [] 1 [0x00] s) ∧
      WellFormed [0xED, 0xA0, 0x80] ∧
        (Pool.read ⟨(stringEntry [0xED, 0xA0, 0x80]).toArray⟩ 2 0).result =
          .error (.invalidModifiedUtf8 3) := by
  have zero : decode [0x00] = some "\x00" := by decide
  have half : decode [0xED, 0xA0, 0x80] = none := by decide
  have illFormed : ¬WellFormed [0x00] := fun wellFormed =>
    (wellFormed.strict 0x00 List.mem_cons_self).1 rfl
  refine ⟨⟨illFormed, "\x00", ?_⟩, ⟨[0xD800], rfl⟩, ?_⟩
  · exact decodes_of_decode (by decide) (reaches_first _) (by decide) (holds_stringEntry _) zero
  · exact (rejects_of_decode (by decide) (reaches_first _) (by decide) (holds_stringEntry _) half).1

end ClassFormat.Constant
