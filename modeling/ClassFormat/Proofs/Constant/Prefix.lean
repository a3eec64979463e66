import ClassFormat.Proofs.Bytes.Twin
import ClassFormat.Proofs.Constant.Entries

/-!
# Constant pools of sources that begin alike

A pool that was read needs the bytes of its entries and no others. A pool that
was not read, for another reason than missing bytes, is not read from a longer
source either, and the reason is the same.
-/
namespace ClassFormat.Constant.Pool

variable {source source' : Source} {α β : Type}

/-- A run that succeeds with all tables there has moved over some bytes, and it
succeeds in the same way wherever these stand at the same offset. The tables are
there again. -/
def ReadsOnly (x : Source → Reader α) : Prop :=
  ∀ (source : Source) (s : Progress) (a : α) (t : Progress),
    source.size < 2 ^ 32 → Stocked s.store → x source s = .ok a t →
      ∃ bytes, source.Holds s.offset bytes ∧ t.offset = s.offset + bytes.length ∧
        Stocked t.store ∧
        ∀ source' : Source, source'.size < 2 ^ 32 → source'.Holds s.offset bytes →
          x source' s = .ok a t

namespace ReadsOnly

theorem pure (a : α) : ReadsOnly fun _ => Pure.pure a := by
  intro source s b t _ stocked run
  obtain ⟨rfl, rfl⟩ := pure_eq_ok.mp run
  exact ⟨[], List.nil_prefix, rfl, stocked, fun _ _ _ => rfl⟩

theorem bind {x : Source → Reader α} {f : α → Source → Reader β} (first : ReadsOnly x)
    (second : ∀ a, ReadsOnly (f a)) : ReadsOnly fun source => x source >>= (f · source) := by
  intro source s b t small stocked run
  obtain ⟨a, r, hx, hf⟩ := bind_eq_ok.mp run
  obtain ⟨bytes, holds, offset, stocked, again⟩ := first source s a r small stocked hx
  obtain ⟨behind, holds', offset', stocked, again'⟩ := second a source r b t small stocked hf
  rw [offset] at holds' offset' again'
  refine ⟨bytes ++ behind, Source.holds_append.mpr ⟨holds, holds'⟩, ?_, stocked, ?_⟩
  · rw [offset', List.length_append, Nat.add_assoc]
  · intro source' small' both
    obtain ⟨here, there⟩ := Source.holds_append.mp both
    exact bind_eq_ok.mpr ⟨a, r, again source' small' here, again' source' small' there⟩

theorem readEntry (slot : Nat) : ReadsOnly fun source => Pool.readEntry source slot := by
  intro source s tag t small stocked run
  obtain ⟨bytes, cells, written, holds, offset, log, added⟩ :=
    (readEntry_eq_ok small stocked).mp run
  refine ⟨tag.code :: bytes, holds, offset, stocked.of_addRowAt added, ?_⟩
  intro source' small' holds'
  exact (readEntry_eq_ok small' stocked).mpr ⟨bytes, cells, written, holds', offset, log, added⟩

theorem readEntries (slot left : Nat) :
    ReadsOnly fun source => Pool.readEntries source slot left := by
  induction left using Nat.strongRecOn generalizing slot with
  | ind left ih =>
      cases left with
      | zero => exact pure ()
      | succ left =>
          simp only [readEntries_succ]
          refine bind (readEntry slot) fun tag => ih _ ?_ _
          exact Nat.sub_lt left.succ_pos (width_pos tag)

end ReadsOnly

/-- A pool that was read holds what its entries left. -/
theorem exists_run_of_read {count offset : Nat} {pool : Pool}
    (ok : (read source count offset).result = .ok pool) :
    ∃ t, readEntries source 1 (count - 1)
        ⟨offset, emptyStore, #[.constantsBegun offset (count - 1)]⟩ = .ok () t ∧
      (read source count offset).offset = t.offset ∧
      pool = ⟨t.store, offset, t.offset - offset, count⟩ := by
  cases run : readEntries source 1 (count - 1)
      ⟨offset, emptyStore, #[.constantsBegun offset (count - 1)]⟩ with
  | error e t =>
      rw [read_of_error run] at ok
      cases ok
  | ok u t =>
      rw [read_of_ok run] at ok ⊢
      cases ok
      exact ⟨t, rfl, rfl, rfl⟩

/-- The bytes of a pool are those that were moved over to read it. -/
theorem data_of_read {count offset : Nat} {pool : Pool}
    (ok : (read source count offset).result = .ok pool) :
    pool.data source = source.slice offset ((read source count offset).offset - offset) := by
  obtain ⟨t, -, moved, rfl⟩ := exists_run_of_read ok
  rw [moved]
  rfl

/-- Reading a pool depends on the bytes of its entries alone. -/
theorem read_readsOnly (small : source.size < 2 ^ 32) {count offset : Nat} {pool : Pool}
    (ok : (read source count offset).result = .ok pool) :
    ∃ bytes, source.Holds offset bytes ∧
      (read source count offset).offset = offset + bytes.length ∧
      ∀ source' : Source, source'.size < 2 ^ 32 → source'.Holds offset bytes →
        read source' count offset = read source count offset := by
  obtain ⟨t, run, -⟩ := exists_run_of_read ok
  obtain ⟨bytes, holds, moved, -, again⟩ :=
    ReadsOnly.readEntries 1 (count - 1) source _ () t small stocked_emptyStore run
  rw [read_of_ok run]
  exact ⟨bytes, holds, moved, fun source' small' h => read_of_ok (again source' small' h)⟩

theorem valueAt_agrees (h : source.Begins source') (column : Column Tag) (offset : Nat) :
    Agrees Eq (valueAt source column offset) (valueAt source' column offset) := by
  unfold valueAt Decode.valueAt
  cases column.type with
  | byte => exact .bind (h.byte offset) fun _ => .refl _
  | uint16 => exact .bind (h.short offset) fun _ => .refl _
  | uint32 => exact .bind (h.word offset) fun _ => .refl _
  | utf8String =>
      exact .bind (h.short offset) fun length => .bind (.refl _) fun start =>
        .bind (h.slice start length.toNat) fun _ => .refl _
  | _ => exact .refl _

theorem readRow_follows (h : source.Begins source') (slot : Nat) (tag : Tag) :
    Follows Eq Eq (readRow source slot tag) (readRow source' slot tag) := by
  refine .bind (.refl _) fun table => .bind (.mapM (fun column => ?_) table.columns) fun _ => .refl _
  exact .bind (.refl _) fun offset =>
    .bind (.ofExcept (valueAt_agrees h column offset)) fun _ => .refl _

theorem readEntry_follows (h : source.Begins source') (slot : Nat) :
    Follows Eq Eq (readEntry source slot) (readEntry source' slot) := by
  refine .bind (.refl _) fun offset => .bind (.ofExcept (h.byte offset)) fun code => ?_
  cases Tag.ofCode? code with
  | none => exact .throw Eq _
  | some tag =>
      exact .bind (.refl _) fun _ => .bind (readRow_follows h slot tag) fun _ => .refl _

theorem readEntries_follows (h : source.Begins source') (slot left : Nat) :
    Follows Eq Eq (readEntries source slot left) (readEntries source' slot left) := by
  induction left using Nat.strongRecOn generalizing slot with
  | ind left ih =>
      cases left with
      | zero => exact .refl _
      | succ left =>
          rw [readEntries_succ, readEntries_succ]
          refine .bind (readEntry_follows h slot) fun tag => ih _ ?_ _
          exact Nat.sub_lt left.succ_pos (width_pos tag)

theorem read_error (h : source.Begins source') {count offset : Nat} {e : DecodingError}
    (failed : (read source count offset).result = .error e) (long : e.isShort = false) :
    (read source' count offset).result = .error e := by
  have follows := readEntries_follows h 1 (count - 1)
  cases run : readEntries source 1 (count - 1)
      ⟨offset, emptyStore, #[.constantsBegun offset (count - 1)]⟩ with
  | ok u t =>
      rw [read_of_ok run] at failed
      cases failed
  | error e' t =>
      rw [read_of_error run] at failed
      cases failed
      obtain ⟨t', run'⟩ := follows.error rfl run long
      rw [read_of_error run']

end ClassFormat.Constant.Pool
