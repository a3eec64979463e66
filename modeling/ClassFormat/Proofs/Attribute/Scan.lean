import ClassFormat.Proofs.Attribute.Codec
import ClassFormat.Proofs.Bytes.Source

/-!
# Attribute lists at absolute offsets

The law of `ClassFormat.Proofs.Attribute.Codec` for the lists that stand in the
source itself: reading `count` attributes at an offset succeeds exactly when the
written form of `count` trees stands there. Sources have less than `2^32` bytes,
so that no offset saturates.
-/
namespace ClassFormat.Attribute

open BigEndian

namespace ScanReader

variable {α : Type} {s t : Scan} {a : α} {e : DecodingError}

theorem currentOffset_eq_ok {n : Nat} :
    (currentOffset : ScanReader Nat) s = .ok n t ↔ n = s.offset ∧ s = t := by
  change EStateM.Result.ok s.offset s = .ok n t ↔ _
  rw [EStateM.Result.ok.injEq, eq_comm]

theorem advance_eq_ok {source : Source} {n : Nat} {u : Unit} :
    advance .plain source n s = .ok u t ↔ t = ⟨s.pool, saturate (s.offset + n)⟩ := by
  change EStateM.Result.ok () { s with offset := saturate (s.offset + n) } = .ok u t ↔ _
  rw [EStateM.Result.ok.injEq, eq_self, true_and, eq_comm]

theorem onPool_eq_ok {act : EStateM DecodingError Pool α} :
    onPool act s = .ok a t ↔ act s.pool = .ok a t.pool ∧ t.offset = s.offset := by
  obtain ⟨pool, offset⟩ := s
  obtain ⟨pool', offset'⟩ := t
  unfold onPool
  constructor
  · intro h
    dsimp only at h
    split at h
    next run =>
      cases h
      exact ⟨run, rfl⟩
    next => cases h
  · intro h
    obtain ⟨run, rfl⟩ := h
    dsimp only at run ⊢
    rw [run]

theorem onPool_eq_error {act : EStateM DecodingError Pool α} :
    onPool act s = .error e t ↔ act s.pool = .error e t.pool ∧ t.offset = s.offset := by
  obtain ⟨pool, offset⟩ := s
  obtain ⟨pool', offset'⟩ := t
  unfold onPool
  dsimp only
  cases act pool with
  | error e' r =>
      simp only [EStateM.Result.error.injEq, Scan.mk.injEq, and_assoc, eq_comm (a := offset)]
  | ok a r =>
      constructor
      · intro h
        cases h
      · intro h
        cases h.1

end ScanReader

theorem length_encode (tree : Tree) : tree.encode.length = Header.size + tree.payload.length := by
  rw [Tree.encode, List.length_append, length_header]

section Lists

variable {source : Source} {constants : Constant.Pool} {s t : Scan}

theorem readHeader_eq_ok {offset : Nat} {header : Header} :
    (∃ window rest, source.window offset Header.size = .ok window ∧
        Header.read window = .ok (header, rest)) ↔
      source.Holds offset (digits 2 header.nameIndex.toNat ++ digits 4 header.length.toNat) := by
  have len := length_header header.nameIndex header.length.toNat
  constructor
  · intro h
    obtain ⟨window, rest, opened, run⟩ := h
    obtain ⟨-, -, front, -⟩ := Source.window_eq_ok opened
    exact (Header.read_eq_ok.mp run).front.trans front
  · intro h
    have some : digits 2 header.nameIndex.toNat ++ digits 4 header.length.toNat ≠ [] := by
      intro none
      rw [none] at len
      cases len
    obtain ⟨window, opened, whole, -⟩ := Source.exists_window h (h.fits (.inr some))
    obtain ⟨rest, consumes, -⟩ := Window.exists_consumes (whole.trans (List.append_nil _).symm)
    exact ⟨window, rest, len ▸ opened, Header.read_eq_ok.mpr consumes⟩

theorem readAttribute_eq (source : Source) (constants : Constant.Pool) :
    readAttribute source constants = (do
      let window ← ofExcept (source.window (← ScanReader.currentOffset) Header.size)
      let (header, _) ← ofExcept (Header.read window)
      ScanReader.advance .plain source Header.size
      let payload ← ofExcept (source.window (← ScanReader.currentOffset) header.length.toNat)
      ScanReader.advance .plain source header.length.toNat
      ScanReader.onPool (readPayload constants (nestedList constants maxNesting) header payload)) :=
  rfl

/-- What an attribute at an offset is read off: its header, and behind it a
window with its payload. -/
theorem readAttribute_run (small : source.size < 2 ^ 32) {reference : Reference String} :
    readAttribute source constants s = .ok reference t ↔
      ∃ header payload,
        source.Holds s.offset
          (digits 2 header.nameIndex.toNat ++ digits 4 header.length.toNat) ∧
        source.window (s.offset + Header.size) header.length.toNat = .ok payload ∧
        readPayload constants (nestedList constants maxNesting) header payload s.pool =
          .ok reference t.pool ∧
        t.offset = s.offset + Header.size + header.length.toNat := by
  rw [readAttribute_eq]
  simp only [bind_eq_ok, ScanReader.currentOffset_eq_ok, ofExcept_eq_ok,
    ScanReader.advance_eq_ok, ScanReader.onPool_eq_ok]
  constructor
  · intro h
    obtain ⟨_, _, ⟨rfl, rfl⟩, window, _, ⟨opened, rfl⟩, ⟨header, rest⟩, _, ⟨run, rfl⟩,
      _, _, rfl, _, _, ⟨rfl, rfl⟩, payload, _, ⟨found, rfl⟩, _, _, rfl, planted, moved⟩ := h
    obtain ⟨-, inside, -⟩ := Source.window_eq_ok opened
    dsimp only at found planted moved
    rw [saturate_of_lt (by omega)] at found
    obtain ⟨-, fits, -⟩ := Source.window_eq_ok found
    rw [saturate_saturate_add, saturate_of_lt (by omega)] at moved
    exact ⟨header, payload, readHeader_eq_ok.mp ⟨window, rest, opened, run⟩, found, planted, moved⟩
  · intro h
    obtain ⟨header, payload, holds, found, planted, moved⟩ := h
    obtain ⟨window, rest, opened, run⟩ := readHeader_eq_ok.mpr holds
    obtain ⟨-, fits, -⟩ := Source.window_eq_ok found
    refine ⟨_, s, ⟨rfl, rfl⟩, window, s, ⟨opened, rfl⟩, (header, rest), s, ⟨run, rfl⟩,
      (), _, rfl, _, _, ⟨rfl, rfl⟩, payload, _, ⟨?_, rfl⟩, (), _, rfl, planted, ?_⟩
    · dsimp only
      rwa [saturate_of_lt (by omega)]
    · dsimp only
      rw [moved, saturate_saturate_add, saturate_of_lt (by omega)]

theorem readAttribute_eq_ok (small : source.size < 2 ^ 32) {reference : Reference String} :
    readAttribute source constants s = .ok reference t ↔
      ∃ tree : Tree, tree.Fits (Named constants) ∧ tree.depth ≤ maxNesting ∧
        source.Holds s.offset tree.encode ∧ t.offset = s.offset + tree.encode.length ∧
        tree.plant (saturate (s.offset + Header.size)) s.pool = .ok reference t.pool := by
  have law := nestedList_readsTrees constants maxNesting
  rw [readAttribute_run small]
  constructor
  · intro h
    obtain ⟨header, payload, holds, found, run, moved⟩ := h
    obtain ⟨len, fits, behind, base, -⟩ := Source.window_eq_ok found
    obtain ⟨tree, name, fit, depth, whole, planted⟩ :=
      (readPayload_eq_ok law (len ▸ header.length.toNat_lt)).mp run
    rw [base] at planted
    refine ⟨tree, fit, depth, ?_, ?_, planted⟩
    · rw [Tree.encode, name, ← whole, len, Source.holds_append, length_header]
      exact ⟨holds, behind⟩
    · rw [moved, length_encode, ← whole, len, Nat.add_assoc]
  · intro h
    obtain ⟨⟨index, name, fields, unread⟩, fit, depth, holds, moved, planted⟩ := h
    have bound := fit.2.2.1
    have len : (UInt32.ofNat (encodeFields fields ++ unread).length).toNat =
      (encodeFields fields ++ unread).length := UInt32.toNat_ofNat_of_lt' bound
    rw [length_encode] at moved
    have fits := holds.fits (.inr (by simp [Tree.encode, digits]))
    rw [length_encode] at fits
    rw [Tree.encode, Source.holds_append, length_header] at holds
    obtain ⟨payload, found, whole, base, -⟩ :=
      Source.exists_window holds.2 (by rw [Nat.add_assoc]; exact fits)
    refine ⟨⟨index, UInt32.ofNat (encodeFields fields ++ unread).length⟩, payload, ?_, ?_, ?_, ?_⟩
    · rw [len]
      exact holds.1
    · rw [len]
      exact found
    · refine (readPayload_eq_ok law (whole ▸ bound)).mpr ⟨_, rfl, fit, depth, whole, ?_⟩
      rwa [base]
    · rw [len, moved, Nat.add_assoc]
      rfl

/-- The law of attribute lists: they are read off trees whose written forms
stand at the offset, and which are then planted. -/
theorem readAttributes_eq_ok (small : source.size < 2 ^ 32) {count : Nat}
    {references : List (Reference String)} :
    readAttributes source constants count s = .ok references t ↔
      ∃ trees : List Tree, trees.length = count ∧ TreesFit (Named constants) trees ∧
        treesDepth trees ≤ maxNesting ∧ source.Holds s.offset (encodeTrees trees) ∧
        t.offset = s.offset + (encodeTrees trees).length ∧
        plantTrees s.offset trees s.pool = .ok references t.pool := by
  change collect count (readAttribute source constants) s = _ ↔ _
  induction count generalizing s references with
  | zero =>
      rw [collect_zero_eq_ok]
      constructor
      · intro h
        obtain ⟨rfl, rfl⟩ := h
        exact ⟨[], rfl, trivial, Nat.zero_le _, List.nil_prefix, rfl, rfl⟩
      · intro h
        obtain ⟨trees, len, -, -, -, moved, planted⟩ := h
        cases List.length_eq_zero_iff.mp len
        obtain ⟨rfl, pools⟩ := pure_eq_ok.mp planted
        refine ⟨rfl, ?_⟩
        obtain ⟨_, _⟩ := s
        obtain ⟨_, _⟩ := t
        dsimp only at pools moved
        rw [pools, moved]
        rfl
  | succ count ih =>
      rw [collect_succ_eq_ok]
      constructor
      · intro h
        obtain ⟨reference, r, rest, first, others, rfl⟩ := h
        obtain ⟨tree, fit, depth, holds, moved, planted⟩ := (readAttribute_eq_ok small).mp first
        obtain ⟨trees, len, fits, depths, holds', moved', planted'⟩ := ih.mp others
        have inside := holds.fits (.inr (by simp [Tree.encode, digits]))
        rw [moved] at holds' moved' planted'
        refine ⟨tree :: trees, by rw [List.length_cons, len], ⟨fit, fits⟩,
          Nat.max_le.mpr ⟨depth, depths⟩, ?_, ?_, ?_⟩
        · exact Source.holds_append.mpr ⟨holds, holds'⟩
        · rw [moved', encodeTrees_cons, List.length_append, Nat.add_assoc]
        · refine bind_eq_ok.mpr ⟨reference, r.pool, planted, ?_⟩
          rw [saturate_of_lt (by omega)]
          exact bind_eq_ok.mpr ⟨rest, t.pool, planted', rfl⟩
      · intro h
        obtain ⟨trees, len, fits, depths, holds, moved, planted⟩ := h
        cases trees with
        | nil => cases len
        | cons tree trees =>
            obtain ⟨depth, depths⟩ := Nat.max_le.mp depths
            rw [encodeTrees_cons] at holds moved
            obtain ⟨holds, holds'⟩ := Source.holds_append.mp holds
            have inside := holds.fits (.inr (by simp [Tree.encode, digits]))
            obtain ⟨reference, pool, first, planted⟩ := bind_eq_ok.mp planted
            rw [saturate_of_lt (show s.offset + tree.encode.length < 2 ^ 32 by omega)] at planted
            obtain ⟨rest, _, others, done⟩ := bind_eq_ok.mp planted
            obtain ⟨rfl, rfl⟩ := pure_eq_ok.mp done
            refine ⟨reference, ⟨pool, s.offset + tree.encode.length⟩, rest, ?_, ?_, rfl⟩
            · exact (readAttribute_eq_ok small).mpr ⟨tree, fits.1, depth, holds, rfl, first⟩
            · refine ih.mpr ⟨trees, Nat.succ.inj len, fits.2, depths, holds', ?_, others⟩
              rw [moved, List.length_append, Nat.add_assoc]

end Lists

end ClassFormat.Attribute
