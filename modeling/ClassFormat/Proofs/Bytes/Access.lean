import ClassFormat.Proofs.Bytes.Sequence
import ClassFormat.Proofs.Bytes.Source

/-!
# Absolute and sequential access

A source is read by offset, or from an offset on with a cursor. The first way finds
every byte. The second one takes the source for one that is cut to its length modulo
`2^32`, so both agree for all sources that offsets can address, and for no others.
-/
namespace ClassFormat

open BigEndian

/-- Bytes can be taken from a window if they are the next ones. -/
theorem Window.exists_take_iff {w : Window} {n : Nat} {bytes : List UInt8} :
    (∃ w', take n w = .ok (bytes, w')) ↔ bytes.length = n ∧ bytes <+: w.rest := by
  simp only [take_eq_ok]
  constructor
  · rintro ⟨w', length, consumes⟩
    exact ⟨length, consumes.front⟩
  · rintro ⟨length, tail, front⟩
    obtain ⟨w', consumes, -⟩ := exists_consumes front.symm
    exact ⟨w', length, consumes⟩

namespace Source

variable {source : Source} {offset n : Nat} {bytes : List UInt8}

/-- The bytes of a range, if all of it is there. -/
theorem slice_eq_ok_iff_take :
    source.slice offset n = .ok bytes ↔
      offset + n ≤ source.size ∧ bytes = (source.bytes.toList.drop offset).take n := by
  rw [slice_eq_ok]
  constructor
  · rintro ⟨rfl, inside, holds⟩
    exact ⟨inside, List.prefix_iff_eq_take.mp holds⟩
  · rintro ⟨inside, rfl⟩
    refine ⟨?_, inside, List.take_prefix n _⟩
    rw [List.length_take, List.length_drop, length_bytes]
    omega

/-- A number is the value of the bytes of its range. -/
theorem number_eq_map (source : Source) (width offset : Nat) :
    source.number width offset = (source.slice offset width).map value := by
  unfold number slice
  cases opened : source.window offset width with
  | error e => rfl
  | ok w =>
      have length := (window_eq_ok opened).1
      obtain ⟨w', consumes, -⟩ := Window.exists_consumes (List.append_nil w.rest).symm
      have run := Window.number_eq_value.mpr ⟨w.rest, length, consumes, rfl⟩
      change (do return (← Window.number width w).1 : Except DecodingError Nat) = .ok (value w.rest)
      rw [run]
      rfl

theorem map_ofNat_eq {α : Type} (ofNat : Nat → α) (toNat : α → Nat) (width : Nat)
    (whole : ∀ m, m < 256 ^ width → toNat (ofNat m) = m) (source : Source) (offset : Nat) :
    (do return ofNat (← source.number width offset) : Except DecodingError α).map toNat =
      (source.slice offset width).map value := by
  rw [number_eq_map]
  cases found : source.slice offset width with
  | error e => rfl
  | ok bytes =>
      have bound := value_lt bytes
      rw [(slice_eq_ok.mp found).1] at bound
      exact congrArg Except.ok (whole _ bound)

theorem byte_eq_map (source : Source) (offset : Nat) :
    (source.byte offset).map UInt8.toNat = (source.slice offset 1).map value :=
  map_ofNat_eq UInt8.ofNat UInt8.toNat 1 (fun _ => UInt8.toNat_ofNat_of_lt') source offset

theorem short_eq_map (source : Source) (offset : Nat) :
    (source.short offset).map UInt16.toNat = (source.slice offset 2).map value :=
  map_ofNat_eq UInt16.ofNat UInt16.toNat 2 (fun _ => UInt16.toNat_ofNat_of_lt') source offset

theorem word_eq_map (source : Source) (offset : Nat) :
    (source.word offset).map UInt32.toNat = (source.slice offset 4).map value :=
  map_ofNat_eq UInt32.ofNat UInt32.toNat 4 (fun _ => UInt32.toNat_ofNat_of_lt') source offset

/-- The source with its first `n` bytes only. -/
def cut (source : Source) (n : Nat) : Source := ⟨source.content.extract 0 n⟩

theorem toList_cut (source : Source) (n : Nat) :
    (source.cut n).bytes.toList = source.bytes.toList.take n := by
  rw [cut, bytes, data_extract, Array.toList_extract, List.extract_eq_take_drop]
  simp

theorem size_cut (source : Source) (n : Nat) : (source.cut n).size = min n source.size := by
  rw [← length_bytes, toList_cut, List.length_take, length_bytes]

theorem cut_size (source : Source) : source.cut source.size = source := by
  rw [cut, size, ByteArray.extract_zero_size]

/-- What a cursor finds in the source from the offset on is what reads by offset find
in the other one. -/
structure Sequential (source other : Source) (offset : Nat) : Prop where
  opens : (∃ w, source.windowFrom offset = .ok w) ↔ offset ≤ other.size
  rest : ∀ w, source.windowFrom offset = .ok w →
    ∃ w', Window.takeRest w = .ok (other.bytes.toList.drop offset, w')
  take : ∀ w, source.windowFrom offset = .ok w → ∀ n bytes,
    (∃ w', Window.take n w = .ok (bytes, w')) ↔ other.slice offset n = .ok bytes

/-- The length of the source, counted with four bytes. -/
def countedSize (source : Source) : Nat := source.size % 2 ^ 32

theorem countedSize_le (source : Source) : source.countedSize ≤ source.size := Nat.mod_le _ _

theorem countedSize_of_lt (small : source.size < 2 ^ 32) : source.countedSize = source.size :=
  Nat.mod_eq_of_lt small

theorem windowFrom_of_le (inside : offset ≤ source.countedSize) :
    source.windowFrom offset = source.window offset (source.countedSize - offset) :=
  if_pos inside

theorem windowFrom_of_lt (outside : source.countedSize < offset) :
    source.windowFrom offset = .error (.outOfBounds offset 0 source.size) :=
  if_neg (Nat.not_le.mpr outside)

/-- All lengths at once; for those below `2^32` see `rest_of_windowFrom`. -/
theorem rest_of_counted {w : Window} (run : source.windowFrom offset = .ok w) :
    offset ≤ source.countedSize ∧
      w.rest = (source.cut source.countedSize).bytes.toList.drop offset := by
  rcases Nat.lt_or_ge source.countedSize offset with outside | inside
  · rw [windowFrom_of_lt outside] at run
    cases run
  · rw [windowFrom_of_le inside] at run
    obtain ⟨length, -, holds, -⟩ := window_eq_ok run
    refine ⟨inside, ?_⟩
    rw [toList_cut, List.drop_take, ← length]
    exact List.prefix_iff_eq_take.mp holds

theorem exists_windowFrom_iff :
    (∃ w, source.windowFrom offset = .ok w) ↔ offset ≤ source.countedSize := by
  constructor
  · rintro ⟨w, run⟩
    exact (rest_of_counted run).1
  · intro inside
    have fits : offset + (source.countedSize - offset) ≤ source.size := by
      have := source.countedSize_le
      omega
    rw [windowFrom_of_le inside, window, dif_pos fits]
    exact ⟨_, rfl⟩

theorem sequential_cut (source : Source) (offset : Nat) :
    source.Sequential (source.cut source.countedSize) offset := by
  have size : (source.cut source.countedSize).size = source.countedSize := by
    rw [size_cut, Nat.min_eq_left source.countedSize_le]
  constructor
  · rw [size]
    exact exists_windowFrom_iff
  · intro w run
    rw [← (rest_of_counted run).2]
    exact ⟨_, rfl⟩
  · intro w run n bytes
    obtain ⟨inside, rest⟩ := rest_of_counted run
    rw [Window.exists_take_iff, rest, slice_eq_ok]
    refine and_congr_right fun length => ⟨fun front => ⟨?_, front⟩, And.right⟩
    rw [← length]
    exact Holds.fits front (.inl (inside.trans_eq size.symm))

/-- The cursor finds all of the source if four bytes can count it. -/
theorem sequential_iff (addressed : offset < 2 ^ 32) :
    source.Sequential source offset ↔ source.size < 2 ^ 32 := by
  constructor
  · intro whole
    by_contra large
    obtain ⟨w, run⟩ := whole.opens.mpr (by omega)
    obtain ⟨w', all⟩ := whole.rest w run
    obtain ⟨inside, counted⟩ := rest_of_counted run
    have same : w.rest = source.bytes.toList.drop offset := congrArg Prod.fst (Except.ok.inj all)
    have lengths := congrArg List.length (counted.symm.trans same)
    rw [List.length_drop, List.length_drop, length_bytes, length_bytes, size_cut] at lengths
    have bound : source.countedSize < 2 ^ 32 := Nat.mod_lt _ (by decide)
    omega
  · intro small
    have whole := source.sequential_cut offset
    rwa [countedSize_of_lt small, cut_size] at whole

/-- Reads by offset find every byte. A cursor finds those of the source that is cut to
its length modulo `2^32`, and so all of them in a source of less than `2^32` bytes only. -/
theorem access (source : Source) (offset : UInt32) :
    (∀ n bytes, source.slice offset.toNat n = .ok bytes ↔
      offset.toNat + n ≤ source.size ∧
        bytes = (source.bytes.toList.drop offset.toNat).take n) ∧
    (source.byte offset.toNat).map UInt8.toNat = (source.slice offset.toNat 1).map value ∧
    (source.short offset.toNat).map UInt16.toNat = (source.slice offset.toNat 2).map value ∧
    (source.word offset.toNat).map UInt32.toNat = (source.slice offset.toNat 4).map value ∧
    source.Sequential (source.cut source.countedSize) offset.toNat ∧
    (source.Sequential source offset.toNat ↔ source.size < 2 ^ 32) :=
  ⟨fun _ _ => slice_eq_ok_iff_take, source.byte_eq_map _, source.short_eq_map _,
    source.word_eq_map _, source.sequential_cut _, sequential_iff offset.toNat_lt⟩

/-- So many bytes that are all zero. -/
def zeros (n : Nat) : Source := ⟨⟨Array.replicate n 0⟩⟩

theorem size_zeros (n : Nat) : (zeros n).size = n := Array.size_replicate

/-- There are `2^32` bytes, and no cursor can stand behind the first one. -/
theorem zeros_not_sequential :
    1 ≤ (zeros (2 ^ 32)).size ∧
      (zeros (2 ^ 32)).windowFrom 1 = .error (.outOfBounds 1 0 (2 ^ 32)) ∧
      ¬ (zeros (2 ^ 32)).Sequential (zeros (2 ^ 32)) 1 := by
  have size := size_zeros (2 ^ 32)
  have counted : (zeros (2 ^ 32)).countedSize < 1 := by
    rw [countedSize, size]
    decide
  refine ⟨?_, ?_, ?_⟩
  · rw [size]
    decide
  · rw [windowFrom_of_lt counted, size]
  · rw [sequential_iff (by decide), size]
    decide

end Source

end ClassFormat
