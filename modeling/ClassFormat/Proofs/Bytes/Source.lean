import ClassFormat.Proofs.Bytes.Window

/-!
# What the reads of a source find

`source.Holds offset bytes` says that `bytes` stand in the source from `offset`
on. Every read by absolute offset succeeds exactly when the written form of its
result stands there.
-/
namespace ClassFormat

open BigEndian

namespace Source

def Holds (source : Source) (offset : Nat) (bytes : List UInt8) : Prop :=
  bytes <+: source.bytes.toList.drop offset

variable {source : Source} {offset n : Nat} {bytes first second : List UInt8}

theorem length_bytes (source : Source) : source.bytes.toList.length = source.size :=
  Array.length_toList

theorem holds_append :
    source.Holds offset (first ++ second) ↔
      source.Holds offset first ∧ source.Holds (offset + first.length) second := by
  unfold Holds
  constructor
  · intro h
    obtain ⟨rest, h⟩ := h
    refine ⟨⟨second ++ rest, by rw [← h, List.append_assoc]⟩, ⟨rest, ?_⟩⟩
    rw [← List.drop_drop, ← h, List.append_assoc, List.drop_left]
  · intro h
    obtain ⟨⟨rest, h⟩, ⟨rest', h'⟩⟩ := h
    rw [← List.drop_drop, ← h, List.drop_left] at h'
    exact ⟨rest', by rw [← h, ← h', List.append_assoc]⟩

/-- Only nothing at all stands behind the end. -/
theorem Holds.fits (h : source.Holds offset bytes) (inside : offset ≤ source.size ∨ bytes ≠ []) :
    offset + bytes.length ≤ source.size := by
  have len := List.IsPrefix.length_le h
  rw [List.length_drop, length_bytes] at len
  rcases inside with inside | some
  · omega
  · have := List.length_pos_iff.mpr some
    omega

theorem holds_of_eq {before after : List UInt8}
    (h : source.bytes.toList = before ++ bytes ++ after) :
    source.Holds before.length bytes := by
  unfold Holds
  rw [h, List.append_assoc, List.drop_left]
  exact List.prefix_append bytes after

/-- The sources differ in so many bytes from an offset on, at most. -/
structure SameAround (source other : Source) (start length : Nat) : Prop where
  size : other.size = source.size
  around : ∀ i, i < start ∨ start + length ≤ i → other.bytes[i]? = source.bytes[i]?

/-- Bytes that stand in one source stand in another one that agrees with it
there. -/
theorem Holds.of_same {other : Source} (h : source.Holds offset bytes)
    (same : ∀ i, offset ≤ i → i < offset + bytes.length → other.bytes[i]? = source.bytes[i]?) :
    other.Holds offset bytes := by
  unfold Holds at h ⊢
  rw [List.prefix_iff_getElem?] at h ⊢
  intro i bound
  have here := same (offset + i) (Nat.le_add_right _ _) (Nat.add_lt_add_left bound _)
  have found := h i bound
  simp only [List.getElem?_drop, Array.getElem?_toList] at found ⊢
  rw [here, found]

theorem eq_take_of_holds (h : source.Holds offset bytes) :
    bytes = (source.content.extract offset (offset + bytes.length)).data.toList := by
  rw [data_extract, Array.toList_extract, List.extract_eq_take_drop, Nat.add_sub_cancel_left]
  exact List.prefix_iff_eq_take.mp h

theorem holds_extract (source : Source) (offset n : Nat) :
    source.Holds offset (source.content.extract offset (offset + n)).data.toList := by
  unfold Holds
  rw [data_extract, Array.toList_extract, List.extract_eq_take_drop, Nat.add_sub_cancel_left]
  exact List.take_prefix n _

theorem window_eq_ok {w : Window} (run : source.window offset n = .ok w) :
    w.rest.length = n ∧ offset + n ≤ source.size ∧ source.Holds offset w.rest ∧
      w.offset = saturate offset ∧ w.position = 0 := by
  unfold window at run
  split at run
  next h =>
    cases run
    refine ⟨?_, h, holds_extract source offset n, ?_, Nat.sub_self offset⟩
    · rw [Window.length_rest]
      exact Nat.add_sub_cancel_left offset n
    · rw [Window.offset, Window.position, Nat.sub_self, Nat.add_zero]
  next => cases run

theorem exists_window (h : source.Holds offset bytes) (fits : offset + bytes.length ≤ source.size) :
    ∃ w, source.window offset bytes.length = .ok w ∧ w.rest = bytes ∧
      w.offset = saturate offset ∧ w.position = 0 := by
  unfold window
  rw [dif_pos fits]
  refine ⟨_, rfl, (eq_take_of_holds h).symm, ?_, Nat.sub_self offset⟩
  rw [Window.offset, Window.position, Nat.sub_self, Nat.add_zero]

theorem window_eq_error {e : DecodingError} :
    source.window offset n = .error e ↔
      source.size < offset + n ∧ e = .outOfBounds offset n source.size := by
  unfold window
  split
  next inside => simp [inside]
  next outside => simp [Nat.lt_of_not_le outside, eq_comm]

/-- In a source of less than `2^32` bytes the window up to the end holds all
bytes. -/
theorem windowFrom_eq_ok (small : source.size < 2 ^ 32) {w : Window} :
    source.windowFrom offset = .ok w ↔
      offset ≤ source.size ∧ source.window offset (source.size - offset) = .ok w := by
  have whole : source.size % (maxOffset + 1) = source.size := Nat.mod_eq_of_lt small
  unfold windowFrom
  rw [whole]
  dsimp only
  constructor
  · intro h
    split at h
    next inside => exact ⟨inside, h⟩
    next => cases h
  · intro h
    rw [if_pos h.1, h.2]

theorem position_of_windowFrom {w : Window} (run : source.windowFrom offset = .ok w) :
    w.position = 0 := by
  unfold windowFrom at run
  dsimp only at run
  split at run
  next =>
    obtain ⟨-, -, -, -, start⟩ := window_eq_ok run
    exact start
  next => cases run

theorem rest_of_windowFrom (small : source.size < 2 ^ 32) {w : Window}
    (run : source.windowFrom offset = .ok w) : w.rest = source.bytes.toList.drop offset := by
  obtain ⟨inside, run⟩ := (windowFrom_eq_ok small).mp run
  obtain ⟨len, -, holds, -⟩ := window_eq_ok run
  apply List.IsPrefix.eq_of_length holds
  rw [len, List.length_drop, length_bytes]

theorem offset_of_windowFrom (small : source.size < 2 ^ 32) {w : Window}
    (run : source.windowFrom offset = .ok w) : w.offset = saturate offset := by
  obtain ⟨-, -, -, place, -⟩ := window_eq_ok ((windowFrom_eq_ok small).mp run).2
  exact place

theorem exists_windowFrom (small : source.size < 2 ^ 32) (inside : offset ≤ source.size) :
    ∃ w, source.windowFrom offset = .ok w ∧ w.rest = source.bytes.toList.drop offset ∧
      w.position = 0 := by
  have len : (source.bytes.toList.drop offset).length = source.size - offset := by
    rw [List.length_drop, length_bytes]
  have holds : source.Holds offset (source.bytes.toList.drop offset) := List.prefix_refl _
  obtain ⟨w, opened, whole, -, start⟩ := exists_window holds (by rw [len]; omega)
  rw [len] at opened
  exact ⟨w, (windowFrom_eq_ok small).mpr ⟨inside, opened⟩, whole, start⟩

theorem slice_eq_ok :
    source.slice offset n = .ok bytes ↔
      bytes.length = n ∧ offset + n ≤ source.size ∧ source.Holds offset bytes := by
  unfold slice
  rw [Except.map_eq_ok]
  constructor
  · intro h
    obtain ⟨w, run, rfl⟩ := h
    obtain ⟨len, fits, holds, -⟩ := window_eq_ok run
    exact ⟨len, fits, holds⟩
  · intro h
    obtain ⟨rfl, fits, holds⟩ := h
    obtain ⟨w, run, rest, -⟩ := exists_window holds fits
    exact ⟨w, run, rest⟩

theorem number_eq_ok {width : Nat} (pos : 0 < width) :
    source.number width offset = .ok n ↔
      n < 256 ^ width ∧ source.Holds offset (digits width n) := by
  unfold number
  rw [Except.bind_eq_ok]
  constructor
  · intro h
    obtain ⟨w, opened, h⟩ := h
    obtain ⟨⟨m, w'⟩, run, rfl⟩ := Except.map_eq_ok.mp h
    obtain ⟨-, -, holds, -⟩ := window_eq_ok opened
    obtain ⟨bound, consumes⟩ := Window.number_eq_ok.mp run
    exact ⟨bound, consumes.front.trans holds⟩
  · intro h
    obtain ⟨bound, holds⟩ := h
    have some : digits width n ≠ [] := by
      intro none
      have := length_digits width n
      rw [none, List.length_nil] at this
      omega
    obtain ⟨w, opened, rest, -⟩ := exists_window holds (holds.fits (.inr some))
    obtain ⟨w', consumes, -⟩ := Window.exists_consumes (rest.trans (List.append_nil _).symm)
    rw [length_digits] at opened
    refine ⟨w, opened, Except.map_eq_ok.mpr ⟨(n, w'), ?_, rfl⟩⟩
    exact Window.number_eq_ok.mpr ⟨bound, consumes⟩

theorem byte_eq_ok {b : UInt8} : source.byte offset = .ok b ↔ source.Holds offset [b] := by
  unfold byte
  rw [← digits_one, Except.map_eq_ok]
  constructor
  · intro h
    obtain ⟨m, run, rfl⟩ := h
    obtain ⟨bound, holds⟩ := (number_eq_ok Nat.one_pos).mp run
    rwa [UInt8.toNat_ofNat_of_lt' (by simpa using bound)]
  · intro h
    exact ⟨b.toNat, (number_eq_ok Nat.one_pos).mpr ⟨by simpa using b.toNat_lt, h⟩,
      UInt8.ofNat_toNat⟩

theorem short_eq_ok {m : UInt16} :
    source.short offset = .ok m ↔ source.Holds offset (digits 2 m.toNat) := by
  unfold short
  rw [Except.map_eq_ok]
  constructor
  · intro h
    obtain ⟨k, run, rfl⟩ := h
    obtain ⟨bound, holds⟩ := (number_eq_ok Nat.two_pos).mp run
    rwa [UInt16.toNat_ofNat_of_lt' (by simpa using bound)]
  · intro h
    exact ⟨m.toNat, (number_eq_ok Nat.two_pos).mpr ⟨by simpa using m.toNat_lt, h⟩,
      UInt16.ofNat_toNat⟩

theorem word_eq_ok {m : UInt32} :
    source.word offset = .ok m ↔ source.Holds offset (digits 4 m.toNat) := by
  have pos : 0 < 4 := by decide
  unfold word
  rw [Except.map_eq_ok]
  constructor
  · intro h
    obtain ⟨k, run, rfl⟩ := h
    obtain ⟨bound, holds⟩ := (number_eq_ok pos).mp run
    rwa [UInt32.toNat_ofNat_of_lt' (by simpa using bound)]
  · intro h
    exact ⟨m.toNat, (number_eq_ok pos).mpr ⟨by simpa using m.toNat_lt, h⟩, UInt32.ofNat_toNat⟩

theorem slice_eq_error {e : DecodingError} :
    source.slice offset n = .error e ↔
      source.size < offset + n ∧ e = .outOfBounds offset n source.size := by
  rw [slice, Except.map_eq_error, window_eq_error]

/-- A number is read off any bytes that are there. -/
theorem number_eq_error {width : Nat} (pos : 0 < width) {e : DecodingError} :
    source.number width offset = .error e ↔
      source.size < offset + width ∧ e = .outOfBounds offset width source.size := by
  rw [← window_eq_error]
  constructor
  · intro h
    cases opened : source.window offset width with
    | error e' =>
        rw [number, opened] at h
        cases h
        rfl
    | ok w =>
        obtain ⟨len, -, holds, -⟩ := window_eq_ok opened
        have bound := value_lt w.rest
        have whole := digits_value w.rest
        rw [len] at bound whole
        rw [← whole] at holds
        rw [(number_eq_ok pos).mpr ⟨bound, holds⟩] at h
        cases h
  · intro h
    rw [number, h]
    rfl

theorem byte_eq_error {e : DecodingError} :
    source.byte offset = .error e ↔
      source.size < offset + 1 ∧ e = .outOfBounds offset 1 source.size := by
  rw [byte, Except.map_eq_error, number_eq_error Nat.one_pos]

theorem short_eq_error {e : DecodingError} :
    source.short offset = .error e ↔
      source.size < offset + 2 ∧ e = .outOfBounds offset 2 source.size := by
  rw [short, Except.map_eq_error, number_eq_error Nat.two_pos]

theorem word_eq_error {e : DecodingError} :
    source.word offset = .error e ↔
      source.size < offset + 4 ∧ e = .outOfBounds offset 4 source.size := by
  rw [word, Except.map_eq_error, number_eq_error (by decide)]

end Source

end ClassFormat
