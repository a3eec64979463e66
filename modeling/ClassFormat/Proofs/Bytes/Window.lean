import Mathlib.Algebra.Order.Ring.Nat
import Mathlib.Data.List.Induction
import ClassFormat.Bytes.Source
import ClassFormat.Proofs.Computation

/-!
# What the reads of a window consume

`w.Consumes bytes w'` says that `bytes` come next in the window `w`, and that
`w'` is the same window behind them. Every read of a window succeeds exactly
when the written form of its result comes next, and leaves the window behind
it. So the laws below serve both to decode what was encoded and to find what
was decoded among the bytes.
-/
namespace ClassFormat

namespace BigEndian

theorem value_digits (width n : Nat) : value (digits width n) = n % 256 ^ width := by
  induction width generalizing n with
  | zero => simp [digits, value, Nat.mod_one]
  | succ width ih =>
    have byte : (UInt8.ofNat n).toNat = n % 256 := by simp
    rw [digits, value_append_singleton, ih, byte, Nat.pow_succ, Nat.mul_comm (256 ^ width),
      Nat.mod_mul]
    omega

theorem value_digits_of_lt {width n : Nat} (h : n < 256 ^ width) :
    value (digits width n) = n := by
  rw [value_digits, Nat.mod_eq_of_lt h]

theorem value_lt (bytes : List UInt8) : value bytes < 256 ^ bytes.length := by
  induction bytes using List.reverseRecOn with
  | nil => exact Nat.one_pos
  | append_singleton bytes b ih =>
    have hb := b.toNat_lt
    rw [value_append_singleton, List.length_append, List.length_singleton, Nat.pow_succ]
    omega

theorem digits_value_append (bytes : List UInt8) (b : UInt8) :
    digits (bytes.length + 1) (value (bytes ++ [b])) =
      digits bytes.length (value bytes) ++ [b] := by
  have hb := b.toNat_lt
  have high : (256 * value bytes + b.toNat) / 256 = value bytes := by omega
  have low : UInt8.ofNat (256 * value bytes + b.toNat) = b := by
    apply UInt8.toNat_inj.mp
    rw [UInt8.toNat_ofNat']
    omega
  rw [value_append_singleton, digits, high, low]

theorem digits_value (bytes : List UInt8) : digits bytes.length (value bytes) = bytes := by
  induction bytes using List.reverseRecOn with
  | nil => rfl
  | append_singleton bytes b ih =>
    rw [List.length_append, List.length_singleton, digits_value_append, ih]

/-- A list of bytes is the written form of one number only. -/
theorem eq_digits_iff {width n : Nat} {bytes : List UInt8} (hn : n < 256 ^ width) :
    bytes = digits width n ↔ bytes.length = width ∧ value bytes = n := by
  constructor
  · intro h
    subst h
    exact ⟨length_digits width n, value_digits_of_lt hn⟩
  · intro h
    obtain ⟨rfl, rfl⟩ := h
    exact (digits_value bytes).symm

theorem digits_add (m k n : Nat) : digits (m + k) n = digits m (n / 256 ^ k) ++ digits k n := by
  induction k generalizing n with
  | zero => rw [Nat.pow_zero, Nat.div_one, digits, List.append_nil, Nat.add_zero]
  | succ k ih =>
      rw [← Nat.add_assoc, digits, ih, digits, List.append_assoc, Nat.div_div_eq_div_mul,
        ← Nat.pow_succ']

theorem digits_mod (k n : Nat) : digits k (n % 256 ^ k) = digits k n := by
  have bound : n % 256 ^ k < 256 ^ k := Nat.mod_lt _ (Nat.pow_pos (by decide))
  symm
  rw [eq_digits_iff bound]
  exact ⟨length_digits k n, value_digits k n⟩

theorem digits_one (b : UInt8) : digits 1 b.toNat = [b] := by
  simp [digits]

end BigEndian

@[simp] theorem saturate_saturate_add (a b : Nat) :
    saturate (saturate a + b) = saturate (a + b) := by
  simp only [saturate]
  omega

theorem saturate_of_lt {offset : Nat} (h : offset < 2 ^ 32) : saturate offset = offset := by
  simp only [saturate, maxOffset]
  omega

namespace Window

theorem rest_ofArray (bytes : Array UInt8) (base : Nat) :
    (ofArray bytes base).rest = bytes.toList := by
  simp [rest, ofArray]

/-- The window stands in front of `bytes`, and behind them it is `w'`. -/
structure Consumes (w : Window) (bytes : List UInt8) (w' : Window) : Prop where
  fits : w.cursor + bytes.length ≤ w.stop
  front : bytes <+: w.rest
  moved : w' = w.advance bytes.length fits

namespace Consumes

variable {w w' v : Window} {a b bytes : List UInt8}

theorem rest_eq (h : w.Consumes bytes w') : w.rest = bytes ++ w'.rest := by
  obtain ⟨tail, htail⟩ := h.front
  rw [h.moved, rest_advance, ← htail, List.drop_left]

theorem unique (h : w.Consumes bytes w') (k : w.Consumes bytes v) : w' = v :=
  h.moved.trans k.moved.symm

theorem position_eq (h : w.Consumes bytes w') : w'.position = w.position + bytes.length := by
  have := w.start_le_cursor
  rw [h.moved]
  simp only [position, advance]
  omega

theorem cursor_eq (h : w.Consumes bytes w') : w'.cursor = w.cursor + bytes.length := by
  rw [h.moved]
  rfl

theorem offset_eq (h : w.Consumes bytes w') : w'.offset = saturate (w.offset + bytes.length) := by
  have base : w'.base = w.base := by rw [h.moved]; rfl
  rw [offset, offset, h.position_eq, base, saturate_saturate_add, Nat.add_assoc]

theorem nil_iff : w.Consumes [] w' ↔ w' = w := by
  constructor
  · intro h
    rw [h.moved]
    rfl
  · intro h
    subst h
    exact ⟨w'.cursor_le_stop, List.nil_prefix, rfl⟩

theorem append (h : w.Consumes a v) (k : v.Consumes b w') : w.Consumes (a ++ b) w' := by
  have fits := k.fits
  rw [h.cursor_eq, show v.stop = w.stop by rw [h.moved]; rfl] at fits
  refine ⟨?_, ?_, ?_⟩
  · rw [List.length_append]
    omega
  · rw [h.rest_eq]
    exact (List.prefix_append_right_inj a).mpr k.front
  · rw [k.moved]
    simp only [h.moved, advance, List.length_append, Nat.add_assoc]

theorem append_iff : w.Consumes (a ++ b) w' ↔ ∃ v, w.Consumes a v ∧ v.Consumes b w' := by
  constructor
  · intro h
    have fits := h.fits
    rw [List.length_append] at fits
    have first : w.Consumes a (w.advance a.length (by omega)) :=
      ⟨by omega, (List.prefix_append a b).trans h.front, rfl⟩
    have second : (w.advance a.length (by omega)).Consumes b
        ((w.advance a.length (by omega)).advance b.length (by simp only [advance]; omega)) := by
      refine ⟨by simp only [advance]; omega, ?_, rfl⟩
      apply (List.prefix_append_right_inj a).mp
      rw [← first.rest_eq]
      exact h.front
    refine ⟨_, first, ?_⟩
    rw [h.unique (first.append second)]
    exact second
  · intro h
    obtain ⟨v, h, k⟩ := h
    exact h.append k

end Consumes

/-- A window moves over whatever comes next in it. -/
theorem exists_consumes {w : Window} {bytes tail : List UInt8} (h : w.rest = bytes ++ tail) :
    ∃ w', w.Consumes bytes w' ∧ w'.rest = tail := by
  have len : bytes.length ≤ w.remaining := by
    rw [← length_rest, h, List.length_append]
    omega
  have := w.cursor_le_stop
  simp only [remaining] at len
  have consumes : w.Consumes bytes (w.advance bytes.length (by omega)) :=
    ⟨by omega, ⟨tail, h.symm⟩, rfl⟩
  refine ⟨_, consumes, ?_⟩
  exact List.append_cancel_left (consumes.rest_eq.symm.trans h)

section Reads

variable {α β : Type} {w w' v : Window}

theorem pure_eq_ok {a b : α} :
    (pure a : WindowReader α) w = .ok (b, w') ↔ a = b ∧ w = w' := by
  change Except.ok (a, w) = .ok (b, w') ↔ _
  rw [Except.ok.injEq, Prod.mk.injEq]

theorem bind_eq_ok {read : WindowReader α} {next : α → WindowReader β} {b : β} :
    (read >>= next) w = .ok (b, w') ↔ ∃ a v, read w = .ok (a, v) ∧ next a v = .ok (b, w') := by
  change (read w >>= fun r => next r.1 r.2) = _ ↔ _
  rw [Except.bind_eq_ok, Prod.exists]

theorem fields_eq_ok {read : WindowReader α} {a : α} :
    fields read w = .ok (a, w') ↔ read w = .ok (a, w') := by
  unfold fields
  split
  next h => simp [h]
  next => exact Iff.rfl

theorem extract_eq_take (n : Nat) (h : w.cursor + n ≤ w.stop) :
    (w.content.extract w.cursor (w.cursor + n)).data.toList = w.rest.take n := by
  have fits : n ≤ w.stop - w.cursor := by omega
  simp [rest, List.extract_eq_take_drop, List.take_take, Nat.min_eq_left fits]

theorem consumes_take (n : Nat) (h : w.cursor + n ≤ w.stop) :
    w.Consumes (w.rest.take n) (w.advance n h) := by
  have len : (w.rest.take n).length = n := by
    rw [List.length_take, length_rest, remaining]
    omega
  exact ⟨by omega, List.take_prefix n w.rest, by simp only [len]⟩

theorem record_eq_ok {n : Nat} {bytes : List UInt8} :
    record n w = .ok (bytes, w') ↔ bytes.length = n ∧ w.Consumes bytes w' := by
  unfold record
  constructor
  · intro run
    split at run
    next h =>
      have consumes := consumes_take n h
      rw [← extract_eq_take n h] at consumes
      cases run
      refine ⟨?_, consumes⟩
      rw [extract_eq_take n h, List.length_take, length_rest, remaining]
      omega
    next => cases run
  · intro h
    obtain ⟨rfl, fits, front, rfl⟩ := h
    rw [dif_pos fits, extract_eq_take _ fits, ← List.prefix_iff_eq_take.mp front]

theorem number_eq_ok {width n : Nat} :
    number width w = .ok (n, w') ↔ n < 256 ^ width ∧ w.Consumes (BigEndian.digits width n) w' := by
  unfold number
  rw [bind_eq_ok]
  constructor
  · intro h
    obtain ⟨bytes, v, run, done⟩ := h
    obtain ⟨rfl, rfl⟩ := pure_eq_ok.mp done
    obtain ⟨rfl, consumes⟩ := record_eq_ok.mp run
    exact ⟨BigEndian.value_lt bytes, by rwa [BigEndian.digits_value]⟩
  · intro h
    obtain ⟨hn, consumes⟩ := h
    refine ⟨_, w', record_eq_ok.mpr ⟨BigEndian.length_digits width n, consumes⟩, ?_⟩
    exact pure_eq_ok.mpr ⟨BigEndian.value_digits_of_lt hn, rfl⟩

theorem byte_eq_ok {b : UInt8} : byte w = .ok (b, w') ↔ w.Consumes [b] w' := by
  unfold byte
  rw [bind_eq_ok, ← BigEndian.digits_one]
  constructor
  · intro h
    obtain ⟨n, v, run, done⟩ := h
    obtain ⟨rfl, rfl⟩ := pure_eq_ok.mp done
    obtain ⟨hn, consumes⟩ := number_eq_ok.mp run
    rwa [UInt8.toNat_ofNat_of_lt' (by simpa using hn)]
  · intro consumes
    refine ⟨b.toNat, w', number_eq_ok.mpr ⟨by simpa using b.toNat_lt, consumes⟩, ?_⟩
    exact pure_eq_ok.mpr ⟨UInt8.ofNat_toNat, rfl⟩

theorem short_eq_ok {n : UInt16} :
    short w = .ok (n, w') ↔ w.Consumes (BigEndian.digits 2 n.toNat) w' := by
  unfold short
  rw [bind_eq_ok]
  constructor
  · intro h
    obtain ⟨m, v, run, done⟩ := h
    obtain ⟨rfl, rfl⟩ := pure_eq_ok.mp done
    obtain ⟨hm, consumes⟩ := number_eq_ok.mp run
    rwa [UInt16.toNat_ofNat_of_lt' (by simpa using hm)]
  · intro consumes
    refine ⟨n.toNat, w', number_eq_ok.mpr ⟨by simpa using n.toNat_lt, consumes⟩, ?_⟩
    exact pure_eq_ok.mpr ⟨UInt16.ofNat_toNat, rfl⟩

theorem word_eq_ok {n : UInt32} :
    word w = .ok (n, w') ↔ w.Consumes (BigEndian.digits 4 n.toNat) w' := by
  unfold word
  rw [bind_eq_ok]
  constructor
  · intro h
    obtain ⟨m, v, run, done⟩ := h
    obtain ⟨rfl, rfl⟩ := pure_eq_ok.mp done
    obtain ⟨hm, consumes⟩ := number_eq_ok.mp run
    rwa [UInt32.toNat_ofNat_of_lt' (by simpa using hm)]
  · intro consumes
    refine ⟨n.toNat, w', number_eq_ok.mpr ⟨by simpa using n.toNat_lt, consumes⟩, ?_⟩
    exact pure_eq_ok.mpr ⟨UInt32.ofNat_toNat, rfl⟩

/-- The window that is split off holds the bytes that are moved over, from the
same offset on. -/
theorem split_eq_ok {n : Nat} (run : split n w = .ok (v, w')) :
    v.rest.length = n ∧ w.Consumes v.rest w' ∧ v.offset = w.offset := by
  unfold split at run
  split at run
  next h =>
    have consumes := consumes_take n h
    rw [← extract_eq_take n h] at consumes
    cases run
    refine ⟨?_, consumes, ?_⟩
    · rw [length_rest]
      exact Nat.add_sub_cancel_left w.cursor n
    · rw [offset, position, Nat.sub_self]
      exact saturate_saturate_add (w.base + w.position) 0
  next => cases run

theorem exists_split {bytes : List UInt8} (h : w.Consumes bytes w') :
    ∃ v, split bytes.length w = .ok (v, w') ∧ v.rest = bytes ∧ v.offset = w.offset := by
  obtain ⟨fits, front, rfl⟩ := h
  unfold split
  rw [dif_pos fits]
  refine ⟨_, rfl, ?_, ?_⟩
  · change (w.content.extract w.cursor (w.cursor + bytes.length)).data.toList = bytes
    rw [extract_eq_take _ fits]
    exact (List.prefix_iff_eq_take.mp front).symm
  · rw [offset, position, Nat.sub_self]
    exact saturate_saturate_add (w.base + w.position) 0

theorem take_eq_ok {n : Nat} {bytes : List UInt8} :
    take n w = .ok (bytes, w') ↔ bytes.length = n ∧ w.Consumes bytes w' := by
  unfold take
  rw [bind_eq_ok]
  constructor
  · intro h
    obtain ⟨v, u, run, done⟩ := h
    obtain ⟨rfl, rfl⟩ := pure_eq_ok.mp done
    obtain ⟨len, consumes, -⟩ := split_eq_ok run
    exact ⟨len, consumes⟩
  · intro h
    obtain ⟨rfl, consumes⟩ := h
    obtain ⟨v, run, rest, -⟩ := exists_split consumes
    exact ⟨v, w', run, pure_eq_ok.mpr ⟨rest, rfl⟩⟩

theorem takeRest_eq_ok {bytes : List UInt8} :
    takeRest w = .ok (bytes, w') ↔ w.Consumes bytes w' ∧ w'.rest = [] := by
  have fits : w.cursor + w.remaining ≤ w.stop := by
    have := w.cursor_le_stop
    simp only [remaining]
    omega
  have all : w.Consumes w.rest (w.advance w.remaining fits) := by
    have h := consumes_take w.remaining fits
    rwa [List.take_of_length_le (by simp)] at h
  constructor
  · intro run
    change Except.ok (w.rest, w.advance w.remaining fits) = _ at run
    cases run
    exact ⟨all, List.append_cancel_left (all.rest_eq.symm.trans (List.append_nil _).symm)⟩
  · intro h
    obtain ⟨consumes, rest⟩ := h
    have whole : w.rest = bytes := by rw [consumes.rest_eq, rest, List.append_nil]
    subst whole
    change Except.ok (w.rest, w.advance w.remaining fits) = _
    rw [consumes.unique all]

end Reads

end Window

end ClassFormat
