import ClassFormat.Text.ModifiedUtf8

/-!
# Strings in modified UTF-8

Every string is read back from its modified form. The generous first attempt of
`decode`, which takes standard UTF-8, either gives up on the modified form or
reads the same string.
-/
namespace ClassFormat.ModifiedUtf8

theorem toNat_lead {marker n : Nat} (h : marker + n < 256) :
    (lead marker n).toNat = marker + n := by
  rw [lead, UInt8.toNat_ofNat', Nat.mod_eq_of_lt h]

theorem toNat_continuation (n : Nat) : (continuation n).toNat = 128 + n % 64 := by
  rw [continuation, UInt8.toNat_ofNat']
  omega

theorem isContinuation_iff {b : UInt8} : isContinuation b ↔ 128 ≤ b.toNat ∧ b.toNat ≤ 191 := by
  simp [isContinuation, UInt8.le_iff_toNat_le]

theorem isContinuation_continuation (n : Nat) : isContinuation (continuation n) := by
  rw [isContinuation_iff, toNat_continuation]
  omega

theorem isThreeByteStart_iff {a b : UInt8} :
    isThreeByteStart a b ↔
      128 ≤ b.toNat ∧ b.toNat ≤ 191 ∧ 224 ≤ a.toNat ∧ a.toNat ≤ 239 ∧
        (a.toNat = 224 → 160 ≤ b.toNat) ∧ (a.toNat = 237 → b.toNat ≤ 159) := by
  unfold isThreeByteStart
  simp only [isContinuation, UInt8.le_iff_toNat_le, ← UInt8.toNat_inj, UInt8.reduceToNat]
  split
  · simp only [Bool.and_eq_true, decide_eq_true_eq]
    omega
  · split
    · simp only [Bool.and_eq_true, decide_eq_true_eq]
      omega
    · simp only [Bool.and_eq_true, decide_eq_true_eq]
      omega

theorem twoBytes_lead {n : Nat} (h : n < 0x800) :
    twoBytes (lead 0xC0 (n / 64)) (continuation n) = n := by
  rw [twoBytes, toNat_lead (by omega), toNat_continuation]
  omega

theorem threeBytes_lead {n : Nat} (h : n < 0x10000) :
    threeBytes (lead 0xE0 (n / 4096)) (continuation (n / 64)) (continuation n) = n := by
  rw [threeBytes, toNat_lead (by omega), toNat_continuation, toNat_continuation]
  omega

theorem isThreeByteStart_lead {n : Nat} (low : 0x800 ≤ n) (high : n < 0x10000)
    (scalar : n < 0xD800 ∨ 0xE000 ≤ n) :
    isThreeByteStart (lead 0xE0 (n / 4096)) (continuation (n / 64)) := by
  rw [isThreeByteStart_iff, toNat_lead (by omega), toNat_continuation]
  omega

theorem lead_surrogate {n : Nat} (low : 0xD800 ≤ n) (high : n < 0xE000) :
    lead 0xE0 (n / 4096) = 0xED := by
  rw [← UInt8.toNat_inj, toNat_lead (by omega)]
  change _ = 237
  omega

theorem surrogatePair_halves {n : Nat} (low : 0x10000 ≤ n) (high : n < 0x110000) :
    let m := n - 0x10000
    surrogatePair (continuation ((0xD800 + m / 1024) / 64)) (continuation (0xD800 + m / 1024))
      (continuation ((0xDC00 + m % 1024) / 64)) (continuation (0xDC00 + m % 1024)) = n := by
  intro m
  simp only [surrogatePair, toNat_continuation]
  omega

/-- No character is a surrogate. -/
theorem lt_surrogate_or_le (c : Char) : c.toNat < 0xD800 ∨ 0xE000 ≤ c.toNat := by
  rcases c.valid with low | high
  · exact .inl low
  · exact .inr high.1

theorem toNat_lt_max (c : Char) : c.toNat < 0x110000 := by
  rcases c.valid with low | high
  · exact Nat.lt_trans low (by decide)
  · exact high.2

/-- Such a byte is the first of several. -/
theorem not_ascii {a : UInt8} (h : 128 ≤ a.toNat) : ¬a < 0x80 :=
  UInt8.not_lt.mpr (UInt8.le_iff_toNat_le.mpr h)

section Decoding

variable (read : List Char) (rest : List UInt8)

attribute [local simp] decodeModified decodeStandard

theorem decodeModified_one {a : UInt8} (low : a.toNat < 128) (some : a.toNat ≠ 0) :
    decodeModified read (a :: rest) = decodeModified (Char.ofNat a.toNat :: read) rest := by
  have ascii : a < 0x80 := UInt8.lt_iff_toNat_lt.mpr low
  have nonzero : a ≠ 0 := fun h => some (congrArg UInt8.toNat h)
  rw [decodeModified.eq_def]
  simp only [if_pos ascii, if_neg nonzero]

theorem decodeModified_two {a b : UInt8} (low : 194 ≤ a.toNat) (high : a.toNat < 224)
    (hb : isContinuation b) :
    decodeModified read (a :: b :: rest) =
      decodeModified (Char.ofNat (twoBytes a b) :: read) rest := by
  have ascii : ¬a < 0x80 := not_ascii (by omega)
  have two : a < 0xE0 := UInt8.lt_iff_toNat_lt.mpr high
  have least : 0xC2 ≤ a := UInt8.le_iff_toNat_le.mpr low
  have zero : a ≠ 0xC0 := by
    intro h
    rw [h] at low
    exact absurd low (by decide)
  simp [ascii, two, zero, least, hb]

theorem decodeModified_three {a b c : UInt8} (hab : isThreeByteStart a b) (hc : isContinuation c) :
    decodeModified read (a :: b :: c :: rest) =
      decodeModified (Char.ofNat (threeBytes a b c) :: read) rest := by
  obtain ⟨-, -, low, -⟩ := isThreeByteStart_iff.mp hab
  have ascii : ¬a < 0x80 := not_ascii (by omega)
  have two : ¬a < 0xE0 := UInt8.not_lt.mpr (UInt8.le_iff_toNat_le.mpr low)
  simp [ascii, two, hab, hc]

theorem isThreeByteStart_surrogate {b : UInt8} (hb : 160 ≤ b.toNat) :
    isThreeByteStart 0xED b = false := by
  rw [Bool.eq_false_iff]
  intro h
  obtain ⟨-, -, -, -, -, h⟩ := isThreeByteStart_iff.mp h
  exact absurd (h rfl) (by omega)

theorem decodeModified_six {b c e f : UInt8} (hb : 160 ≤ b.toNat ∧ b.toNat ≤ 175)
    (hc : isContinuation c) (he : 176 ≤ e.toNat ∧ e.toNat ≤ 191) (hf : isContinuation f) :
    decodeModified read (0xED :: b :: c :: 0xED :: e :: f :: rest) =
      decodeModified (Char.ofNat (surrogatePair b c e f) :: read) rest := by
  have start := isThreeByteStart_surrogate hb.1
  have lowB : (0xA0 : UInt8) ≤ b := UInt8.le_iff_toNat_le.mpr hb.1
  have highB : b ≤ 0xAF := UInt8.le_iff_toNat_le.mpr hb.2
  have lowE : (0xB0 : UInt8) ≤ e := UInt8.le_iff_toNat_le.mpr he.1
  have highE : e ≤ 0xBF := UInt8.le_iff_toNat_le.mpr he.2
  simp [start, lowB, highB, lowE, highE, hc, hf]

theorem decodeModified_encodeChar (c : Char) :
    decodeModified read (encodeChar c ++ rest) = decodeModified (c :: read) rest := by
  have same : Char.ofNat c.toNat = c := Char.ofNat_toNat c
  unfold encodeChar
  dsimp only
  split
  next zero =>
    rw [zero] at same
    simp [← same]
  next some =>
    split
    next ascii =>
      have value : (UInt8.ofNat c.toNat).toNat = c.toNat := by
        rw [UInt8.toNat_ofNat', Nat.mod_eq_of_lt (by omega)]
      rw [List.cons_append, List.nil_append, decodeModified_one read rest (by omega) (by omega),
        value, same]
    next above =>
      split
      next two =>
        have value : (lead 0xC0 (c.toNat / 64)).toNat = 192 + c.toNat / 64 := toNat_lead (by omega)
        rw [List.cons_append, List.cons_append, List.nil_append,
          decodeModified_two read rest (by omega) (by omega) (isContinuation_continuation _),
          twoBytes_lead two, same]
      next high =>
        split
        next three =>
          have start := isThreeByteStart_lead (by omega) three (lt_surrogate_or_le c)
          rw [encodeUnit, List.cons_append, List.cons_append, List.cons_append, List.nil_append,
            decodeModified_three read rest start (isContinuation_continuation _),
            threeBytes_lead three, same]
        next four =>
          have most := toNat_lt_max c
          simp only [encodeUnit, List.cons_append, List.nil_append]
          rw [lead_surrogate (by omega) (by omega), lead_surrogate (by omega) (by omega)]
          rw [decodeModified_six read rest _ (isContinuation_continuation _) _
            (isContinuation_continuation _), surrogatePair_halves (by omega) most, same]
          · rw [toNat_continuation]
            omega
          · rw [toNat_continuation]
            omega

theorem decodeStandard_one {a : UInt8} (low : a.toNat < 128) :
    decodeStandard read (a :: rest) = decodeStandard (Char.ofNat a.toNat :: read) rest := by
  have ascii : a < 0x80 := UInt8.lt_iff_toNat_lt.mpr low
  rw [decodeStandard.eq_def]
  simp only [if_pos ascii]

theorem decodeStandard_two {a b : UInt8} (low : 194 ≤ a.toNat) (high : a.toNat < 224)
    (hb : isContinuation b) :
    decodeStandard read (a :: b :: rest) =
      decodeStandard (Char.ofNat (twoBytes a b) :: read) rest := by
  have ascii : ¬a < 0x80 := not_ascii (by omega)
  have two : a < 0xE0 := UInt8.lt_iff_toNat_lt.mpr high
  have least : 0xC2 ≤ a := UInt8.le_iff_toNat_le.mpr low
  simp [ascii, two, least, hb]

theorem decodeStandard_three {a b c : UInt8} (hab : isThreeByteStart a b) (hc : isContinuation c) :
    decodeStandard read (a :: b :: c :: rest) =
      decodeStandard (Char.ofNat (threeBytes a b c) :: read) rest := by
  obtain ⟨-, -, low, high, -⟩ := isThreeByteStart_iff.mp hab
  have ascii : ¬a < 0x80 := not_ascii (by omega)
  have two : ¬a < 0xE0 := UInt8.not_lt.mpr (UInt8.le_iff_toNat_le.mpr low)
  have three : a < 0xF0 := UInt8.lt_iff_toNat_lt.mpr (Nat.lt_succ_of_le high)
  simp [ascii, two, three, hab, hc]

theorem decodeStandard_surrogate {b c : UInt8} (hb : 160 ≤ b.toNat) :
    decodeStandard read (0xED :: b :: c :: rest) = none := by
  have start := isThreeByteStart_surrogate hb
  simp [start]

theorem decodeStandard_encodeChar (c : Char) :
    decodeStandard read (encodeChar c ++ rest) = none ∨
      decodeStandard read (encodeChar c ++ rest) = decodeStandard (c :: read) rest := by
  have same : Char.ofNat c.toNat = c := Char.ofNat_toNat c
  unfold encodeChar
  dsimp only
  split
  next zero =>
    left
    simp
  next some =>
    split
    next ascii =>
      have value : (UInt8.ofNat c.toNat).toNat = c.toNat := by
        rw [UInt8.toNat_ofNat', Nat.mod_eq_of_lt (by omega)]
      right
      rw [List.cons_append, List.nil_append, decodeStandard_one read rest (by omega), value, same]
    next above =>
      split
      next two =>
        have value : (lead 0xC0 (c.toNat / 64)).toNat = 192 + c.toNat / 64 := toNat_lead (by omega)
        right
        rw [List.cons_append, List.cons_append, List.nil_append,
          decodeStandard_two read rest (by omega) (by omega) (isContinuation_continuation _),
          twoBytes_lead two, same]
      next high =>
        split
        next three =>
          have start := isThreeByteStart_lead (by omega) three (lt_surrogate_or_le c)
          right
          rw [encodeUnit, List.cons_append, List.cons_append, List.cons_append, List.nil_append,
            decodeStandard_three read rest start (isContinuation_continuation _),
            threeBytes_lead three, same]
        next four =>
          have most := toNat_lt_max c
          left
          simp only [encodeUnit, List.cons_append, List.nil_append]
          rw [lead_surrogate (by omega) (by omega)]
          apply decodeStandard_surrogate
          rw [toNat_continuation]
          omega

theorem decodeModified_encode (chars : List Char) :
    decodeModified read (chars.flatMap encodeChar) = some (read.reverse ++ chars) := by
  induction chars generalizing read with
  | nil => simp
  | cons c chars ih =>
      rw [List.flatMap_cons, decodeModified_encodeChar, ih, List.reverse_cons, List.append_assoc]
      rfl

theorem decodeStandard_encode (chars : List Char) :
    decodeStandard read (chars.flatMap encodeChar) = none ∨
      decodeStandard read (chars.flatMap encodeChar) = some (read.reverse ++ chars) := by
  induction chars generalizing read with
  | nil =>
      right
      simp
  | cons c chars ih =>
      rw [List.flatMap_cons]
      rcases decodeStandard_encodeChar read (chars.flatMap encodeChar) c with fails | passes
      · exact .inl fails
      · rw [passes]
        rcases ih (c :: read) with fails | same
        · exact .inl fails
        · right
          rw [same, List.reverse_cons, List.append_assoc]
          rfl

end Decoding

/-- Every string is read back from its modified form. -/
theorem decode_encode (s : String) : decode (encode s) = some s := by
  unfold decode encode
  rcases decodeStandard_encode [] s.toList with fails | same
  · rw [fails, decodeModified_encode]
    simp
  · rw [same]
    simp

end ClassFormat.ModifiedUtf8
