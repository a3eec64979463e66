import ClassFormat.Proofs.Text.Canonical

/-!
# What the string decoder accepts

Class files write a string as code units of sixteen bits, each in one to three
bytes. Any units may stand behind each other there, also halves of surrogate pairs
without the other half, but these make no string. The decoder accepts the units of
strings, and besides them every string in standard UTF-8, and nothing else.
-/
namespace ClassFormat.ModifiedUtf8

/-- The bytes of a code unit. Zero takes two of them. -/
def unitBytes (u : UInt16) : List UInt8 :=
  let n := u.toNat
  if n = 0 then [0xC0, 0x80]
  else if n < 0x80 then [UInt8.ofNat n]
  else if n < 0x800 then [lead 0xC0 (n / 64), continuation n]
  else encodeUnit n

/-- Modified UTF-8 as class files have it. -/
def WellFormed (bytes : List UInt8) : Prop :=
  ∃ units : List UInt16, bytes = units.flatMap unitBytes

def IsHighSurrogate (u : UInt16) : Prop := 0xD800 ≤ u.toNat ∧ u.toNat < 0xDC00

def IsLowSurrogate (u : UInt16) : Prop := 0xDC00 ≤ u.toNat ∧ u.toNat < 0xE000

/-- Every surrogate is a half of a pair. -/
inductive Paired : List UInt16 → Prop
  | nil : Paired []
  | unit {u : UInt16} {rest : List UInt16} : ¬IsHighSurrogate u → ¬IsLowSurrogate u →
      Paired rest → Paired (u :: rest)
  | pair {u v : UInt16} {rest : List UInt16} : IsHighSurrogate u → IsLowSurrogate v →
      Paired rest → Paired (u :: v :: rest)

/-- Modified UTF-8 without halves of pairs. -/
def PairedForm (bytes : List UInt8) : Prop :=
  ∃ units, Paired units ∧ bytes = units.flatMap unitBytes

theorem PairedForm.wellFormed {bytes : List UInt8} (h : PairedForm bytes) : WellFormed bytes := by
  obtain ⟨units, -, same⟩ := h
  exact ⟨units, same⟩

theorem lead_strict {n : Nat} (h : n < 16) : lead 0xE0 n ≠ 0 ∧ lead 0xE0 n < 0xF0 := by
  have value : (lead 0xE0 n).toNat = 224 + n := toNat_lead (by omega)
  rw [Ne, ← UInt8.toNat_inj, UInt8.lt_iff_toNat_lt, value]
  simp
  omega

theorem continuation_strict (n : Nat) : continuation n ≠ 0 ∧ continuation n < 0xF0 := by
  rw [Ne, ← UInt8.toNat_inj, UInt8.lt_iff_toNat_lt, toNat_continuation]
  simp
  omega

theorem strict_unitBytes (u : UInt16) : Strict (unitBytes u) := by
  have bound := u.toNat_lt
  unfold unitBytes
  dsimp only
  split
  next =>
    exact List.forall_mem_cons.mpr ⟨by decide, List.forall_mem_singleton.mpr (by decide)⟩
  next some =>
    split
    next ascii =>
      intro b member
      obtain rfl := List.mem_singleton.mp member
      have value : (UInt8.ofNat u.toNat).toNat = u.toNat := by
        rw [UInt8.toNat_ofNat', Nat.mod_eq_of_lt (by omega)]
      rw [Ne, ← UInt8.toNat_inj, UInt8.lt_iff_toNat_lt, value]
      exact ⟨some, Nat.lt_trans ascii (by decide)⟩
    next =>
      split
      next two =>
        have value : (lead 0xC0 (u.toNat / 64)).toNat = 192 + u.toNat / 64 := toNat_lead (by omega)
        have first : lead 0xC0 (u.toNat / 64) ≠ 0 ∧ lead 0xC0 (u.toNat / 64) < 0xF0 := by
          rw [Ne, ← UInt8.toNat_inj, UInt8.lt_iff_toNat_lt, value]
          simp
          omega
        exact List.forall_mem_cons.mpr
          ⟨first, List.forall_mem_singleton.mpr (continuation_strict _)⟩
      next =>
        exact List.forall_mem_cons.mpr ⟨lead_strict (by omega), List.forall_mem_cons.mpr
          ⟨continuation_strict _, List.forall_mem_singleton.mpr (continuation_strict _)⟩⟩

/-- There is no zero byte in modified UTF-8, and no sequence of four bytes. -/
theorem WellFormed.strict {bytes : List UInt8} (h : WellFormed bytes) : Strict bytes := by
  obtain ⟨units, rfl⟩ := h
  intro b member
  obtain ⟨u, -, inside⟩ := List.mem_flatMap.mp member
  exact strict_unitBytes u b inside

/-- One unit, or the two halves of a pair. -/
def charUnits (c : Char) : List UInt16 :=
  let n := c.toNat
  if n < 0x10000 then [UInt16.ofNat n]
  else [UInt16.ofNat (0xD800 + (n - 0x10000) / 1024), UInt16.ofNat (0xDC00 + (n - 0x10000) % 1024)]

theorem toNat_ofNat16 {n : Nat} (h : n < 0x10000) : (UInt16.ofNat n).toNat = n :=
  UInt16.toNat_ofNat_of_lt' h

theorem unitBytes_high {n : Nat} (low : 0x800 ≤ n) (high : n < 0x10000) :
    unitBytes (UInt16.ofNat n) = encodeUnit n := by
  rw [unitBytes, toNat_ofNat16 high]
  rw [if_neg (by omega), if_neg (by omega), if_neg (by omega)]

theorem encodeChar_eq (c : Char) : encodeChar c = (charUnits c).flatMap unitBytes := by
  have most := toNat_lt_max c
  unfold charUnits
  dsimp only
  split
  next single =>
    rw [List.flatMap_singleton, unitBytes, toNat_ofNat16 single, encodeChar]
    simp only [if_pos single]
  next pair =>
    rw [List.flatMap_cons, List.flatMap_singleton, unitBytes_high (by omega) (by omega),
      unitBytes_high (by omega) (by omega), encodeChar]
    rw [if_neg (by omega), if_neg (by omega), if_neg (by omega), if_neg pair]

theorem Paired.charUnits_append {rest : List UInt16} (h : Paired rest) (c : Char) :
    Paired (charUnits c ++ rest) := by
  have scalar := lt_surrogate_or_le c
  have most := toNat_lt_max c
  unfold charUnits
  dsimp only
  split
  next single =>
    refine .unit ?_ ?_ h
    · rw [IsHighSurrogate, toNat_ofNat16 single]
      omega
    · rw [IsLowSurrogate, toNat_ofNat16 single]
      omega
  next pair =>
    refine .pair ?_ ?_ h
    · rw [IsHighSurrogate, toNat_ofNat16 (by omega)]
      omega
    · rw [IsLowSurrogate, toNat_ofNat16 (by omega)]
      omega

theorem exists_charUnits_single {u : UInt16} (high : ¬IsHighSurrogate u) (low : ¬IsLowSurrogate u) :
    ∃ c, charUnits c = [u] := by
  have bound := u.toNat_lt
  unfold IsHighSurrogate at high
  unfold IsLowSurrogate at low
  have value : (Char.ofNat u.toNat).toNat = u.toNat := toNat_ofNat (by omega)
  refine ⟨Char.ofNat u.toNat, ?_⟩
  rw [charUnits, value, if_pos bound, UInt16.ofNat_toNat]

theorem exists_charUnits_pair {u v : UInt16} (high : IsHighSurrogate u) (low : IsLowSurrogate v) :
    ∃ c, charUnits c = [u, v] := by
  unfold IsHighSurrogate at high
  unfold IsLowSurrogate at low
  let n := 0x10000 + (u.toNat - 0xD800) * 1024 + (v.toNat - 0xDC00)
  have value : (Char.ofNat n).toNat = n := toNat_ofNat (by omega)
  have first : 0xD800 + (n - 0x10000) / 1024 = u.toNat := by omega
  have second : 0xDC00 + (n - 0x10000) % 1024 = v.toNat := by omega
  refine ⟨Char.ofNat n, ?_⟩
  rw [charUnits, value, if_neg (by omega), first, second, UInt16.ofNat_toNat, UInt16.ofNat_toNat]

/-- Units in which every surrogate is a half of a pair are those of a string. -/
theorem paired_iff {units : List UInt16} :
    Paired units ↔ ∃ chars : List Char, units = chars.flatMap charUnits := by
  constructor
  · intro h
    induction h with
    | nil => exact ⟨[], rfl⟩
    | unit high low _ ih =>
        obtain ⟨c, here⟩ := exists_charUnits_single high low
        obtain ⟨chars, rfl⟩ := ih
        exact ⟨c :: chars, by rw [List.flatMap_cons, here]; rfl⟩
    | pair high low _ ih =>
        obtain ⟨c, here⟩ := exists_charUnits_pair high low
        obtain ⟨chars, rfl⟩ := ih
        exact ⟨c :: chars, by rw [List.flatMap_cons, here]; rfl⟩
  · rintro ⟨chars, rfl⟩
    induction chars with
    | nil => exact .nil
    | cons c chars ih =>
        rw [List.flatMap_cons]
        exact ih.charUnits_append c

theorem encode_eq (s : String) : encode s = (s.toList.flatMap charUnits).flatMap unitBytes := by
  rw [List.flatMap_assoc]
  exact congrArg s.toList.flatMap (funext encodeChar_eq)

theorem pairedForm_iff {bytes : List UInt8} : PairedForm bytes ↔ ∃ s, bytes = encode s := by
  constructor
  · rintro ⟨units, paired, rfl⟩
    obtain ⟨chars, rfl⟩ := paired_iff.mp paired
    refine ⟨String.ofList chars, ?_⟩
    rw [encode_eq, String.toList_ofList]
  · rintro ⟨s, rfl⟩
    exact ⟨s.toList.flatMap charUnits, paired_iff.mpr ⟨s.toList, rfl⟩, encode_eq s⟩

/-- The string in standard UTF-8. -/
def encodeStandard (s : String) : List UInt8 := s.toList.flatMap String.utf8EncodeChar

/-- Standard UTF-8, as a whole. -/
def IsStandard (bytes : List UInt8) : Prop := ∃ s, bytes = encodeStandard s

theorem isFourByteStart_iff {a b : UInt8} :
    isFourByteStart a b ↔
      128 ≤ b.toNat ∧ b.toNat ≤ 191 ∧ 240 ≤ a.toNat ∧ a.toNat ≤ 244 ∧
        (a.toNat = 240 → 144 ≤ b.toNat) ∧ (a.toNat = 244 → b.toNat ≤ 143) := by
  unfold isFourByteStart
  simp only [isContinuation, UInt8.le_iff_toNat_le, ← UInt8.toNat_inj, UInt8.reduceToNat]
  split
  · simp only [Bool.and_eq_true, decide_eq_true_eq]
    omega
  · split
    · simp only [Bool.and_eq_true, decide_eq_true_eq]
      omega
    · simp only [Bool.and_eq_true, decide_eq_true_eq]
      omega

/-- The bytes of a character, by how many there are. -/
theorem utf8EncodeChar_eq (c : Char) :
    String.utf8EncodeChar c =
      let n := c.toNat
      if n < 0x80 then [UInt8.ofNat n]
      else if n < 0x800 then [lead 0xC0 (n / 64), continuation n]
      else if n < 0x10000 then encodeUnit n
      else [lead 0xF0 (n / 262144), continuation (n / 4096), continuation (n / 64),
        continuation n] := by
  have most := toNat_lt_max c
  have same : c.val.toNat = c.toNat := rfl
  unfold String.utf8EncodeChar encodeUnit lead continuation
  simp only [same, ← Nat.lt_succ_iff]
  split
  · rfl
  split
  · rw [Nat.mod_eq_of_lt (by omega), Nat.add_comm 128, Nat.add_comm 192]
  split
  · rw [Nat.mod_eq_of_lt (by omega), Nat.add_comm 128, Nat.add_comm 128, Nat.add_comm 224]
  · rw [Nat.mod_eq_of_lt (a := c.toNat / 262144) (by omega), Nat.add_comm 128, Nat.add_comm 128,
      Nat.add_comm 128, Nat.add_comm 240]

theorem fourBytes_lead {n : Nat} (h : n < 0x110000) :
    fourBytes (lead 0xF0 (n / 262144)) (continuation (n / 4096)) (continuation (n / 64))
      (continuation n) = n := by
  rw [fourBytes, toNat_lead (by omega), toNat_continuation, toNat_continuation, toNat_continuation]
  omega

theorem isFourByteStart_lead {n : Nat} (low : 0x10000 ≤ n) (high : n < 0x110000) :
    isFourByteStart (lead 0xF0 (n / 262144)) (continuation (n / 4096)) := by
  rw [isFourByteStart_iff, toNat_lead (by omega), toNat_continuation]
  omega

section Decoding

variable (read : List Char) (rest : List UInt8)

theorem decodeStandard_four {a b c d : UInt8} (hab : isFourByteStart a b) (hc : isContinuation c)
    (hd : isContinuation d) :
    decodeStandard read (a :: b :: c :: d :: rest) =
      decodeStandard (Char.ofNat (fourBytes a b c d) :: read) rest := by
  obtain ⟨-, -, low, -⟩ := isFourByteStart_iff.mp hab
  have ascii : ¬a < 0x80 := not_ascii (by omega)
  have two : ¬a < 0xE0 :=
    UInt8.not_lt.mpr (UInt8.le_iff_toNat_le.mpr (Nat.le_trans (by decide) low))
  have three : ¬a < 0xF0 := UInt8.not_lt.mpr (UInt8.le_iff_toNat_le.mpr low)
  simp [decodeStandard, ascii, two, three, hab, hc, hd]

theorem decodeStandard_utf8EncodeChar (c : Char) :
    decodeStandard read (String.utf8EncodeChar c ++ rest) = decodeStandard (c :: read) rest := by
  have same : Char.ofNat c.toNat = c := Char.ofNat_toNat c
  have most := toNat_lt_max c
  rw [utf8EncodeChar_eq]
  dsimp only
  split
  next ascii =>
    have value : (UInt8.ofNat c.toNat).toNat = c.toNat := by
      rw [UInt8.toNat_ofNat', Nat.mod_eq_of_lt (by omega)]
    rw [List.singleton_append, decodeStandard_one read rest (by omega), value, same]
  split
  next two =>
    have value : (lead 0xC0 (c.toNat / 64)).toNat = 192 + c.toNat / 64 := toNat_lead (by omega)
    rw [List.cons_append, List.singleton_append,
      decodeStandard_two read rest (by omega) (by omega) (isContinuation_continuation _),
      twoBytes_lead two, same]
  split
  next three =>
    have start := isThreeByteStart_lead (by omega) three (lt_surrogate_or_le c)
    rw [encodeUnit, List.cons_append, List.cons_append, List.singleton_append,
      decodeStandard_three read rest start (isContinuation_continuation _),
      threeBytes_lead three, same]
  next four =>
    have start := isFourByteStart_lead (by omega) most
    rw [List.cons_append, List.cons_append, List.cons_append, List.singleton_append,
      decodeStandard_four read rest start (isContinuation_continuation _)
        (isContinuation_continuation _), fourBytes_lead most, same]

theorem decodeStandard_flatMap (chars : List Char) :
    decodeStandard read (chars.flatMap String.utf8EncodeChar) = some (read.reverse ++ chars) := by
  induction chars generalizing read with
  | nil => simp [decodeStandard]
  | cons c chars ih =>
      rw [List.flatMap_cons, decodeStandard_utf8EncodeChar, ih, List.reverse_cons,
        List.append_assoc]
      rfl

end Decoding

theorem utf8EncodeChar_one {a : UInt8} (low : a < 0x80) :
    String.utf8EncodeChar (Char.ofNat a.toNat) = [a] := by
  have low' : a.toNat < 128 := UInt8.lt_iff_toNat_lt.mp low
  rw [utf8EncodeChar_eq, toNat_ofNat (by omega)]
  simp [low']

/-- From two bytes on, and up to three, the forms agree. -/
theorem utf8EncodeChar_eq_encodeChar {c : Char} (low : 0x80 ≤ c.toNat) (high : c.toNat < 0x10000) :
    String.utf8EncodeChar c = encodeChar c := by
  have some : c.toNat ≠ 0 := by omega
  have ascii : ¬c.toNat < 0x80 := by omega
  simp only [utf8EncodeChar_eq, encodeChar, if_neg some, if_neg ascii, if_pos high]

theorem utf8EncodeChar_two {a b : UInt8} (low : 0xC2 ≤ a) (high : a < 0xE0)
    (hb : isContinuation b) : String.utf8EncodeChar (Char.ofNat (twoBytes a b)) = [a, b] := by
  have low' : 194 ≤ a.toNat := UInt8.le_iff_toNat_le.mp low
  have high' : a.toNat < 224 := UInt8.lt_iff_toNat_lt.mp high
  have value : twoBytes a b = (a.toNat - 192) * 64 + b.toNat % 64 := by
    rw [twoBytes]
    omega
  have char : (Char.ofNat (twoBytes a b)).toNat = twoBytes a b := toNat_ofNat (by omega)
  rw [utf8EncodeChar_eq_encodeChar (by omega) (by omega), encodeChar_two low high hb]

theorem utf8EncodeChar_three {a b c : UInt8} (hab : isThreeByteStart a b) (hc : isContinuation c) :
    String.utf8EncodeChar (Char.ofNat (threeBytes a b c)) = [a, b, c] := by
  obtain ⟨lowB, highB, low, high, overlong, surrogate⟩ := isThreeByteStart_iff.mp hab
  have value : threeBytes a b c =
      (a.toNat - 224) * 4096 + (b.toNat - 128) * 64 + c.toNat % 64 := by
    rw [threeBytes]
    omega
  have char : (Char.ofNat (threeBytes a b c)).toNat = threeBytes a b c := toNat_ofNat (by omega)
  rw [utf8EncodeChar_eq_encodeChar (by omega) (by omega), encodeChar_three hab hc]

theorem utf8EncodeChar_four {a b c d : UInt8} (hab : isFourByteStart a b) (hc : isContinuation c)
    (hd : isContinuation d) :
    String.utf8EncodeChar (Char.ofNat (fourBytes a b c d)) = [a, b, c, d] := by
  obtain ⟨lowB, highB, low, high, overlong, beyond⟩ := isFourByteStart_iff.mp hab
  have hb : isContinuation b := isContinuation_iff.mpr ⟨lowB, highB⟩
  have value : fourBytes a b c d = (a.toNat - 240) * 262144 + (b.toNat - 128) * 4096 +
      c.toNat % 64 * 64 + d.toNat % 64 := by
    rw [fourBytes]
    omega
  have first : lead 0xF0 (fourBytes a b c d / 262144) = a := lead_eq (by omega)
  have second : continuation (fourBytes a b c d / 4096) = b := continuation_eq hb (by omega)
  have third : continuation (fourBytes a b c d / 64) = c := continuation_eq hc (by omega)
  have fourth : continuation (fourBytes a b c d) = d := continuation_eq hd (by omega)
  rw [utf8EncodeChar_eq, toNat_ofNat (by omega)]
  dsimp only
  rw [if_neg (by omega), if_neg (by omega), if_neg (by omega), first, second, third, fourth]

theorem utf8_read_cons (c : Char) (read : List Char) (rest : List UInt8) :
    (c :: read).reverse.flatMap String.utf8EncodeChar ++ rest =
      read.reverse.flatMap String.utf8EncodeChar ++ (String.utf8EncodeChar c ++ rest) := by
  simp

/-- What is read as standard UTF-8 is written as the characters and then the
bytes. -/
theorem utf8_of_decodeStandard {read chars : List Char} {bytes : List UInt8}
    (h : decodeStandard read bytes = some chars) :
    chars.flatMap String.utf8EncodeChar =
      read.reverse.flatMap String.utf8EncodeChar ++ bytes := by
  fun_induction decodeStandard read bytes with
  | case1 read =>
      cases h
      simp
  | case2 read a rest ascii ih =>
      rw [ih h, utf8_read_cons, utf8EncodeChar_one ascii]
      rfl
  | case3 read a _ high b rest two ih =>
      obtain ⟨low, hb⟩ : 0xC2 ≤ a ∧ isContinuation b := by simpa using two
      rw [ih h, utf8_read_cons, utf8EncodeChar_two low high hb]
      rfl
  | case6 read a _ _ _ b c rest three ih =>
      obtain ⟨hab, hc⟩ := Bool.and_eq_true_iff.mp three
      rw [ih h, utf8_read_cons, utf8EncodeChar_three hab hc]
      rfl
  | case9 read a _ _ _ b c d rest four ih =>
      obtain ⟨start, hd⟩ := Bool.and_eq_true_iff.mp four
      obtain ⟨hab, hc⟩ := Bool.and_eq_true_iff.mp start
      rw [ih h, utf8_read_cons, utf8EncodeChar_four hab hc hd]
      rfl
  | _ => cases h

section Strings

variable {bytes : List UInt8} {s : String}

theorem decode_encodeStandard (s : String) : decode (encodeStandard s) = some s := by
  rw [decode, encodeStandard, decodeStandard_flatMap]
  simp

/-- A string is read from its modified form and from its standard form, and from
no other bytes. -/
theorem decode_eq_some_iff :
    decode bytes = some s ↔ bytes = encode s ∨ bytes = encodeStandard s := by
  constructor
  · intro h
    unfold decode at h
    split at h
    next chars standard =>
      obtain rfl := Option.some.inj h
      right
      rw [encodeStandard, String.toList_ofList, utf8_of_decodeStandard standard]
      rfl
    next =>
      obtain ⟨chars, modified, rfl⟩ := Option.map_eq_some_iff.mp h
      left
      rw [encode, String.toList_ofList, encode_of_decodeModified modified]
      rfl
  · rintro (rfl | rfl)
    · exact decode_encode s
    · exact decode_encodeStandard s

theorem exists_decode_iff : (∃ s, decode bytes = some s) ↔ PairedForm bytes ∨ IsStandard bytes := by
  rw [pairedForm_iff, IsStandard, ← exists_or]
  exact exists_congr fun s => decode_eq_some_iff

theorem decode_eq_none_iff : decode bytes = none ↔ ¬PairedForm bytes ∧ ¬IsStandard bytes := by
  rw [← not_or, ← exists_decode_iff, ← Option.isSome_iff_exists, Option.not_isSome_iff_eq_none]

/-- Modified UTF-8 is read as the string that it is written from. -/
theorem PairedForm.encode_eq (paired : PairedForm bytes) (read : decode bytes = some s) :
    encode s = bytes :=
  encode_of_decode paired.wellFormed.strict read

theorem IsStandard.encodeStandard_eq (standard : IsStandard bytes) (read : decode bytes = some s) :
    encodeStandard s = bytes := by
  obtain ⟨other, rfl⟩ := standard
  rw [Option.some.inj ((decode_encodeStandard other).symm.trans read)]

end Strings

end ClassFormat.ModifiedUtf8
