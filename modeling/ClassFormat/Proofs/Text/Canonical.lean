import ClassFormat.Proofs.Text.ModifiedUtf8

/-!
# Strings that have one written form

The decoder of the modified form accepts nothing but what the encoder writes.
The generous first attempt accepts more: raw zero bytes and sequences of four
bytes. Where neither occurs it agrees with the encoder, too.
-/
namespace ClassFormat.ModifiedUtf8

theorem toNat_ofNat {n : Nat} (valid : n < 0xD800 ∨ 0xE000 ≤ n ∧ n < 0x110000) :
    (Char.ofNat n).toNat = n := by
  have scalar : n.isValidChar := by
    rcases valid with low | high
    · exact .inl low
    · exact .inr ⟨Nat.lt_of_lt_of_le (by decide) high.1, high.2⟩
  rw [Char.ofNat, dif_pos scalar]
  rfl

theorem lead_eq {marker n : Nat} {a : UInt8} (h : marker + n = a.toNat) : lead marker n = a := by
  have bound := a.toNat_lt
  rw [← UInt8.toNat_inj, toNat_lead (by omega), h]

theorem continuation_eq {n : Nat} {b : UInt8} (h : isContinuation b)
    (same : n % 64 = b.toNat % 64) : continuation n = b := by
  have range := isContinuation_iff.mp h
  rw [← UInt8.toNat_inj, toNat_continuation]
  omega

theorem encodeChar_one {a : UInt8} (some : a ≠ 0) (low : a < 0x80) :
    encodeChar (Char.ofNat a.toNat) = [a] := by
  have low' : a.toNat < 128 := UInt8.lt_iff_toNat_lt.mp low
  have some' : a.toNat ≠ 0 := fun h => some (UInt8.toNat_inj.mp h)
  rw [encodeChar, toNat_ofNat (by omega)]
  simp [some', low']

theorem encodeChar_two {a b : UInt8} (low : 0xC2 ≤ a) (high : a < 0xE0) (hb : isContinuation b) :
    encodeChar (Char.ofNat (twoBytes a b)) = [a, b] := by
  have low' : 194 ≤ a.toNat := UInt8.le_iff_toNat_le.mp low
  have high' : a.toNat < 224 := UInt8.lt_iff_toNat_lt.mp high
  have value : twoBytes a b = (a.toNat - 192) * 64 + b.toNat % 64 := by
    rw [twoBytes]
    omega
  have first : lead 0xC0 (twoBytes a b / 64) = a := lead_eq (by omega)
  have second : continuation (twoBytes a b) = b := continuation_eq hb (by omega)
  rw [encodeChar, toNat_ofNat (by omega)]
  rw [if_neg (by omega), if_neg (by omega), if_pos (by omega), first, second]

theorem encodeUnit_eq {a b c : UInt8} {n : Nat} (first : n / 4096 + 224 = a.toNat)
    (hb : isContinuation b) (second : n / 64 % 64 = b.toNat % 64) (hc : isContinuation c)
    (third : n % 64 = c.toNat % 64) : encodeUnit n = [a, b, c] := by
  have start : lead 0xE0 (n / 4096) = a := lead_eq (by omega)
  rw [encodeUnit, start, continuation_eq hb second, continuation_eq hc third]

theorem encodeChar_three {a b c : UInt8} (hab : isThreeByteStart a b) (hc : isContinuation c) :
    encodeChar (Char.ofNat (threeBytes a b c)) = [a, b, c] := by
  obtain ⟨lowB, highB, low, high, overlong, surrogate⟩ := isThreeByteStart_iff.mp hab
  have hb : isContinuation b := isContinuation_iff.mpr ⟨lowB, highB⟩
  have value : threeBytes a b c =
      (a.toNat - 224) * 4096 + (b.toNat - 128) * 64 + c.toNat % 64 := by
    rw [threeBytes]
    omega
  have bytes : encodeUnit (threeBytes a b c) = [a, b, c] :=
    encodeUnit_eq (by omega) hb (by omega) hc (by omega)
  rw [encodeChar, toNat_ofNat (by omega)]
  rw [if_neg (by omega), if_neg (by omega), if_neg (by omega), if_pos (by omega), bytes]

theorem encodeChar_six {b c e f : UInt8} (hb : 160 ≤ b.toNat ∧ b.toNat ≤ 175)
    (hc : isContinuation c) (he : 176 ≤ e.toNat ∧ e.toNat ≤ 191) (hf : isContinuation f) :
    encodeChar (Char.ofNat (surrogatePair b c e f)) = [0xED, b, c, 0xED, e, f] := by
  have hb' : isContinuation b := isContinuation_iff.mpr (by omega)
  have he' : isContinuation e := isContinuation_iff.mpr (by omega)
  have value : surrogatePair b c e f =
      0x10000 + ((b.toNat - 160) * 64 + c.toNat % 64) * 1024 +
        ((e.toNat - 176) * 64 + f.toNat % 64) := by
    rw [surrogatePair]
    omega
  have high : encodeUnit (0xD800 + (surrogatePair b c e f - 0x10000) / 1024) = [0xED, b, c] := by
    refine encodeUnit_eq ?_ hb' (by omega) hc (by omega)
    change _ = 237
    omega
  have low : encodeUnit (0xDC00 + (surrogatePair b c e f - 0x10000) % 1024) = [0xED, e, f] := by
    refine encodeUnit_eq ?_ he' (by omega) hf (by omega)
    change _ = 237
    omega
  rw [encodeChar, toNat_ofNat (by omega)]
  rw [if_neg (by omega), if_neg (by omega), if_neg (by omega), if_neg (by omega), high, low]
  rfl

/-- Bytes without zero and without the start of a sequence of four bytes. -/
def Strict (bytes : List UInt8) : Prop :=
  ∀ b ∈ bytes, b ≠ 0 ∧ b < 0xF0

instance (bytes : List UInt8) : Decidable (Strict bytes) :=
  inferInstanceAs (Decidable (∀ b ∈ bytes, b ≠ 0 ∧ b < 0xF0))

theorem encode_read_cons (c : Char) (read : List Char) (rest : List UInt8) :
    (c :: read).reverse.flatMap encodeChar ++ rest =
      read.reverse.flatMap encodeChar ++ (encodeChar c ++ rest) := by
  simp

/-- What is read behind characters is written as those and then the bytes. -/
theorem encode_of_decodeModified {read chars : List Char} {bytes : List UInt8}
    (h : decodeModified read bytes = some chars) :
    chars.flatMap encodeChar = read.reverse.flatMap encodeChar ++ bytes := by
  fun_induction decodeModified read bytes with
  | case1 read =>
      cases h
      simp
  | case2 => cases h
  | case3 read a rest ascii some ih =>
      rw [ih h, encode_read_cons, encodeChar_one some ascii]
      rfl
  | case4 read a _ _ b rest zero ih =>
      obtain ⟨rfl, rfl⟩ : a = 0xC0 ∧ b = 0x80 := by simpa using zero
      rw [ih h, encode_read_cons]
      rfl
  | case5 read a _ high b rest _ two ih =>
      obtain ⟨low, hb⟩ : 0xC2 ≤ a ∧ isContinuation b := by simpa using two
      rw [ih h, encode_read_cons, encodeChar_two low high hb]
      rfl
  | case8 read a _ _ b c rest three ih =>
      obtain ⟨hab, hc⟩ := Bool.and_eq_true_iff.mp three
      rw [ih h, encode_read_cons, encodeChar_three hab hc]
      rfl
  | case9 read a _ _ b c _ d e f rest pair ih =>
      simp only [Bool.and_eq_true, decide_eq_true_eq, UInt8.le_iff_toNat_le] at pair
      obtain ⟨⟨⟨⟨⟨⟨⟨rfl, lowB⟩, highB⟩, hc⟩, rfl⟩, lowE⟩, highE⟩, hf⟩ := pair
      rw [ih h, encode_read_cons, encodeChar_six ⟨lowB, highB⟩ hc ⟨lowE, highE⟩ hf]
      rfl
  | _ => cases h

/-- Standard UTF-8 is the same form as long as no character is NUL and none takes
four bytes. -/
theorem encode_of_decodeStandard {read chars : List Char} {bytes : List UInt8}
    (strict : Strict bytes) (h : decodeStandard read bytes = some chars) :
    chars.flatMap encodeChar = read.reverse.flatMap encodeChar ++ bytes := by
  fun_induction decodeStandard read bytes with
  | case1 read =>
      cases h
      simp
  | case2 read a rest ascii ih =>
      have some := (strict a List.mem_cons_self).1
      have later := ih (fun b member => strict b (by simp [member])) h
      rw [later, encode_read_cons, encodeChar_one some ascii]
      rfl
  | case3 read a _ high b rest two ih =>
      obtain ⟨low, hb⟩ : 0xC2 ≤ a ∧ isContinuation b := by simpa using two
      have later := ih (fun b member => strict b (by simp [member])) h
      rw [later, encode_read_cons, encodeChar_two low high hb]
      rfl
  | case6 read a _ _ _ b c rest three ih =>
      obtain ⟨hab, hc⟩ := Bool.and_eq_true_iff.mp three
      have later := ih (fun b member => strict b (by simp [member])) h
      rw [later, encode_read_cons, encodeChar_three hab hc]
      rfl
  | case9 read a _ _ high =>
      have low := (strict a List.mem_cons_self).2
      exact (high low).elim
  | _ => cases h

/-- Bytes without zero and without the start of four bytes are the written form
of the string that they decode to. -/
theorem encode_of_decode {bytes : List UInt8} {s : String} (strict : Strict bytes)
    (h : decode bytes = some s) : encode s = bytes := by
  have written (chars : List Char) : encode (String.ofList chars) = chars.flatMap encodeChar := by
    rw [encode, String.toList_ofList]
  unfold decode at h
  split at h
  next chars standard =>
    obtain rfl := Option.some.inj h
    exact (written chars).trans (encode_of_decodeStandard strict standard)
  next =>
    obtain ⟨chars, modified, rfl⟩ := Option.map_eq_some_iff.mp h
    exact (written chars).trans (encode_of_decodeModified modified)

end ClassFormat.ModifiedUtf8
