import ClassFormat.ClassFile.Image
import ClassFormat.Proofs.Attribute.Scan

/-!
# The records of a class file

The header, the class itself and the headers of members are read as a whole.
Reading one succeeds exactly when its written form stands at the offset, which
then moves behind it.
-/
namespace ClassFormat.ClassFile

open Attribute BigEndian

def Header.encode (header : Header) : List UInt8 :=
  digits 4 magic ++ (digits 2 header.minorVersion.toNat ++ (digits 2 header.majorVersion.toNat ++
    digits 2 header.constantCount.toNat))

def Info.encode (info : Info) : List UInt8 :=
  digits 2 info.flags.toNat ++ (digits 2 info.thisClass.toNat ++
    (digits 2 info.superClass.toNat ++ (digits 2 info.interfaces.length ++
      info.interfaces.flatMap fun slot => digits 2 slot.toNat)))

def MemberHeader.encode (header : MemberHeader) : List UInt8 :=
  digits 2 header.flags.toNat ++ (digits 2 header.nameIndex.toNat ++
    (digits 2 header.descriptorIndex.toNat ++ digits 2 header.attributeCount.toNat))

section Windows

variable {w w' : Window}

theorem Header.read_eq_ok {header : Header} :
    Header.read w = .ok (header, w') ↔ w.Consumes header.encode w' := by
  unfold Header.encode
  refine Window.fields_eq_ok.trans ?_
  constructor
  · intro h
    obtain ⟨mark, v, first, h⟩ := Window.bind_eq_ok.mp h
    obtain ⟨bound, first⟩ := Window.number_eq_ok.mp first
    by_cases known : mark = magic
    · rw [if_neg (not_not.mpr known)] at h
      obtain ⟨minor, u, second, h⟩ := Window.bind_eq_ok.mp h
      obtain ⟨major, x, third, h⟩ := Window.bind_eq_ok.mp h
      obtain ⟨count, y, fourth, done⟩ := Window.bind_eq_ok.mp h
      obtain ⟨rfl, rfl⟩ := Window.pure_eq_ok.mp done
      rw [known] at first
      exact first.append ((Window.short_eq_ok.mp second).append
        ((Window.short_eq_ok.mp third).append (Window.short_eq_ok.mp fourth)))
    · rw [if_pos known] at h
      cases h
  · intro h
    obtain ⟨v, first, h⟩ := Window.Consumes.append_iff.mp h
    obtain ⟨u, second, h⟩ := Window.Consumes.append_iff.mp h
    obtain ⟨x, third, fourth⟩ := Window.Consumes.append_iff.mp h
    refine Window.bind_eq_ok.mpr ⟨magic, v, Window.number_eq_ok.mpr ⟨by decide, first⟩, ?_⟩
    rw [if_neg (not_not.mpr rfl)]
    refine Window.bind_eq_ok.mpr ⟨_, u, Window.short_eq_ok.mpr second, ?_⟩
    refine Window.bind_eq_ok.mpr ⟨_, x, Window.short_eq_ok.mpr third, ?_⟩
    exact Window.bind_eq_ok.mpr ⟨_, w', Window.short_eq_ok.mpr fourth, rfl⟩

theorem shortsOnto_eq_ok {count : Nat} {read numbers : List UInt16} :
    Decode.shortsOnto .plain count read w = .ok (numbers, w') ↔
      ∃ more, numbers = read.reverse ++ more ∧ more.length = count ∧
        w.Consumes (more.flatMap fun n => digits 2 n.toNat) w' := by
  induction count generalizing w read with
  | zero =>
      unfold Decode.shortsOnto
      rw [Window.pure_eq_ok]
      constructor
      · intro h
        obtain ⟨rfl, rfl⟩ := h
        exact ⟨[], (List.append_nil _).symm, rfl, Window.Consumes.nil_iff.mpr rfl⟩
      · intro h
        obtain ⟨more, rfl, len, consumes⟩ := h
        cases List.length_eq_zero_iff.mp len
        exact ⟨(List.append_nil _).symm, (Window.Consumes.nil_iff.mp consumes).symm⟩
  | succ count ih =>
      unfold Decode.shortsOnto
      rw [Window.bind_eq_ok]
      constructor
      · intro h
        obtain ⟨n, v, first, h⟩ := h
        obtain ⟨more, rfl, len, consumes⟩ := ih.mp h
        refine ⟨n :: more, ?_, by rw [List.length_cons, len], ?_⟩
        · rw [List.reverse_cons, List.append_assoc]
          rfl
        · exact (Window.short_eq_ok.mp first).append consumes
      · intro h
        obtain ⟨more, rfl, len, consumes⟩ := h
        cases more with
        | nil => cases len
        | cons n more =>
            obtain ⟨v, first, rest⟩ := Window.Consumes.append_iff.mp consumes
            refine ⟨n, v, Window.short_eq_ok.mpr first, ih.mpr ⟨more, ?_, Nat.succ.inj len, rest⟩⟩
            rw [List.reverse_cons, List.append_assoc]
            rfl

theorem Info.read_eq_ok {info : Info} :
    Info.read w = .ok (info, w') ↔ info.interfaces.length < 2 ^ 16 ∧ w.Consumes info.encode w' := by
  unfold Info.encode
  refine Window.fields_eq_ok.trans ?_
  simp only [Window.bind_eq_ok, Window.pure_eq_ok, Window.short_eq_ok, shortsOnto_eq_ok,
    Window.Consumes.append_iff]
  constructor
  · intro h
    obtain ⟨flags, v, first, this, u, second, super, x, third, count, y, fourth, slots, z, fifth,
      rfl, rfl⟩ := h
    obtain ⟨more, rfl, len, consumes⟩ := fifth
    dsimp only
    rw [len]
    exact ⟨count.toNat_lt, v, first, u, second, x, third, y, fourth, consumes⟩
  · intro h
    obtain ⟨bound, v, first, u, second, x, third, y, fourth, consumes⟩ := h
    have len : (UInt16.ofNat info.interfaces.length).toNat = info.interfaces.length :=
      UInt16.toNat_ofNat_of_lt' bound
    rw [← len] at fourth
    exact ⟨info.flags, v, first, info.thisClass, u, second, info.superClass, x, third,
      UInt16.ofNat info.interfaces.length, y, fourth, info.interfaces, w',
      ⟨info.interfaces, rfl, len.symm, consumes⟩, rfl, rfl⟩

theorem MemberHeader.read_eq_ok {header : MemberHeader} :
    MemberHeader.read w = .ok (header, w') ↔ w.Consumes header.encode w' := by
  unfold MemberHeader.encode
  refine Window.fields_eq_ok.trans ?_
  simp only [Window.bind_eq_ok, Window.pure_eq_ok, Window.short_eq_ok, Window.Consumes.append_iff]
  constructor
  · intro h
    obtain ⟨flags, v, first, name, u, second, descriptor, x, third, count, y, fourth, rfl, rfl⟩ := h
    exact ⟨v, first, u, second, x, third, fourth⟩
  · intro h
    obtain ⟨v, first, u, second, x, third, fourth⟩ := h
    exact ⟨_, v, first, _, u, second, _, x, third, _, w', fourth, rfl, rfl⟩

end Windows

section Sources

variable {source : Source} {s t : Scan}

theorem record_eq {α : Type} (source : Source) (read : WindowReader α) :
    Decode.record .plain source read = (do
      let window ← ofExcept (source.windowFrom (← ScanReader.currentOffset))
      let (a, window) ← ofExcept (read window)
      ScanReader.advance .plain source window.position
      return a) := rfl

/-- A record is read off its written form, if that is never empty. -/
theorem record_eq_ok (small : source.size < 2 ^ 32) {α : Type} {read : WindowReader α}
    (fine : α → Prop) {encode : α → List UInt8}
    (some : ∀ a, encode a ≠ [])
    (law : ∀ {w w' a}, read w = .ok (a, w') ↔ fine a ∧ w.Consumes (encode a) w') {a : α} :
    Decode.record .plain source read s = .ok a t ↔
      fine a ∧ source.Holds s.offset (encode a) ∧ t = ⟨s.pool, s.offset + (encode a).length⟩ := by
  rw [record_eq]
  simp only [bind_eq_ok, ScanReader.currentOffset_eq_ok, ofExcept_eq_ok,
    ScanReader.advance_eq_ok, pure_eq_ok, Source.windowFrom_eq_ok small]
  constructor
  · intro h
    obtain ⟨_, _, ⟨rfl, rfl⟩, w, _, ⟨opened, rfl⟩, ⟨b, w'⟩, _, ⟨run, rfl⟩, _, _, rfl, rfl, rfl⟩ := h
    obtain ⟨inside, opened⟩ := opened
    obtain ⟨-, -, front, -, start⟩ := Source.window_eq_ok opened
    obtain ⟨good, consumes⟩ := law.mp run
    have holds : source.Holds s.offset (encode b) := consumes.front.trans front
    have fits := holds.fits (.inl inside)
    refine ⟨good, holds, ?_⟩
    dsimp only
    rw [consumes.position_eq, start, Nat.zero_add, saturate_of_lt (by omega)]
  · intro h
    obtain ⟨good, holds, rfl⟩ := h
    have fits := holds.fits (.inr (some a))
    have inside : s.offset ≤ source.size := Nat.le_trans (Nat.le_add_right _ _) fits
    obtain ⟨tail, front⟩ := holds
    obtain ⟨w, opened, whole, start⟩ := Source.exists_windowFrom small inside
    obtain ⟨w', consumes, -⟩ := Window.exists_consumes (whole.trans front.symm)
    have run : read w = .ok (a, w') := law.mpr ⟨good, consumes⟩
    refine ⟨_, s, ⟨rfl, rfl⟩, w, s, ⟨(Source.windowFrom_eq_ok small).mp opened, rfl⟩, (a, w'), s,
      ⟨run, rfl⟩, (), _, rfl, rfl, ?_⟩
    rw [consumes.position_eq, start, Nat.zero_add, saturate_of_lt (by omega)]

theorem readInfo_eq_ok (small : source.size < 2 ^ 32) {info : Info} :
    Decode.record .plain source Info.read s = .ok info t ↔
      info.interfaces.length < 2 ^ 16 ∧ source.Holds s.offset info.encode ∧
        t = ⟨s.pool, s.offset + info.encode.length⟩ :=
  record_eq_ok small (fun info : Info => info.interfaces.length < 2 ^ 16)
    (fun info => by simp [Info.encode, digits]) Info.read_eq_ok

theorem readMemberHeader_eq_ok (small : source.size < 2 ^ 32) {header : MemberHeader} :
    Decode.record .plain source MemberHeader.read s = .ok header t ↔
      source.Holds s.offset header.encode ∧ t = ⟨s.pool, s.offset + header.encode.length⟩ := by
  have some (header : MemberHeader) : header.encode ≠ [] := by simp [MemberHeader.encode, digits]
  rw [record_eq_ok small (fun _ => True) some (by simp [MemberHeader.read_eq_ok]), true_and]

theorem readCount_eq_ok (small : source.size < 2 ^ 32) {count : Nat} :
    readCount source s = .ok count t ↔
      count < 2 ^ 16 ∧ source.Holds s.offset (digits 2 count) ∧ t = ⟨s.pool, s.offset + 2⟩ := by
  unfold readCount Decode.count
  simp only [bind_eq_ok, ScanReader.currentOffset_eq_ok, ofExcept_eq_ok,
    ScanReader.advance_eq_ok, pure_eq_ok, Source.short_eq_ok]
  have moves {n : Nat} (holds : source.Holds s.offset (digits 2 n)) :
      saturate (s.offset + 2) = s.offset + 2 := by
    have fits := holds.fits (.inr (by simp [digits]))
    rw [length_digits] at fits
    exact saturate_of_lt (by omega)
  constructor
  · intro h
    obtain ⟨_, _, ⟨rfl, rfl⟩, n, _, ⟨holds, rfl⟩, _, _, rfl, rfl, rfl⟩ := h
    exact ⟨n.toNat_lt, holds, by rw [moves holds]⟩
  · intro h
    obtain ⟨bound, holds, rfl⟩ := h
    have len : (UInt16.ofNat count).toNat = count := UInt16.toNat_ofNat_of_lt' bound
    rw [← len] at holds
    exact ⟨_, s, ⟨rfl, rfl⟩, UInt16.ofNat count, s, ⟨holds, rfl⟩, (), _, rfl, len,
      by rw [moves holds]⟩

end Sources

end ClassFormat.ClassFile
