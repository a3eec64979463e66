import ClassFormat.Proofs.Attribute.Follow
import ClassFormat.Proofs.ClassFile.RoundTrip
import ClassFormat.Proofs.Constant.Prefix

/-!
# Class files of sources that begin alike

A class file that was read needs the bytes up to the offset behind its last part
and no others. With fewer of them there is none, for want of bytes, and with
more of them there is the same one.
-/
namespace ClassFormat.ClassFile

open Attribute BigEndian

section Records

variable {α : Type} {w : Window}

theorem tame_shortsOnto (count : Nat) (numbers : List UInt16) :
    Window.Tame (Decode.shortsOnto .plain count numbers) := by
  induction count generalizing numbers with
  | zero => exact .pure _
  | succ count ih => exact .bind Window.tame_short fun n => ih (n :: numbers)

theorem tame_info : Window.Tame Info.read :=
  .fields <| .bind Window.tame_short fun _ => .bind Window.tame_short fun _ =>
    .bind Window.tame_short fun _ => .bind Window.tame_short fun _ =>
      .bind (tame_shortsOnto _ _) fun _ => .pure _

theorem tame_memberHeader : Window.Tame MemberHeader.read :=
  .fields <| .bind Window.tame_short fun _ => .bind Window.tame_short fun _ =>
    .bind Window.tame_short fun _ => .bind Window.tame_short fun _ => .pure _

theorem isShort_of_record {source : Source} {read : WindowReader α} (tame : Window.Tame read)
    {s t : Scan} {e : DecodingError} (failed : Decode.record .plain source read s = .error e t) :
    e.isShort := by
  rw [record_eq] at failed
  rcases bind_eq_error.mp failed with impossible | later
  · cases impossible
  obtain ⟨offset, _, -, failed⟩ := later
  rcases bind_eq_error.mp failed with failed | later
  · exact Source.isShort_of_windowFrom (ofExcept_eq_error.mp failed).1
  obtain ⟨w, _, -, failed⟩ := later
  rcases bind_eq_error.mp failed with failed | later
  · exact tame.short (ofExcept_eq_error.mp failed).1
  obtain ⟨_, _, -, impossible⟩ := later
  cases impossible

/-- The first four bytes can be wrong, and everything else only missing. -/
theorem Header.read_eq_error {e : DecodingError} (long : e.isShort = false) :
    Header.read w = .error e ↔
      e = .read w.offset .badMagic ∧
        ∃ mark v, Window.number 4 w = .ok (mark, v) ∧ mark ≠ magic := by
  have behind : Window.Tame (do
      let minorVersion ← Window.short
      let majorVersion ← Window.short
      let constantCount ← Window.short
      return (⟨minorVersion, majorVersion, constantCount⟩ : Header)) :=
    .bind Window.tame_short fun _ => .bind Window.tame_short fun _ =>
      .bind Window.tame_short fun _ => .pure _
  refine Window.fields_eq_error.trans ?_
  constructor
  · intro h
    obtain ⟨cause, run, rfl⟩ := h
    rw [DecodingError.isShort_startingAt] at long
    rcases Window.bind_eq_error.mp run with failed | later
    · cases long.symm.trans ((Window.tame_number 4).short failed)
    obtain ⟨mark, v, first, failed⟩ := later
    by_cases known : mark = magic
    · rw [if_neg (not_not.mpr known)] at failed
      cases long.symm.trans (behind.short failed)
    · rw [if_pos known] at failed
      cases failed
      exact ⟨rfl, mark, v, first, known⟩
  · intro h
    obtain ⟨rfl, mark, v, first, wrong⟩ := h
    refine ⟨.read 0 .badMagic, Window.bind_eq_error.mpr (.inr ⟨mark, v, first, ?_⟩), rfl⟩
    rw [if_pos wrong]
    rfl

end Records

variable {source source' : Source}

theorem readInfo_follows (h : source.Begins source') :
    Follows Eq Eq (Decode.record .plain source Info.read)
      (Decode.record .plain source' Info.read) := by
  refine .of_short (isShort_of_record tame_info) fun run => ?_
  obtain ⟨bound, holds, moved⟩ := (readInfo_eq_ok h.small).mp run
  exact (readInfo_eq_ok h.bound).mpr ⟨bound, h.holds holds, moved⟩

theorem readMemberHeader_follows (h : source.Begins source') :
    Follows Eq Eq (Decode.record .plain source MemberHeader.read)
      (Decode.record .plain source' MemberHeader.read) := by
  refine .of_short (isShort_of_record tame_memberHeader) fun run => ?_
  obtain ⟨holds, moved⟩ := (readMemberHeader_eq_ok h.small).mp run
  exact (readMemberHeader_eq_ok h.bound).mpr ⟨h.holds holds, moved⟩

theorem readCount_follows (h : source.Begins source') :
    Follows Eq Eq (readCount source) (readCount source') :=
  .bind (.refl _) fun offset => .bind (.ofExcept (h.short offset)) fun _ => .refl _

theorem readMember_follows (h : source.Begins source') (constants : Constant.Pool)
    (place : FlagPlace) :
    Follows Eq Eq (readMember source constants place) (readMember source' constants place) :=
  .bind (.refl _) fun _ => .bind (readMemberHeader_follows h) fun header =>
    .bind (readAttributes_follows h constants header.attributeCount.toNat) fun _ => .refl _

theorem readBody_follows (h : source.Begins source') (constants : Constant.Pool) :
    Follows Eq Eq (readBody source constants) (readBody source' constants) :=
  .bind (readInfo_follows h) fun _ =>
    .bind (readCount_follows h) fun fieldCount =>
      .bind (.collect (readMember_follows h constants .field) fieldCount) fun _ =>
        .bind (readCount_follows h) fun methodCount =>
          .bind (.collect (readMember_follows h constants .method) methodCount) fun _ =>
            .bind (readCount_follows h) fun attributeCount =>
              .bind (readAttributes_follows h constants attributeCount) fun _ => .refl _

theorem readHeader_agrees (h : source.Begins source') :
    Agrees Eq (readHeader source) (readHeader source') where
  ok := by
    intro header run
    have holds := h.holds ((readHeader_eq_ok h.small).mp run)
    exact ⟨header, (readHeader_eq_ok h.bound).mpr holds, rfl⟩
  error := by
    intro e failed long
    rcases Except.bind_eq_error.mp failed with failed | later
    · cases long.symm.trans (Source.isShort_of_windowFrom failed)
    · obtain ⟨w, opened, failed⟩ := later
      obtain ⟨rfl, mark, v, run, wrong⟩ :=
        (Header.read_eq_error long).mp (Except.map_eq_error.mp failed)
      obtain ⟨w', opened', whole', -⟩ := Source.exists_windowFrom h.bound (Nat.zero_le _)
      obtain ⟨bound, consumes⟩ := Window.number_eq_ok.mp run
      have holds : source.Holds 0 (digits 4 mark) := by
        rw [Source.Holds, ← Source.rest_of_windowFrom h.small opened]
        exact consumes.front
      obtain ⟨tail, front⟩ := h.holds holds
      obtain ⟨v', consumes', -⟩ := Window.exists_consumes (whole'.trans front.symm)
      have place : w.offset = w'.offset := by
        rw [Source.offset_of_windowFrom h.small opened, Source.offset_of_windowFrom h.bound opened']
      refine Except.bind_eq_error.mpr (.inr ⟨w', opened', Except.map_eq_error.mpr ?_⟩)
      refine (Header.read_eq_error long).mpr ⟨by rw [place], mark, v', ?_, wrong⟩
      exact Window.number_eq_ok.mpr ⟨bound, consumes'⟩

theorem readParts_error (h : source.Begins source') {e : DecodingError}
    (failed : readParts source = .error e) (long : e.isShort = false) :
    readParts source' = .error e := by
  unfold readParts at failed ⊢
  rcases Except.bind_eq_error.mp failed with failed | later
  · exact Except.bind_eq_error.mpr (.inl ((readHeader_agrees h).error failed long))
  obtain ⟨header, first, failed⟩ := later
  obtain ⟨_, first', rfl⟩ := (readHeader_agrees h).ok first
  refine Except.bind_eq_error.mpr (.inr ⟨header, first', ?_⟩)
  rcases Except.bind_eq_error.mp failed with failed | later
  · exact Except.bind_eq_error.mpr (.inl (Constant.Pool.read_error h failed long))
  obtain ⟨constants, second, failed⟩ := later
  obtain ⟨bytes, holds, -, again⟩ := Constant.Pool.read_readsOnly h.small second
  rw [again source' h.bound (h.holds holds)]
  refine Except.bind_eq_error.mpr (.inr ⟨constants, second, ?_⟩)
  rcases Except.bind_eq_error.mp failed with failed | later
  · obtain ⟨s, failed⟩ := readBodyAt_eq_error.mp failed
    have failed' := (readBody_follows h constants).error rfl failed long
    exact Except.bind_eq_error.mpr (.inl (readBodyAt_eq_error.mpr failed'))
  obtain ⟨_, _, impossible⟩ := later
  cases impossible

/-- The parts of a class file depend on the bytes in front of their end alone. -/
theorem readParts_readsOnly (small : source.size < 2 ^ 32) {parts : Parts}
    (run : readParts source = .ok parts) :
    ∃ bytes, source.Holds 0 bytes ∧ parts.stop = bytes.length ∧
      ∀ source' : Source, source'.size < 2 ^ 32 → source'.Holds 0 bytes →
        readParts source' = .ok parts := by
  obtain ⟨first, second, third⟩ := readParts_eq_ok.mp run
  have atHeader := (readHeader_eq_ok small).mp first
  obtain ⟨bytes, atConstants, moved, again⟩ := Constant.Pool.read_readsOnly small second
  obtain ⟨image, fits, atBody, stop, planted⟩ := (readBody_eq_ok small).mp third
  dsimp only at atBody stop planted
  rw [moved] at atBody stop planted
  have len := parts.header.length_encode
  refine ⟨parts.header.encode ++ (bytes ++ image.encode), ?_, ?_, ?_⟩
  · rw [Source.holds_append, Source.holds_append, len, Nat.zero_add]
    exact ⟨atHeader, atConstants, atBody⟩
  · rw [stop, List.length_append, List.length_append, len, Nat.add_assoc]
  · intro source' small' holds
    rw [Source.holds_append, Source.holds_append, len, Nat.zero_add] at holds
    obtain ⟨atHeader', atConstants', atBody'⟩ := holds
    have same := again source' small' atConstants'
    refine readParts_eq_ok.mpr ⟨(readHeader_eq_ok small').mpr atHeader', ?_, ?_⟩
    · rw [same, second]
    · rw [same, moved]
      exact (readBody_eq_ok small').mpr ⟨image, fits, atBody', stop, planted⟩

/-- The offset behind the last part of a class file. -/
def endOffset (source : Source) : Except DecodingError Nat := do
  return (← readParts source).stop

section Lists

variable {b : List UInt8} {c : ClassFile}

theorem ofSource_error {b' : List UInt8} (front : b <+: b') (bound : b'.length < 2 ^ 32)
    {err : DecodingError} (failed : ofSource ⟨b.toArray⟩ = .error err)
    (long : err.isShort = false) : ofSource ⟨b'.toArray⟩ = .error err := by
  have longer : Source.Begins ⟨b.toArray⟩ ⟨b'.toArray⟩ := ⟨front, bound⟩
  exact ofSource_eq_error.mpr (readParts_error longer (ofSource_eq_error.mp failed) long)

/-- All lists that begin with the bytes of a class file are read as this class
file, which ends behind them. -/
theorem exists_bytes_read (small : b.length < 2 ^ 32) (run : ofSource ⟨b.toArray⟩ = .ok c) :
    ∃ bytes, bytes <+: b ∧
      ∀ b' : List UInt8, b'.length < 2 ^ 32 → bytes <+: b' →
        endOffset ⟨b'.toArray⟩ = .ok bytes.length ∧
          ofSource ⟨b'.toArray⟩ = .ok { c with source := ⟨b'.toArray⟩ } := by
  obtain ⟨parts, read, rfl⟩ := ofSource_eq_ok.mp run
  have small : Source.size ⟨b.toArray⟩ < 2 ^ 32 := small
  obtain ⟨bytes, holds, stop, again⟩ := readParts_readsOnly small read
  refine ⟨bytes, holds, fun b' bound front => ?_⟩
  have read' := again ⟨b'.toArray⟩ bound front
  exact ⟨Except.map_eq_ok.mpr ⟨parts, read', stop⟩, ofSource_eq_ok.mpr ⟨parts, read', rfl⟩⟩

theorem isShort_of_take (small : b.length < 2 ^ 32) (run : ofSource ⟨b.toArray⟩ = .ok c)
    {n m : Nat} (stop : endOffset ⟨b.toArray⟩ = .ok n) (few : m < n) :
    ∃ err, ofSource ⟨(b.take m).toArray⟩ = .error err ∧ err.isShort := by
  have front : b.take m <+: b := List.take_prefix m b
  cases run' : ofSource ⟨(b.take m).toArray⟩ with
  | ok c' =>
      have cut : (b.take m).length < 2 ^ 32 := Nat.lt_of_le_of_lt front.length_le small
      obtain ⟨bytes, front', whole⟩ := exists_bytes_read cut run'
      obtain ⟨stop', -⟩ := whole b small (front'.trans front)
      rw [stop'] at stop
      cases stop
      have len := front'.length_le
      rw [List.length_take] at len
      omega
  | error err =>
      cases long : err.isShort with
      | true => exact ⟨err, rfl, long⟩
      | false =>
          rw [ofSource_error front small run' long] at run
          cases run

/-- A class file ends at an offset that says which of its bytes it needs. All
lists of bytes that agree in front of it are read as the same class file, and
all beginnings that stop before it lack bytes. What is wrong with a file for
another reason stays wrong when bytes are added. -/
theorem ofSource_prefix_stable (small : b.length < 2 ^ 32) :
    (∀ c, ofSource ⟨b.toArray⟩ = .ok c →
      ∃ n ≤ b.length, endOffset ⟨b.toArray⟩ = .ok n ∧
        (∀ m, n ≤ m →
          ofSource ⟨(b.take m).toArray⟩ = .ok { c with source := ⟨(b.take m).toArray⟩ }) ∧
        (∀ e, (b ++ e).length < 2 ^ 32 →
          ofSource ⟨(b ++ e).toArray⟩ = .ok { c with source := ⟨(b ++ e).toArray⟩ }) ∧
        ∀ m < n, ∃ err, ofSource ⟨(b.take m).toArray⟩ = .error err ∧ err.isShort) ∧
    ∀ err, ofSource ⟨b.toArray⟩ = .error err → err.isShort = false →
      ∀ e, (b ++ e).length < 2 ^ 32 → ofSource ⟨(b ++ e).toArray⟩ = .error err := by
  constructor
  · intro c run
    obtain ⟨bytes, front, whole⟩ := exists_bytes_read small run
    obtain ⟨stop, -⟩ := whole b small front
    refine ⟨bytes.length, front.length_le, stop, ?_, ?_, ?_⟩
    · intro m enough
      have cut := Nat.lt_of_le_of_lt (List.take_prefix m b).length_le small
      exact (whole _ cut (List.prefix_take_iff.mpr ⟨front, enough⟩)).2
    · intro e bound
      exact (whole _ bound (front.trans (List.prefix_append b e))).2
    · intro m few
      exact isShort_of_take small run stop few
  · intro err failed long e bound
    exact ofSource_error (List.prefix_append b e) bound failed long

end Lists

/-- The sample may be followed by anything and may not be cut. A wrong magic
number stays wrong. -/
theorem ofSource_prefix_stable_sampleImage :
    (∃ c, ofSource ⟨sampleImage.encode.toArray⟩ = .ok c ∧
      (∀ e, (sampleImage.encode ++ e).length < 2 ^ 32 →
        ofSource ⟨(sampleImage.encode ++ e).toArray⟩ =
          .ok { c with source := ⟨(sampleImage.encode ++ e).toArray⟩ }) ∧
      ∀ m < sampleImage.encode.length, ∃ err,
        ofSource ⟨(sampleImage.encode.take m).toArray⟩ = .error err ∧ err.isShort) ∧
    ∀ e : List UInt8, ([0, 0, 0, 0] ++ e).length < 2 ^ 32 →
      ofSource ⟨([0, 0, 0, 0] ++ e).toArray⟩ = .error (.read 0 .badMagic) := by
  have small : sampleImage.encode.length < 2 ^ 32 := by decide +kernel
  have stop : endOffset ⟨sampleImage.encode.toArray⟩ = .ok sampleImage.encode.length := by
    decide +kernel
  have bad : ofSource ⟨([0, 0, 0, 0] : List UInt8).toArray⟩ = .error (.read 0 .badMagic) := by
    rfl
  obtain ⟨parts, read, -⟩ := Except.map_eq_ok.mp stop
  have run := ofSource_eq_ok.mpr ⟨parts, read, rfl⟩
  obtain ⟨n, -, stop', -, longer, shorter⟩ := (ofSource_prefix_stable small).1 _ run
  rw [stop] at stop'
  cases stop'
  exact ⟨⟨_, run, longer, shorter⟩, (ofSource_prefix_stable (by decide)).2 _ bad rfl⟩

end ClassFormat.ClassFile
