import ClassFormat.Proofs.Attribute.Checked
import ClassFormat.Proofs.Attribute.RoundTrip
import ClassFormat.Proofs.ClassFile.RoundTrip
import ClassFormat.Proofs.Constant.Checked

/-!
# Checked reading of class files

The parts of a class file are read one behind the other with checked reads. For
less than `2^32` bytes no check fails, whatever the bytes are, so that a class
file is either read or refused.
-/
namespace ClassFormat.ClassFile

open Attribute Checked

/-- The outcome of reading a class file, unless there is a fault. -/
def Reading.settled? (reading : Reading Stop) : Option Reading :=
  (Checked.settled? reading.result).map fun result => ⟨result, reading.log⟩

def checkedRead (source : Source) : Option Reading := (Decode.read .checked source).settled?

theorem mirrors_header : Cursor.Mirrors id (Decode.header .checked) Header.read := by
  have rest : Cursor.Mirrors id
      (do return ⟨← Cursor.short, ← Cursor.short, ← Cursor.short⟩ : CursorReader Header)
      (do return ⟨← Window.short, ← Window.short, ← Window.short⟩) :=
    .bind Cursor.mirrors_short fun _ => .bind Cursor.mirrors_short fun _ =>
      .bind Cursor.mirrors_short fun _ => .pure
  refine .fields (.bind (Cursor.mirrors_number 4) fun mark => ?_)
  dsimp only [id]
  split
  next => exact .bind (.throw (f := id) _) fun _ => rest
  next => exact rest

theorem mirrors_shortsOnto (count : Nat) (numbers : List UInt16) :
    Cursor.Mirrors id (Decode.shortsOnto .checked count numbers)
      (Decode.shortsOnto .plain count numbers) := by
  induction count generalizing numbers with
  | zero => exact .pure
  | succ count ih => exact .bind Cursor.mirrors_short fun number => ih (number :: numbers)

theorem mirrors_info : Cursor.Mirrors id (Decode.info .checked) Info.read :=
  .fields <| .bind Cursor.mirrors_short fun _ => .bind Cursor.mirrors_short fun _ =>
    .bind Cursor.mirrors_short fun _ => .bind Cursor.mirrors_short fun _ =>
    .bind (mirrors_shortsOnto _ _) fun _ => .pure

theorem mirrors_memberHeader :
    Cursor.Mirrors id (Decode.memberHeader .checked) MemberHeader.read :=
  .fields <| .bind Cursor.mirrors_short fun _ => .bind Cursor.mirrors_short fun _ =>
    .bind Cursor.mirrors_short fun _ => .bind Cursor.mirrors_short fun _ => .pure

section

variable {source : Source} (small : source.size < 2 ^ 32)

include small

theorem inside_of_windowFrom {offset : Nat} {w w' : Window} {bytes : List UInt8}
    (opened : source.windowFrom offset = .ok w) (consumes : w.Consumes bytes w') :
    offset + w'.position ≤ source.size := by
  obtain ⟨inside, opened⟩ := (Source.windowFrom_eq_ok small).mp opened
  obtain ⟨whole, -, -, -, start⟩ := Source.window_eq_ok opened
  have fits := consumes.fits
  rw [Window.length_rest, Window.remaining] at whole
  rw [consumes.position_eq, start]
  omega

theorem mirrors_record {α : Type} {x : CursorReader α} {y : WindowReader α}
    (h : Cursor.Mirrors id x y) :
    (Scope.offsets source Scan.offset).Mirrors id (Decode.record .checked source x)
      (Decode.record .plain source y) := by
  intro s fine
  refine (mirrors_currentOffset source s fine).bind fun offset t run _ => ?_
  obtain ⟨rfl, rfl⟩ := ScanReader.currentOffset_eq_ok.mp run
  refine (Scope.MirrorsAt.answer (Source.cursorFrom_eq small _)).bind fun window t run _ => ?_
  obtain ⟨opened, rfl⟩ := ofExcept_eq_ok.mp run
  have placed := Source.placed_of_windowFrom small opened
  refine (Scope.MirrorsAt.answer (h.same window placed)).bind fun result t run _ => ?_
  obtain ⟨read, rfl⟩ := ofExcept_eq_ok.mp run
  obtain ⟨a, behind⟩ := result
  obtain ⟨bytes, consumes⟩ := h.consumes read
  have length : behind.bare.tell = told id (.ok behind.position) :=
    Window.tell_bare (consumes.placed placed)
  refine (Scope.MirrorsAt.answer length).bind fun n t run _ => ?_
  obtain ⟨same, rfl⟩ := ofExcept_eq_ok.mp run
  cases same
  exact (mirrors_advance small (inside_of_windowFrom small opened consumes)).bind
    fun _ _ _ _ => .pure

theorem mirrors_count :
    (Scope.offsets source Scan.offset).Mirrors id (Decode.count .checked source)
      (readCount source) := by
  intro s fine
  refine (mirrors_currentOffset source s fine).bind fun offset t run _ => ?_
  obtain ⟨rfl, rfl⟩ := ScanReader.currentOffset_eq_ok.mp run
  refine (Scope.MirrorsAt.answer (Source.checkedShort_eq small _)).bind fun count t run _ => ?_
  obtain ⟨read, rfl⟩ := ofExcept_eq_ok.mp run
  have inside := (Source.short_eq_ok.mp read).fits (.inr (by simp [BigEndian.digits]))
  rw [BigEndian.length_digits] at inside
  exact (mirrors_advance small inside).bind fun _ _ _ _ => .pure

/-- A member ends behind its start, since the offset only moves on. -/
theorem mirrors_member (constants : Constant.Pool) (place : FlagPlace) :
    (Scope.offsets source Scan.offset).Mirrors id (Decode.member .checked source constants place)
      (readMember source constants place) := by
  intro s fine
  refine (mirrors_currentOffset source s fine).bind fun start t run _ => ?_
  obtain ⟨rfl, rfl⟩ := ScanReader.currentOffset_eq_ok.mp run
  refine (mirrors_record small mirrors_memberHeader s fine).bind fun header t _ first => ?_
  have fine := Scope.keeps _ fine first
  refine (mirrors_attributes small constants _ t fine).bind fun attributes u _ second => ?_
  have fine := Scope.keeps _ fine second
  refine (mirrors_currentOffset source u fine).bind fun stop v run _ => ?_
  obtain ⟨rfl, rfl⟩ := ScanReader.currentOffset_eq_ok.mp run
  have order : s.offset ≤ u.offset := Nat.le_trans first.1 second.1
  exact .check (sub_eq order) .pure

theorem mirrors_body (constants : Constant.Pool) :
    (Scope.offsets source Scan.offset).Mirrors id (Decode.body .checked source constants)
      (readBody source constants) := by
  refine .bind (mirrors_record small mirrors_info) fun info => ?_
  refine .bind (mirrors_count small) fun fieldCount => ?_
  refine .bind (.collect (mirrors_member small constants .field) _) fun fields => ?_
  refine .bind (mirrors_count small) fun methodCount => ?_
  refine .bind (.collect (mirrors_member small constants .method) _) fun methods => ?_
  refine .bind (mirrors_count small) fun count => ?_
  exact .bind (mirrors_attributes small constants _) fun attributes => .pure

theorem start_checked :
    Decode.start .checked source = told (fun header => (header, Header.size)) (readHeader source) := by
  refine told_bind (Source.cursorFrom_eq small 0) fun w opened => ?_
  have placed := Source.placed_of_windowFrom small opened
  obtain ⟨-, opened⟩ := (Source.windowFrom_eq_ok small).mp opened
  obtain ⟨-, -, -, -, start⟩ := Source.window_eq_ok opened
  refine told_bind (mirrors_header.same w placed) fun ⟨header, w'⟩ read => ?_
  have consumes := Header.read_eq_ok.mp read
  have behind : w'.position = Header.size := by
    rw [consumes.position_eq, start, header.length_encode, Nat.zero_add]
  have length : w'.bare.tell = .ok Header.size :=
    behind ▸ Window.tell_bare (consumes.placed placed)
  change (do return (header, ← w'.bare.tell) : Except Stop (Header × Nat)) = _
  rw [length]
  rfl

theorem inside_of_header {header : Header} (read : readHeader source = .ok header) :
    Header.size ≤ source.size := by
  have inside := ((readHeader_eq_ok small).mp read).fits (.inl (Nat.zero_le _))
  rwa [header.length_encode, Nat.zero_add] at inside

omit small in
theorem closing_checked (body : Body) (pool : Pool) (offset : Nat) :
    Decode.closing .checked source body pool offset =
      told id (Decode.closing .plain source body pool offset) := by
  unfold Decode.closing
  dsimp only
  split
  next h =>
    rw [sub_eq (Nat.le_of_lt h)]
    rfl
  next => rfl

/-- Reading a class file makes no fault. -/
theorem checkedRead_eq : checkedRead source = some (read source) := by
  unfold checkedRead read Decode.read
  rw [start_checked small, start_eq]
  cases start : readHeader source with
  | error e => rfl
  | ok header =>
      have few := header.constantCount.toNat_lt
      have inside := inside_of_header small start
      obtain ⟨-, -, stop⟩ := Constant.Pool.checkedRead_eq small few inside
      dsimp only [told, Except.map]
      rw [Constant.Pool.read_checked small few inside]
      cases reading : Constant.Pool.read source header.constantCount.toNat Header.size with
      | mk result offset log =>
      have read : Constant.Pool.Decode.read .plain source header.constantCount.toNat Header.size =
        ⟨result, offset, log⟩ := reading
      rw [reading] at stop
      rw [read]
      cases result with
      | error e => rfl
      | ok constants =>
          obtain ⟨same, -⟩ := (mirrors_body small constants).inside (s := ⟨{}, offset⟩) stop
          dsimp only [told, id]
          rw [same]
          cases body : readBody source constants ⟨{}, offset⟩ with
          | error e s =>
              have failed : Decode.body .plain source constants ⟨{}, offset⟩ = .error e s := body
              rw [failed]
              rfl
          | ok made s =>
              have run : Decode.body .plain source constants ⟨{}, offset⟩ = .ok made s := body
              obtain ⟨last, closed⟩ := exists_closing source made s.pool s.offset
              rw [run]
              dsimp only [toldIn, id]
              rw [closing_checked, closed]
              rfl

/-- Whatever bytes there are, reading a class file makes no fault, and neither does
reading constants or attributes from an offset inside. The offset does not come
back, and stays inside. -/
theorem reads_faultless :
    checkedRead source = some (read source) ∧
    (∀ (count : UInt16) (offset : Nat), offset ≤ source.size →
      Constant.Pool.checkedRead source count.toNat offset =
          some (Constant.Pool.read source count.toNat offset) ∧
        offset ≤ (Constant.Pool.read source count.toNat offset).offset ∧
        (Constant.Pool.read source count.toNat offset).offset ≤ source.size) ∧
    ∀ (constants : Constant.Pool) (count : Nat) (s : Scan), s.offset ≤ source.size →
      settledIn? (checkedAttributes source constants count s) =
          some (readAttributes source constants count s) ∧
        s.offset ≤ (stateAfter (readAttributes source constants count) s).offset ∧
        (stateAfter (readAttributes source constants count) s).offset ≤ source.size := by
  refine ⟨checkedRead_eq small, fun count offset inside => ?_, fun constants count s inside => ?_⟩
  · exact Constant.Pool.checkedRead_eq small count.toNat_lt inside
  · obtain ⟨same, forward, stop⟩ := (mirrors_attributes small constants count).inside inside
    rw [same, settledIn?_toldIn]
    exact ⟨rfl, forward, stop⟩

end

/-- The sample of a class file, its constants, and the sample of attributes. -/
theorem reads_faultless_samples :
    checkedRead ⟨sampleImage.encode.toArray⟩ = some (read ⟨sampleImage.encode.toArray⟩) ∧
    (read ⟨sampleImage.encode.toArray⟩).result.toOption.isSome ∧
    Constant.Pool.checkedRead ⟨sampleImage.encode.toArray⟩ 6 10 =
      some (Constant.Pool.read ⟨sampleImage.encode.toArray⟩ 6 10) ∧
    settledIn? (checkedAttributes ⟨(encodeTrees sampleTrees).toArray⟩ sampleConstants 4 ⟨{}, 0⟩) =
      some (readAttributes ⟨(encodeTrees sampleTrees).toArray⟩ sampleConstants 4 ⟨{}, 0⟩) := by
  have small : Source.size ⟨sampleImage.encode.toArray⟩ < 2 ^ 32 := by decide +kernel
  have small' : Source.size ⟨(encodeTrees sampleTrees).toArray⟩ < 2 ^ 32 := by decide +kernel
  have start : 10 ≤ Source.size ⟨sampleImage.encode.toArray⟩ := by decide +kernel
  obtain ⟨whole, constants, -⟩ := reads_faultless small
  obtain ⟨-, -, attributes⟩ := reads_faultless small'
  exact ⟨whole, by decide +kernel, (constants 6 10 start).1,
    (attributes sampleConstants 4 ⟨{}, 0⟩ (Nat.zero_le _)).1⟩

end ClassFormat.ClassFile
