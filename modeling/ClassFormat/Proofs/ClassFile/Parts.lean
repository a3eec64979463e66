import ClassFormat.Proofs.ClassFile.Records

/-!
# The parts of a class file

A class file is its source together with three parts: the header, the constants
and the body, which are read one behind the other. Without the source the parts
are those of all files that go on differently behind them.
-/
namespace ClassFormat.ClassFile

open Attribute BigEndian

theorem Header.length_encode (header : Header) : header.encode.length = Header.size := by
  simp [encode, size]

/-- The header at the beginning of a source. -/
def readHeader (source : Source) : Except DecodingError Header := do
  let (header, _) ← Header.read (← source.windowFrom 0)
  return header

/-- Behind a header that was read, the constants begin. -/
theorem start_eq (source : Source) :
    Decode.start .plain source = (readHeader source).map fun header => (header, Header.size) := by
  change (source.windowFrom 0 >>= fun w => Header.read w >>= fun read =>
    Except.ok (read.1, read.2.position)) = (source.windowFrom 0 >>= fun w => Header.read w >>= fun read =>
      Except.ok read.1).map _
  cases opened : source.windowFrom 0 with
  | error e => rfl
  | ok w =>
      simp only [bind, Except.bind]
      cases run : Header.read w with
      | error e => rfl
      | ok read =>
          have behind : read.2.position = Header.size := by
            rw [(Header.read_eq_ok.mp run).position_eq, Source.position_of_windowFrom opened,
              Header.length_encode, Nat.zero_add]
          simp only [Except.map, behind]

theorem readHeader_eq_ok {source : Source} (small : source.size < 2 ^ 32) {header : Header} :
    readHeader source = .ok header ↔ source.Holds 0 header.encode := by
  unfold readHeader
  rw [Except.bind_eq_ok]
  constructor
  · intro h
    obtain ⟨w, opened, h⟩ := h
    obtain ⟨⟨other, w'⟩, run, rfl⟩ := Except.map_eq_ok.mp h
    have front := (Header.read_eq_ok.mp run).front
    rwa [Source.rest_of_windowFrom small opened] at front
  · intro h
    obtain ⟨w, opened, whole, -⟩ := Source.exists_windowFrom small (Nat.zero_le _)
    obtain ⟨tail, front⟩ := h
    obtain ⟨w', consumes, -⟩ := Window.exists_consumes (whole.trans front.symm)
    exact ⟨w, opened, Except.map_eq_ok.mpr ⟨(header, w'), Header.read_eq_ok.mpr consumes, rfl⟩⟩

/-- What was read, and the offset behind it. -/
structure Parts where
  header : Header
  constants : Constant.Pool
  body : Body
  pool : Pool
  stop : Nat

def Parts.classFile (parts : Parts) (source : Source) : ClassFile where
  source := source
  minorVersion := parts.header.minorVersion
  majorVersion := parts.header.majorVersion
  constants := parts.constants
  flags := .ofBits .classFile parts.body.info.flags
  thisClass := parts.body.info.thisClass
  superClass := parts.body.info.superClass
  interfaces := parts.body.info.interfaces
  fields := parts.body.fields
  methods := parts.body.methods
  attributePool := parts.pool
  attributes := parts.body.attributes

/-- The body and the offset behind it. -/
def readBodyAt (source : Source) (constants : Constant.Pool) (offset : Nat) :
    Except DecodingError (Body × Scan) :=
  match readBody source constants ⟨{}, offset⟩ with
  | .ok body s => .ok (body, s)
  | .error e _ => .error e

def readParts (source : Source) : Except DecodingError Parts := do
  let header ← readHeader source
  let reading := Constant.Pool.read source header.constantCount.toNat Header.size
  let constants ← reading.result
  let (body, s) ← readBodyAt source constants reading.offset
  return ⟨header, constants, body, s.pool, s.offset⟩

theorem exists_closing (source : Source) (body : Body) (pool : Pool) (offset : Nat) :
    ∃ last, Decode.closing .plain source body pool offset = .ok last := by
  unfold Decode.closing
  dsimp only
  split <;> exact ⟨_, rfl⟩

theorem ofSource_eq (source : Source) :
    ofSource source = do return (← readParts source).classFile source := by
  unfold ofSource read Decode.read readParts readBodyAt
  rw [start_eq]
  cases readHeader source with
  | error e => rfl
  | ok header =>
      dsimp only [Except.map, bind, Except.bind]
      cases reading : Constant.Pool.read source header.constantCount.toNat Header.size with
      | mk result offset log =>
      have read : Constant.Pool.Decode.read .plain source header.constantCount.toNat Header.size =
        ⟨result, offset, log⟩ := reading
      rw [read]
      cases result with
      | error e => rfl
      | ok constants =>
          dsimp only
          cases body : readBody source constants ⟨{}, offset⟩ with
          | error e s =>
              have failed : Decode.body .plain source constants ⟨{}, offset⟩ = .error e s := body
              rw [failed]
          | ok made s =>
              obtain ⟨last, closed⟩ := exists_closing source made s.pool s.offset
              have run : Decode.body .plain source constants ⟨{}, offset⟩ = .ok made s := body
              rw [run]
              dsimp only
              rw [closed]
              rfl

theorem ofSource_eq_ok {source : Source} {c : ClassFile} :
    ofSource source = .ok c ↔
      ∃ parts, readParts source = .ok parts ∧ parts.classFile source = c := by
  rw [ofSource_eq, Except.map_eq_ok]

theorem ofSource_eq_error {source : Source} {e : DecodingError} :
    ofSource source = .error e ↔ readParts source = .error e := by
  rw [ofSource_eq, Except.map_eq_error]

theorem readBodyAt_eq_ok {source : Source} {constants : Constant.Pool} {offset : Nat} {body : Body}
    {s : Scan} :
    readBodyAt source constants offset = .ok (body, s) ↔
      readBody source constants ⟨{}, offset⟩ = .ok body s := by
  unfold readBodyAt
  cases readBody source constants ⟨{}, offset⟩ with
  | error e t => simp
  | ok other t => simp

theorem readBodyAt_eq_error {source : Source} {constants : Constant.Pool} {offset : Nat}
    {e : DecodingError} :
    readBodyAt source constants offset = .error e ↔
      ∃ s, readBody source constants ⟨{}, offset⟩ = .error e s := by
  unfold readBodyAt
  cases readBody source constants ⟨{}, offset⟩ with
  | error e' t => simp
  | ok body t => simp

theorem readParts_eq_ok {source : Source} {parts : Parts} :
    readParts source = .ok parts ↔
      readHeader source = .ok parts.header ∧
        (Constant.Pool.read source parts.header.constantCount.toNat Header.size).result =
          .ok parts.constants ∧
        readBody source parts.constants ⟨{}, (Constant.Pool.read source
            parts.header.constantCount.toNat Header.size).offset⟩ =
          .ok parts.body ⟨parts.pool, parts.stop⟩ := by
  unfold readParts
  constructor
  · intro h
    obtain ⟨header, first, h⟩ := Except.bind_eq_ok.mp h
    obtain ⟨constants, second, h⟩ := Except.bind_eq_ok.mp h
    obtain ⟨⟨body, s⟩, third, h⟩ := Except.bind_eq_ok.mp h
    cases h
    exact ⟨first, second, readBodyAt_eq_ok.mp third⟩
  · intro h
    obtain ⟨first, second, third⟩ := h
    refine Except.bind_eq_ok.mpr ⟨_, first, Except.bind_eq_ok.mpr ⟨_, second, ?_⟩⟩
    exact Except.bind_eq_ok.mpr ⟨_, readBodyAt_eq_ok.mpr third, rfl⟩

end ClassFormat.ClassFile
