import ClassFormat.Proofs.Attribute.Follow
import ClassFormat.Proofs.Attribute.RoundTrip

/-!
# How far a list of attributes is read

The offset moves over a header once that is read, and over a payload once that
is found in the source. Both happen before anything of the payload is decoded,
so the headers alone tell where a run has ended, be it successful or not.
-/
namespace ClassFormat.Attribute

open BigEndian

namespace Header

def encode (header : Header) : List UInt8 :=
  digits 2 header.nameIndex.toNat ++ digits 4 header.length.toNat

/-- The number of bytes of an attribute with this header. -/
def span (header : Header) : Nat := size + header.length.toNat

/-- Six bytes are a header, whatever they are. -/
theorem exists_encode {bytes : List UInt8} (len : bytes.length = size) :
    ∃ header : Header, header.encode = bytes := by
  have first : (bytes.take 2).length = 2 := by simp [len, size]
  have second : (bytes.drop 2).length = 4 := by simp [len, size]
  have short := value_lt (bytes.take 2)
  have front := digits_value (bytes.take 2)
  have word := value_lt (bytes.drop 2)
  have back := digits_value (bytes.drop 2)
  rw [first] at short front
  rw [second] at word back
  refine ⟨⟨.ofNat (value (bytes.take 2)), .ofNat (value (bytes.drop 2))⟩, ?_⟩
  rw [encode, UInt16.toNat_ofNat_of_lt' short, UInt32.toNat_ofNat_of_lt' word, front, back,
    List.take_append_drop]

theorem exists_read {w : Window} (len : w.rest.length = size) :
    ∃ header rest, read w = .ok (header, rest) ∧ header.encode = w.rest := by
  obtain ⟨header, whole⟩ := exists_encode len
  have all : w.rest = header.encode ++ [] := by rw [List.append_nil, whole]
  obtain ⟨rest, consumes, -⟩ := Window.exists_consumes all
  exact ⟨header, rest, read_eq_ok.mpr consumes, whole⟩

end Header

/-- The number of bytes of attributes with these headers. -/
def spans (headers : List Header) : Nat := (headers.map Header.span).sum

@[simp] theorem spans_cons (header : Header) (rest : List Header) :
    spans (header :: rest) = header.span + spans rest := by
  simp [spans]

/-- From an offset on, there is an attribute with each of the headers, right
behind the payload of the one before. -/
def Headed (source : Source) : Nat → List Header → Prop
  | _, [] => True
  | offset, header :: rest =>
    source.Holds offset header.encode ∧ offset + header.span ≤ source.size ∧
      Headed source (offset + header.span) rest

/-- Why the attribute at the offset cannot be read, with the error and the state
that are left. -/
inductive StopsAt (source : Source) (constants : Constant.Pool) (s : Scan) :
    DecodingError → Scan → Prop
  | header (missing : source.size < s.offset + Header.size) :
    StopsAt source constants s (.outOfBounds s.offset Header.size source.size) s
  | payload {header : Header} (front : source.Holds s.offset header.encode)
      (missing : source.size < s.offset + header.span) :
    StopsAt source constants s
      (.outOfBounds (s.offset + Header.size) header.length.toNat source.size)
      ⟨s.pool, s.offset + Header.size⟩
  | name {header : Header} {cause : TableError} (front : source.Holds s.offset header.encode)
      (inside : s.offset + header.span ≤ source.size)
      (unknown : constants.utf8 header.nameIndex.toNat = .error cause) :
    StopsAt source constants s (.table cause) ⟨s.pool, s.offset + header.span⟩
  | content {header : Header} {name : String} {payload : Window} {e : DecodingError}
      {left : Payload} (front : source.Holds s.offset header.encode)
      (found : source.window (s.offset + Header.size) header.length.toNat = .ok payload)
      (named : constants.utf8 header.nameIndex.toNat = .ok name)
      (failed : readSubRecord constants name ⟨s.pool, payload⟩ = .error e left) :
    StopsAt source constants s e ⟨left.pool, s.offset + header.span⟩

section Lists

variable {source : Source} {constants : Constant.Pool} {s t : Scan} {e : DecodingError}

/-- The payload fails to be decoded if its name is unknown, or in the record
that it holds. -/
theorem of_readPayload_eq_error {readList : Nat → PayloadReader (List (Reference String))}
    {header : Header} {window : Window} {pool pool' : Pool}
    (failed : readPayload constants readList header window pool = .error e pool') :
    (∃ cause, constants.utf8 header.nameIndex.toNat = .error cause ∧ e = .table cause ∧
        pool' = pool) ∨
      ∃ name left, constants.utf8 header.nameIndex.toNat = .ok name ∧
        readRecord (readCell readList) name ⟨pool, window⟩ = .error e left ∧
          left.pool = pool' := by
  cases named : constants.utf8 header.nameIndex.toNat with
  | error cause =>
      rw [readPayload_of_nameless named] at failed
      cases failed
      exact .inl ⟨cause, rfl, rfl, rfl⟩
  | ok name =>
      rw [readPayload_of_named named] at failed
      rcases bind_eq_error.mp failed with failed | ⟨read, r, -, failed⟩
      · unfold Pool.onPayload at failed
        split at failed
        next => cases failed
        next left run =>
          cases failed
          exact .inr ⟨name, left, rfl, run, rfl⟩
      · unfold noteUnread at failed
        split at failed
        · cases failed
        · cases failed

/-- Behind a header, the payload may be missing or fail to be decoded. -/
theorem StopsAt.of_payload (small : source.size < 2 ^ 32) {header : Header}
    (front : source.Holds s.offset header.encode)
    (failed : (do
      let payload ← ofExcept
        (source.window (← ScanReader.currentOffset) header.length.toNat)
      ScanReader.advance .plain source header.length.toNat
      ScanReader.onPool (readPayload constants (nestedList constants maxNesting) header payload))
        ⟨s.pool, s.offset + Header.size⟩ = .error e t) : StopsAt source constants s e t := by
  rcases bind_eq_error.mp failed with impossible | ⟨_, _, here, failed⟩
  · cases impossible
  cases here
  rcases bind_eq_error.mp failed with ran | ⟨payload, _, ran, failed⟩
  · obtain ⟨lost, rfl⟩ := ofExcept_eq_error.mp ran
    obtain ⟨missing, rfl⟩ := Source.window_eq_error.mp lost
    exact .payload front (by rwa [Header.span, ← Nat.add_assoc])
  obtain ⟨found, rfl⟩ := ofExcept_eq_ok.mp ran
  obtain ⟨-, fits, -⟩ := Source.window_eq_ok found
  rcases bind_eq_error.mp failed with impossible | ⟨_, r, moved, failed⟩
  · cases impossible
  obtain rfl := ScanReader.advance_eq_ok.mp moved
  obtain ⟨failed, behind⟩ := ScanReader.onPool_eq_error.mp failed
  dsimp only at found fits failed behind
  rw [saturate_of_lt (by omega), Nat.add_assoc] at behind
  obtain ⟨pool, offset⟩ := t
  obtain rfl : offset = s.offset + header.span := behind
  rcases of_readPayload_eq_error failed with
    ⟨cause, unknown, rfl, rfl⟩ | ⟨name, left, named, run, rfl⟩
  · exact .name front (by rwa [Header.span, ← Nat.add_assoc]) unknown
  · exact .content front found named run

/-- A run that fails has moved over what it found. -/
theorem readAttribute_stopsAt (small : source.size < 2 ^ 32)
    (failed : readAttribute source constants s = .error e t) : StopsAt source constants s e t := by
  rw [readAttribute_eq] at failed
  rcases bind_eq_error.mp failed with impossible | ⟨_, _, here, failed⟩
  · cases impossible
  cases here
  rcases bind_eq_error.mp failed with ran | ⟨window, _, ran, failed⟩
  · obtain ⟨lost, rfl⟩ := ofExcept_eq_error.mp ran
    obtain ⟨missing, rfl⟩ := Source.window_eq_error.mp lost
    exact .header missing
  obtain ⟨opened, rfl⟩ := ofExcept_eq_ok.mp ran
  obtain ⟨len, inside, holds, -⟩ := Source.window_eq_ok opened
  obtain ⟨header, rest, read, whole⟩ := Header.exists_read len
  rcases bind_eq_error.mp failed with impossible | ⟨_, _, ran, failed⟩
  · rw [ofExcept_eq_error, read] at impossible
    cases impossible.1
  obtain ⟨same, rfl⟩ := ofExcept_eq_ok.mp ran
  cases read.symm.trans same
  rcases bind_eq_error.mp failed with impossible | ⟨_, r, moved, failed⟩
  · cases impossible
  obtain rfl := ScanReader.advance_eq_ok.mp moved
  rw [saturate_of_lt (by omega)] at failed
  exact .of_payload small (whole ▸ holds) failed

/-- The headers of attributes that were read stand one behind the other, each
behind the payload of the one before. -/
theorem exists_headers (small : source.size < 2 ^ 32) {count : Nat}
    {references : List (Reference String)}
    (run : readAttributes source constants count s = .ok references t) :
    ∃ headers, headers.length = count ∧ Headed source s.offset headers ∧
      t.offset = s.offset + spans headers := by
  unfold readAttributes at run
  induction count generalizing s references with
  | zero =>
      obtain ⟨-, rfl⟩ := collect_zero_eq_ok.mp run
      exact ⟨[], rfl, trivial, rfl⟩
  | succ count ih =>
      obtain ⟨reference, r, rest, first, others, rfl⟩ := collect_succ_eq_ok.mp run
      obtain ⟨header, payload, front, found, -, moved⟩ := (readAttribute_run small).mp first
      obtain ⟨-, inside, -⟩ := Source.window_eq_ok found
      rw [Nat.add_assoc] at inside moved
      obtain ⟨headers, len, headed, behind⟩ := ih others
      rw [moved] at headed behind
      refine ⟨header :: headers, by rw [List.length_cons, len], ⟨front, inside, headed⟩, ?_⟩
      rw [behind, spans_cons, Header.span, Nat.add_assoc]

/-- Behind a list that was read, the offset has moved over the headers and the
lengths in them, whatever was in between. A list that fails to be read has all
attributes in front of the failure in the pool, and stops in one of four ways in
the one that follows them. -/
theorem readAttributes_progress (small : source.size < 2 ^ 32) (constants : Constant.Pool)
    (count : Nat) (s : Scan) :
    (∀ references t, readAttributes source constants count s = .ok references t →
      ∃ headers, headers.length = count ∧ Headed source s.offset headers ∧
        t.offset = s.offset + spans headers) ∧
    ∀ e t, readAttributes source constants count s = .error e t →
      ∃ headers references complete, headers.length < count ∧ Headed source s.offset headers ∧
        readAttributes source constants headers.length s = .ok references complete ∧
        complete.offset = s.offset + spans headers ∧
        (∃ trees : List Tree, trees.length = headers.length ∧ TreesFit (Named constants) trees ∧
          source.Holds s.offset (encodeTrees trees) ∧
          TreesStored t.pool.store trees references) ∧
        complete.pool.store.Extends t.pool.store ∧ StopsAt source constants complete e t := by
  constructor
  · intro references t run
    exact exists_headers small run
  · intro e t failed
    obtain ⟨done, references, complete, fewer, run, failed⟩ := collect_eq_error.mp failed
    have failed : readAttribute source constants complete = .error e t := failed
    obtain ⟨headers, rfl, headed, place⟩ := exists_headers small run
    obtain ⟨trees, len, fits, holds, -, stored⟩ := readAttributes_faithful small run
    have evolves := Pool.respected_evolves.readAttribute source constants complete
    rw [stateAfter_of_error failed] at evolves
    exact ⟨headers, references, complete, fewer, headed, run, place,
      ⟨trees, len, fits, holds, stored.mono evolves.grown⟩, evolves.grown,
      readAttribute_stopsAt small failed⟩

end Lists

/-- The sample in front of a header that names an empty slot. -/
def misnamedSource : Source := ⟨(encodeTrees sampleTrees ++ [0, 9, 0, 0, 0, 0]).toArray⟩

/-- The sample is read, and a fifth attribute is not. -/
theorem readAttributes_progress_misnamedSource :
    (∃ references t, readAttributes misnamedSource sampleConstants 4 ⟨{}, 0⟩ = .ok references t ∧
      ∃ headers, headers.length = 4 ∧ Headed misnamedSource 0 headers ∧
        t.offset = 0 + spans headers) ∧
    ∃ e t, readAttributes misnamedSource sampleConstants 5 ⟨{}, 0⟩ = .error e t ∧
      ∃ headers references complete, headers.length < 5 ∧ Headed misnamedSource 0 headers ∧
        readAttributes misnamedSource sampleConstants headers.length ⟨{}, 0⟩ =
          .ok references complete ∧
        complete.offset = 0 + spans headers ∧
        (∃ trees : List Tree, trees.length = headers.length ∧
          TreesFit (Named sampleConstants) trees ∧
          misnamedSource.Holds 0 (encodeTrees trees) ∧
          TreesStored t.pool.store trees references) ∧
        complete.pool.store.Extends t.pool.store ∧
        StopsAt misnamedSource sampleConstants complete e t := by
  have small : misnamedSource.size < 2 ^ 32 := by decide +kernel
  have first : succeeds (readAttributes misnamedSource sampleConstants 4) ⟨{}, 0⟩ = true := by
    decide +kernel
  have second : succeeds (readAttributes misnamedSource sampleConstants 5) ⟨{}, 0⟩ = false := by
    decide +kernel
  obtain ⟨references, t, run⟩ := exists_ok_of_succeeds first
  obtain ⟨e, u, failed⟩ := exists_error_of_succeeds second
  exact ⟨⟨references, t, run,
      (readAttributes_progress small sampleConstants 4 ⟨{}, 0⟩).1 references t run⟩,
    e, u, failed, (readAttributes_progress small sampleConstants 5 ⟨{}, 0⟩).2 e u failed⟩

end ClassFormat.Attribute
