import ClassFormat.Attribute.Decoder
import ClassFormat.Proofs.Computation

/-!
# Decoders that simulate the plain one

A relation of computations that holds of their parts holds of the cells that two
decoders read if it holds of what they ask, of the records they make and of how they
measure.
-/
namespace ClassFormat.Attribute

variable {ε W σ π τ : Type}

/-- The steps relate to the plain ones in all that cells are read by. -/
structure Steps.Simulates (S : Steps ε W σ π τ)
    (R : ∀ α : Type, EStateM ε σ α → PayloadReader α → Prop) : Prop extends Compositional R where
  failure {α : Type} (e : DecodingError) : R α (throw (S.failure e)) (throw e)
  number (width : Nat) :
    R _ (S.onWindow (S.number width)) (PayloadReader.onWindow (Window.number width))
  byte : R _ (S.onWindow S.byte) (PayloadReader.onWindow Window.byte)
  short : R _ (S.onWindow S.short) (PayloadReader.onWindow Window.short)
  word : R _ (S.onWindow S.word) (PayloadReader.onWindow Window.word)
  take (n : Nat) : R _ (S.onWindow (S.take n)) (PayloadReader.onWindow (Window.take n))
  /-- The bytes that are left, and how many. -/
  rest :
    R _
      (do
        let bytes ← S.onWindow S.takeRest
        return (← ofExcept (S.fit bytes.length), .bytes bytes))
      (do
        let bytes ← steps.onWindow Window.takeRest
        return (← ofExcept (steps.fit bytes.length), (.bytes bytes : Value String)))
  sized {x : EStateM ε σ (Nat × Value String)} {y : PayloadReader (Nat × Value String)} :
    R _ x y → ∀ column, R _ (S.readSized column x) (steps.readSized column y)
  record {x : Column String → EStateM ε σ (Cell String)}
    {y : Column String → PayloadReader (Cell String)} :
    (∀ column, R _ (x column) (y column)) → ∀ name, R _ (S.readRecord x name) (steps.readRecord y name)

namespace Steps.Simulates

variable {S : Steps ε W σ π τ} {R : ∀ α : Type, EStateM ε σ α → PayloadReader α → Prop}

theorem plain (law : S.Simulates R) (type : ColumnType) :
    Option.Rel (R _) (S.readPlain type) (steps.readPlain type) := by
  cases type with
  | byte => exact .some (law.bind law.byte fun n => law.pure _)
  | uint16 => exact .some (law.bind law.short fun n => law.pure _)
  | uint32 => exact .some (law.bind law.word fun n => law.pure _)
  | byteArray =>
      refine .some (law.bind law.word fun length => ?_)
      exact law.bind (law.take _) fun bytes => law.pure _
  | shortArray =>
      refine .some (law.bind law.short fun count => ?_)
      exact law.bind (law.collect law.short _) fun numbers => law.pure _
  | raw => exact .some law.rest
  | utf8String | attributes | entries => exact .none

theorem plainCell (law : S.Simulates R) (column : Column String) :
    R _ (S.readPlainCell column) (steps.readPlainCell column) := by
  have plain : Option.Rel (R _) (S.readPlain column.type) (steps.readPlain column.type) :=
    law.plain column.type
  unfold Steps.readPlainCell
  generalize S.readPlain column.type = x at plain
  generalize steps.readPlain column.type = y at plain
  cases plain with
  | some h => exact law.sized h column
  | none => exact law.failure _

theorem entries (law : S.Simulates R) (entry : Entry) :
    R _ (S.readEntries entry) (steps.readEntries entry) := by
  refine law.bind (law.number _) fun count => ?_
  exact law.bind (law.collect (law.record law.plainCell _) _) fun references => law.pure _

/-- Nested lists are read by computations that are related. -/
theorem cell (law : S.Simulates R) {x : Nat → EStateM ε σ (List (Reference String))}
    {y : Nat → PayloadReader (List (Reference String))} (lists : ∀ count, R _ (x count) (y count))
    (column : Column String) : R _ (S.readCell x column) (steps.readCell y column) := by
  have plain := law.plainCell column
  obtain ⟨table, index, name, type⟩ := column
  cases type with
  | attributes =>
      refine law.sized (law.bind law.short fun count => ?_) _
      exact law.bind (lists _) fun references => law.pure _
  | entries entry => exact law.sized (law.entries entry) _
  | _ => exact plain

end Steps.Simulates

end ClassFormat.Attribute
