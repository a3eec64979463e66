import ClassFormat.Proofs.Attribute.Measure
import ClassFormat.Proofs.Attribute.Simulation
import ClassFormat.Proofs.Lockstep

/-!
# Reading with marks

The readers of attributes, which leave a mark where they begin to decode a record, and
one where they are done with an attribute. The marks are part of the state and nothing
depends on them. So the readers do what the plain ones do, and what heeds the steps of
a read, marks included, holds after every session.
-/
namespace ClassFormat.Attribute

open PayloadReader

/-- What a reader comes by. -/
inductive Mark where
  /-- A record of a name is begun, inside of records of other names, innermost first. -/
  | begun (inside : List String) (name : String)
  /-- An attribute is decoded, whose payload has so many bytes from an offset on. -/
  | done (name : String) (reference : Reference String) (offset length : Nat)
deriving Repr, DecidableEq

/-- A state, and the marks that were left, oldest first. -/
structure Marked (σ : Type) where
  state : σ
  marks : List Mark := []
  /-- The names of the records that are being read, innermost first. -/
  inside : List String := []

abbrev MarkedReader (σ α : Type) := EStateM DecodingError (Marked σ) α

namespace Marked

variable {σ ρ α : Type}

/-- A computation that leaves no mark. -/
def still (y : EStateM DecodingError σ α) : MarkedReader σ α := fun s =>
  match y s.state with
  | .ok a t => .ok a { s with state := t }
  | .error e t => .error e { s with state := t }

def leave (mark : Mark) : MarkedReader σ Unit :=
  modify fun s => { s with marks := s.marks ++ [mark] }

/-- A computation on a part of the state. -/
def onPart (part : σ → ρ) (put : σ → ρ → σ) (x : MarkedReader ρ α) : MarkedReader σ α := fun s =>
  match x ⟨part s.state, s.marks, s.inside⟩ with
  | .ok a r => .ok a ⟨put s.state r.state, r.marks, r.inside⟩
  | .error e r => .error e ⟨put s.state r.state, r.marks, r.inside⟩

def onPayload (window : Window) (read : MarkedReader Payload α) : MarkedReader Pool (α × Window) :=
  fun s =>
    match read ⟨⟨s.state, window⟩, s.marks, s.inside⟩ with
    | .ok a r => .ok (a, r.state.window) ⟨r.state.pool, r.marks, r.inside⟩
    | .error e r => .error e ⟨r.state.pool, r.marks, r.inside⟩

/-- Marks that a record is begun, and is inside of it until it ends, failed or not. -/
def within (name : String) (read : MarkedReader Payload α) : MarkedReader Payload α := fun s =>
  match read ⟨s.state, s.marks ++ [.begun s.inside name], name :: s.inside⟩ with
  | .ok a r => .ok a { r with inside := s.inside }
  | .error e r => .error e { r with inside := s.inside }

/-- A mark, and behind it a computation that leaves none. -/
theorem leave_still {y : EStateM DecodingError σ ρ} {f : ρ → MarkedReader σ α} {s t : σ} {a : ρ}
    (run : y s = .ok a t) (mark : Mark) (marks : List Mark) (inside : List String) :
    (do leave mark; f (← still y)) ⟨s, marks, inside⟩ = f a ⟨t, marks ++ [mark], inside⟩ := by
  have left : leave mark ⟨s, marks, inside⟩ = .ok () ⟨s, marks ++ [mark], inside⟩ := rfl
  have marked : still y ⟨s, marks ++ [mark], inside⟩ = .ok a ⟨t, marks ++ [mark], inside⟩ := by
    rw [still, run]
  rw [bind_of_ok left, bind_of_ok marked]

end Marked

open Marked

abbrev markedSteps :
    Steps DecodingError Window (Marked Payload) (Marked Pool) (Marked Scan) where
  toReads := .plain
  onWindow read := still (onWindow read)
  ask number := still (ask number)
  keep := still
  onPool := onPart Payload.pool fun s pool => { s with pool }
  record := within
  list read := read
  deepest := still steps.deepest
  payload name header window read := do
    let (reference, rest) ← Marked.onPayload window read
    leave (.done name reference window.offset header.length.toNat)
    return (reference, rest)
  currentOffset := still ScanReader.currentOffset
  advance source n := still (ScanReader.advance .plain source n)
  scan := onPart Scan.pool fun s pool => { s with pool }

/-- Nothing is around the records that a call reads itself. -/
def Call.marked : Call → MarkedReader Pool (List (Reference String))
  | attributes source constants count offset =>
    onPart (fun pool => ⟨pool, offset⟩) (fun _ s => s.pool)
      (markedSteps.readAttributes source constants maxNesting count)
  | subAttributes constants count window => do
    let (references, _) ← Marked.onPayload window (markedSteps.nestedList constants maxNesting count)
    return references
  | subRecord constants name window => do
    let (reference, _) ← Marked.onPayload window
      (markedSteps.readRecord (markedSteps.readCell (markedSteps.nestedList constants maxNesting))
        name)
    return [reference]

/-- The pool after calls on a new one, failed or not, and the marks that were left. -/
def Session.marked (calls : List Call) : Marked Pool :=
  calls.foldl (fun s call => stateAfter call.marked s) { state := {} }

theorem Field.size_of_plant {field : Field} {offset : Nat} {column : Column String}
    {cell : Cell String} {s t : Pool} (planted : field.plant offset column s = .ok cell t) :
    cell.size = field.encode.length := by
  cases field with
  | plain field =>
      obtain ⟨rfl, -⟩ := pure_eq_ok.mp planted
      rfl
  | entries entry records =>
      obtain ⟨references, r, -, done⟩ := bind_eq_ok.mp planted
      obtain ⟨rfl, -⟩ := pure_eq_ok.mp done
      rw [Field.encode, List.length_append, BigEndian.length_digits]
  | attributes trees =>
      obtain ⟨references, r, -, done⟩ := bind_eq_ok.mp planted
      obtain ⟨rfl, -⟩ := pure_eq_ok.mp done
      rw [Field.encode, List.length_append, BigEndian.length_digits]

theorem sum_size_of_plantFields {named : Nat → String → Prop} {fields : List Field} {offset : Nat}
    {columns : List (Column String)} {cells : List (Cell String)} {s t : Pool}
    (fits : FieldsFit named fields (columns.map Column.type))
    (planted : plantFields offset fields columns s = .ok cells t) :
    (cells.map Cell.size).sum = (encodeFields fields).length := by
  induction fields generalizing offset columns cells s t with
  | nil =>
      cases columns with
      | nil =>
          obtain ⟨rfl, -⟩ := pure_eq_ok.mp planted
          rfl
      | cons => exact fits.elim
  | cons field fields ih =>
      cases columns with
      | nil => exact fits.elim
      | cons column columns =>
          obtain ⟨cell, r, first, planted⟩ := bind_eq_ok.mp planted
          obtain ⟨others, u, rest, done⟩ := bind_eq_ok.mp planted
          obtain ⟨rfl, -⟩ := pure_eq_ok.mp done
          rw [List.map_cons, List.sum_cons, encodeFields, List.length_append,
            Field.size_of_plant first, ih fits.2.2 rest]

/-- The row of a record that was read is as large as what was read. -/
theorem exists_row_of_readFields {named : Nat → String → Prop} {levels : Nat}
    {readList : Nat → PayloadReader (List (Reference String))}
    (reads : ReadsTrees named levels readList) {name : String} {s t : Payload}
    {reference : Reference String}
    (run : readRecord (readCell readList) name s = .ok reference t) :
    ∃ row, t.pool.resolve reference = .ok row ∧ row.table = name ∧
      t.window.offset = saturate (s.window.offset + row.size) ∧
      row.size + t.window.remaining = s.window.remaining := by
  obtain ⟨fields, ⟨fits, -, -⟩, consumes, planted⟩ := (readFields_eq_ok reads).mp run
  obtain ⟨_, made, _, index, -, cells, -, -, found⟩ := plantRow_stored planted
  have size := sum_size_of_plantFields (columnsOf_structure name ▸ fits) cells
  refine ⟨_, found, rfl, ?_, ?_⟩
  · rw [consumes.offset_eq, ← size]
    rfl
  · rw [consumes.remaining_eq, ← size]
    rfl

/-- A property of pools and the marks left so far, inside of the records that are being
read. It heeds what readers do if every step keeps it. -/
structure Heeds (I : List String → Pool → List Mark → Prop) : Prop where
  begun : ∀ {inside pool marks}, I inside pool marks → ∀ name,
    I (name :: inside) (stateAfter (Pool.openTable name) pool) (marks ++ [.begun inside name])
  outer : ∀ {inside pool marks name}, I (name :: inside) pool marks → I inside pool marks
  added : ∀ {inside pool marks}, I inside pool marks → ∀ name cells,
    I inside (stateAfter (Pool.addRow name cells) pool) marks
  done : ∀ {inside pool marks name reference row offset length}, I inside pool marks →
    pool.resolve reference = .ok row → row.table = name → row.size ≤ length →
      I inside
        (stateAfter (noteUnread name (saturate (offset + row.size)) (length - row.size)) pool)
        (marks ++ [.done name reference offset length])

/-- A state with marks is the plain one inside of these records, and its pool and the
marks have the property. -/
def heeding {σ : Type} (I : List String → Pool → List Mark → Prop) (pool : σ → Pool)
    (inside : List String) : Terms (Marked σ) σ where
  states s t := s.state = t ∧ s.inside = inside ∧ I inside (pool t) s.marks
  excused _ := False
  spent _ := False

/-- The run with marks ends as the plain one does, and keeps the property. -/
abbrev Echoes {σ α : Type} (I : List String → Pool → List Mark → Prop) (pool : σ → Pool)
    (inside : List String) (x : MarkedReader σ α) (y : EStateM DecodingError σ α) : Prop :=
  Lockstep (heeding I pool inside) (Via id) x y

namespace Heeds

variable {I : List String → Pool → List Mark → Prop} {σ α : Type} {pool : σ → Pool}
  {inside : List String}

theorem still {y : EStateM DecodingError σ α} (quiet : ∀ s, pool (stateAfter y s) = pool s) :
    Echoes I pool inside (Marked.still y) y := by
  rintro ⟨s, marks, _⟩ _ ⟨rfl, rfl, known⟩
  have same := quiet s
  unfold Marked.still
  dsimp only
  cases run : y s with
  | ok a t =>
      rw [stateAfter_of_ok run] at same
      exact .ok rfl ⟨rfl, rfl, same ▸ known⟩
  | error e t =>
      rw [stateAfter_of_error run] at same
      exact .error ⟨rfl, rfl, same ▸ known⟩

theorem onWindow (read : WindowReader α) :
    Echoes I Payload.pool inside (markedSteps.onWindow read) (steps.onWindow read) := by
  refine still (y := PayloadReader.onWindow read) fun ⟨pool, window⟩ => ?_
  unfold ClassFormat.stateAfter PayloadReader.onWindow
  dsimp only
  cases read window <;> rfl

theorem ask (number : Window → Nat) :
    Echoes I Payload.pool inside (markedSteps.ask fun w => .ok (number w))
      (steps.ask fun w => .ok (number w)) :=
  still (y := PayloadReader.ask fun w => .ok (number w)) fun _ => rfl

theorem currentOffset : Echoes I Scan.pool inside markedSteps.currentOffset steps.currentOffset :=
  still (y := ScanReader.currentOffset) fun _ => rfl

theorem advance (source : Source) (n : Nat) :
    Echoes I Scan.pool inside (markedSteps.advance source n) (steps.advance source n) :=
  still (y := ScanReader.advance .plain source n) fun _ => rfl

/-- A run on a part that holds the pool. -/
theorem onPart {ρ : Type} {part : σ → ρ} {put : σ → ρ → σ} {inner : ρ → Pool}
    {x : MarkedReader ρ α} {y : EStateM DecodingError ρ α} {plain : EStateM DecodingError σ α}
    (h : Echoes I inner inside x y) (taken : ∀ s, inner (part s) = pool s)
    (kept : ∀ s r, pool (put s r) = inner r)
    (partly : ∀ s, plain s = match y (part s) with
      | .ok a r => .ok a (put s r)
      | .error e r => .error e (put s r)) :
    Echoes I pool inside (Marked.onPart part put x) plain := by
  rintro ⟨s, marks, _⟩ _ ⟨rfl, rfl, known⟩
  rw [← taken] at known
  have runs := h ⟨part s, marks, _⟩ (part s) ⟨rfl, rfl, known⟩
  rw [partly]
  unfold Marked.onPart
  dsimp only
  generalize x ⟨part s, marks, _⟩ = r at runs ⊢
  generalize y (part s) = r' at runs ⊢
  cases runs with
  | ok value same => exact .ok value ⟨by rw [← same.1], same.2.1, by rw [kept]; exact same.2.2⟩
  | error same => exact .error ⟨by rw [← same.1], same.2.1, by rw [kept]; exact same.2.2⟩
  | excused impossible => exact impossible.elim
  | spent impossible => exact impossible.elim

theorem onPayload {x : MarkedReader Payload α} {y : PayloadReader α}
    (h : Echoes I Payload.pool inside x y) (window : Window) :
    Echoes I id inside (Marked.onPayload window x) (Pool.onPayload window y) := by
  rintro ⟨pool, marks, _⟩ _ ⟨rfl, rfl, known⟩
  have runs := h ⟨⟨pool, window⟩, marks, _⟩ ⟨pool, window⟩ ⟨rfl, rfl, known⟩
  unfold Marked.onPayload Pool.onPayload
  dsimp only
  generalize x ⟨⟨pool, window⟩, marks, _⟩ = r at runs ⊢
  generalize y ⟨pool, window⟩ = r' at runs ⊢
  cases runs with
  | ok value same =>
      cases value
      exact .ok (by rw [same.1]; rfl) ⟨by rw [same.1], same.2⟩
  | error same => exact .error ⟨by rw [same.1], same.2⟩
  | excused impossible => exact impossible.elim
  | spent impossible => exact impossible.elim

theorem onPool {x : MarkedReader Pool α} {y : EStateM DecodingError Pool α}
    (h : Echoes I id inside x y) :
    Echoes I Payload.pool inside (markedSteps.onPool x) (PayloadReader.onPool y) := by
  change Echoes I Payload.pool inside (Marked.onPart Payload.pool (fun s pool => { s with pool }) x)
    (PayloadReader.onPool y)
  refine onPart h (fun _ => rfl) (fun _ _ => rfl) fun s => ?_
  obtain ⟨pool, window⟩ := s
  unfold PayloadReader.onPool
  dsimp only
  cases y pool <;> rfl

theorem scanOnPool {x : MarkedReader Pool α} {y : EStateM DecodingError Pool α}
    (h : Echoes I id inside x y) :
    Echoes I Scan.pool inside (markedSteps.scan x) (ScanReader.onPool y) := by
  change Echoes I Scan.pool inside (Marked.onPart Scan.pool (fun s pool => { s with pool }) x)
    (ScanReader.onPool y)
  refine onPart h (fun _ => rfl) (fun _ _ => rfl) fun s => ?_
  obtain ⟨pool, offset⟩ := s
  unfold ScanReader.onPool
  dsimp only
  cases y pool <;> rfl

theorem onScan {x : MarkedReader Scan α} {y : ScanReader α} (h : Echoes I Scan.pool inside x y)
    (offset : Nat) :
    Echoes I id inside (Marked.onPart (fun pool => ⟨pool, offset⟩) (fun _ s => s.pool) x)
      (Pool.onScan offset y) := by
  refine onPart h (fun _ => rfl) (fun _ _ => rfl) fun pool => ?_
  unfold Pool.onScan
  cases y ⟨pool, offset⟩ <;> rfl

/-- The states that both runs end in. -/
theorem stateAfter {x : MarkedReader σ α} {y : EStateM DecodingError σ α} {s : Marked σ} {t : σ}
    (h : Matched (heeding I pool inside) (Via id) (x s) (y t)) :
    (heeding I pool inside).states (ClassFormat.stateAfter x s) (ClassFormat.stateAfter y t) := by
  unfold ClassFormat.stateAfter
  generalize x s = r at h ⊢
  generalize y t = r' at h ⊢
  cases h with
  | ok value same => exact same
  | error same => exact same
  | excused impossible => exact impossible.elim
  | spent impossible => exact impossible.elim

/-- What is known inside of a record is known around it. -/
theorem within (law : Heeds I) {name : String} {x : MarkedReader Payload α} {y : PayloadReader α}
    {payload : Payload} {marks : List Mark}
    (h : Matched (heeding I Payload.pool (name :: inside)) (Via id)
      (x ⟨payload, marks ++ [.begun inside name], name :: inside⟩) (y payload)) :
    Matched (heeding I Payload.pool inside) (Via id)
      (Marked.within name x ⟨payload, marks, inside⟩) (y payload) := by
  unfold Marked.within
  dsimp only
  generalize x ⟨payload, marks ++ [.begun inside name], name :: inside⟩ = r at h ⊢
  generalize y payload = r' at h ⊢
  cases h with
  | ok value same => exact .ok value ⟨same.1, rfl, law.outer same.2.2⟩
  | error same => exact .error ⟨same.1, rfl, law.outer same.2.2⟩
  | excused impossible => exact impossible.elim
  | spent impossible => exact impossible.elim

theorem addRow (law : Heeds I) (name : String) (cells : List (Cell String)) :
    Echoes I id inside (Marked.still (Pool.addRow name cells)) (Pool.addRow name cells) := by
  rintro ⟨pool, marks, _⟩ _ ⟨rfl, rfl, known⟩
  have after := law.added known name cells
  unfold Marked.still
  dsimp only [id] at after ⊢
  cases run : Pool.addRow name cells pool with
  | ok reference later =>
      rw [stateAfter_of_ok run] at after
      exact .ok rfl ⟨rfl, rfl, after⟩
  | error e later =>
      rw [stateAfter_of_error run] at after
      exact .error ⟨rfl, rfl, after⟩

theorem check (result : Except TableError α) :
    Echoes I pool inside (markedSteps.check result) (steps.check result) :=
  .ofExcept _

/-- A record marks that it is begun, and with this its table is there. -/
theorem record (law : Heeds I) {x : Column String → MarkedReader Payload (Cell String)}
    {y : Column String → PayloadReader (Cell String)}
    (cells : ∀ column inside, Echoes I Payload.pool inside (x column) (y column)) (name : String)
    (inside : List String) :
    Echoes I Payload.pool inside (markedSteps.readRecord x name) (steps.readRecord y name) := by
  rintro ⟨⟨pool, window⟩, marks, outer⟩ _ ⟨rfl, same, known⟩
  obtain rfl : inside = outer := same.symm
  obtain ⟨log, opened⟩ := exists_openTable name pool
  have begun := law.begun known name
  rw [stateAfter_of_ok opened] at begun
  refine law.within (.bind (V := Via id) ?_ fun _ _ _ states => ?_)
  · have first : markedSteps.onPool (markedSteps.keep (Pool.openTable name))
        ⟨⟨pool, window⟩, marks ++ [.begun inside name], name :: inside⟩ =
        .ok () ⟨⟨⟨pool.store.ensureTable name (columnsOf name), log⟩, window⟩,
          marks ++ [.begun inside name], name :: inside⟩ := by
      change Marked.onPart Payload.pool (fun s pool => { s with pool })
        (Marked.still (Pool.openTable name)) ⟨⟨pool, window⟩, _, _⟩ = _
      rw [Marked.onPart, Marked.still, opened]
    have plain : steps.onPool (steps.keep (Pool.openTable name)) ⟨pool, window⟩ =
        .ok () ⟨⟨pool.store.ensureTable name (columnsOf name), log⟩, window⟩ := by
      change PayloadReader.onPool (Pool.openTable name) ⟨pool, window⟩ = _
      exact onPool_eq_ok.mpr ⟨opened, rfl⟩
    rw [first, plain]
    exact .ok rfl ⟨rfl, rfl, begun⟩
  · refine Lockstep.bind (.mapM (cells · _) _) (fun made => ?_) _ _ states
    rw [List.map_id]
    exact .bind (check _) fun row => onPool (law.addRow row.table row.cells)

theorem sized {x : MarkedReader Payload (Nat × Value String)}
    {y : PayloadReader (Nat × Value String)} (h : Echoes I Payload.pool inside x y)
    (column : Column String) :
    Echoes I Payload.pool inside (markedSteps.readSized column x) (steps.readSized column y) :=
  .bind (ask _) fun _ => .bind h fun _ => .bind (ask _) fun _ =>
    .bind (.ofExcept (.ok _)) fun _ => check _

theorem simulates (law : Heeds I) :
    markedSteps.Simulates fun _ x y => ∀ inside, Echoes I Payload.pool inside x y where
  pure _ _ := .pure rfl
  bind h next inside := .bind (h inside) fun a => next a inside
  failure e _ := .throw e
  number _ _ := onWindow _
  byte _ := onWindow _
  short _ := onWindow _
  word _ := onWindow _
  take _ _ := onWindow _
  rest _ := .bind (onWindow _) fun _ => .bind (.ofExcept (.ok _)) fun _ => .pure rfl
  sized h column inside := sized (h inside) column
  record := law.record

theorem finish (law : Heeds I) {pool : Pool} {marks : List Mark} (known : I inside pool marks)
    {name : String} {reference : Reference String} {row : Row String} {offset length : Nat}
    (found : pool.resolve reference = .ok row) (table : row.table = name)
    (fits : row.size ≤ length) :
    Matched (heeding I id inside) (Via id)
      ((do
        leave (.done name reference offset length)
        Marked.still (noteUnread name (saturate (offset + row.size)) (length - row.size))
        return reference : MarkedReader Pool (Reference String)) ⟨pool, marks, inside⟩)
      ((do
        noteUnread name (saturate (offset + row.size)) (length - row.size)
        return reference : Planter (Reference String)) pool) := by
  obtain ⟨later, noted⟩ : ∃ later,
      noteUnread name (saturate (offset + row.size)) (length - row.size) pool = .ok () later := by
    unfold noteUnread
    split <;> exact ⟨_, rfl⟩
  have after : I inside later (marks ++ [.done name reference offset length]) := by
    rw [← stateAfter_of_ok noted]
    exact law.done known found table fits
  rw [leave_still noted, bind_of_ok noted]
  exact .ok rfl ⟨rfl, rfl, after⟩

/-- A payload with a name is read as a record of it, and marked as done before what is
left is noted. -/
theorem readPayload_of_named {constants : Constant.Pool}
    {x : Nat → MarkedReader Payload (List (Reference String))} {header : Header} {name : String}
    {window : Window} (named : constants.utf8 header.nameIndex.toNat = .ok name) :
    markedSteps.readPayload constants x header window = (do
      let read ← Marked.onPayload window (markedSteps.readRecord (markedSteps.readCell x) name)
      leave (.done name read.1 window.offset header.length.toNat)
      Marked.still (noteUnread name read.2.offset read.2.remaining)
      return read.1) := by
  unfold Steps.readPayload
  rw [named]
  dsimp only
  rw [bind_assoc]
  refine bind_congr fun read => ?_
  rw [bind_assoc]
  refine bind_congr fun _ => ?_
  change (if 0 < read.2.remaining then _ else _) = _
  by_cases left : 0 < read.2.remaining
  · rw [if_pos left, noteUnread, if_pos left]
    rfl
  · rw [if_neg left, noteUnread, if_neg left]
    rfl

section Lists

variable {x : Nat → MarkedReader Payload (List (Reference String))}
  {y : Nat → PayloadReader (List (Reference String))}
  (lists : ∀ count inside, Echoes I Payload.pool inside (x count) (y count))

include lists

/-- A payload marks that it is decoded, and then notes what its row has left. -/
theorem payload (law : Heeds I) {constants : Constant.Pool} {levels : Nat}
    (reads : ReadsTrees (Named constants) levels y) {header : Header} {window : Window}
    (whole : window.remaining = header.length.toNat) :
    Echoes I id inside (markedSteps.readPayload constants x header window)
      (readPayload constants y header window) := by
  cases named : constants.utf8 header.nameIndex.toNat with
  | error e =>
      rw [readPayload_of_nameless named]
      unfold Steps.readPayload
      rw [named]
      exact .throw _
  | ok name =>
      rw [readPayload_of_named named, Attribute.readPayload_of_named named]
      have record : Echoes I Payload.pool inside
          (markedSteps.readRecord (markedSteps.readCell x) name)
          (readRecord (readCell y) name) := law.record (law.simulates.cell lists) name inside
      intro s t states
      refine (onPayload record window s t states).bind fun {result _ s' t'} _ run told states' => ?_
      cases told
      obtain ⟨reference, rest⟩ := result
      obtain ⟨row, found, table, offset, size⟩ :=
        exists_row_of_readFields reads (onPayload_eq_ok.mp run)
      obtain ⟨pool, marks, _⟩ := s'
      obtain ⟨rfl, rfl, known⟩ := states'
      dsimp only [id] at found offset size whole ⊢
      have left : rest.remaining = header.length.toNat - row.size := by omega
      rw [offset, left]
      exact law.finish known found table (by omega)

theorem nested (law : Heeds I) {constants : Constant.Pool} {levels : Nat}
    (reads : ReadsTrees (Named constants) levels y) :
    Echoes I Payload.pool inside (markedSteps.readNested constants x)
      (readNested constants y) := by
  refine .bind (onWindow _) fun header => (onWindow _).bind_run fun window t t' run => ?_
  obtain ⟨length, -⟩ := Window.split_eq_ok (onWindow_eq_ok.mp run).1
  exact onPool (law.payload lists reads (by rw [← Window.length_rest]; exact length))

end Lists

theorem list (law : Heeds I) (constants : Constant.Pool) (levels count : Nat)
    (inside : List String) :
    Echoes I Payload.pool inside (markedSteps.nestedList constants levels count)
      (nestedList constants levels count) := by
  induction levels generalizing inside count with
  | zero => exact still (y := steps.deepest) fun _ => rfl
  | succ levels ih =>
      have nested : Echoes I Payload.pool inside
          (markedSteps.readNested constants (markedSteps.nestedList constants levels))
          (readNested constants (nestedList constants levels)) :=
        law.nested ih (nestedList_readsTrees constants levels)
      have lists := nested.collect count
      rwa [List.map_id_fun] at lists

theorem scanned (law : Heeds I) (source : Source) (constants : Constant.Pool) :
    Echoes I Scan.pool [] (markedSteps.readAttribute source constants maxNesting)
      (readAttribute source constants) := by
  refine .bind currentOffset fun offset => .bind (.ofExcept _) fun window => ?_
  refine .bind (.ofExcept _) fun read => .bind (advance source _) fun _ => ?_
  refine .bind currentOffset fun start => (Lockstep.ofExcept _).bind_run fun payload t t' run => ?_
  refine .bind (advance source _) fun _ => ?_
  obtain ⟨length, -⟩ := Source.window_eq_ok (ofExcept_eq_ok.mp run).1
  have whole : payload.remaining = read.1.length.toNat := by
    rw [← Window.length_rest]
    exact length
  have reads := nestedList_readsTrees constants maxNesting
  exact scanOnPool (law.payload (law.list constants maxNesting) reads whole)

theorem call (law : Heeds I) (call : Call) : Echoes I id [] call.marked call.run := by
  cases call with
  | attributes source constants count offset =>
      have lists := (law.scanned source constants).collect count
      rw [List.map_id_fun] at lists
      exact onScan lists offset
  | subAttributes constants count window =>
      exact .bind (onPayload (law.list constants maxNesting count []) window) fun _ => .pure rfl
  | subRecord constants name window =>
      have record := law.record (law.simulates.cell (law.list constants maxNesting)) name []
      exact .bind (onPayload record window) fun _ => .pure rfl

/-- Behind any calls, failed or not, the marks are left behind in a pool that is the
plain one. -/
theorem session (law : Heeds I) (start : I [] {} []) (calls : List Call) :
    (Session.marked calls).state = (Session.run calls).pool ∧
      I [] (Session.run calls).pool (Session.marked calls).marks := by
  suffices states : (heeding I id []).states (Session.marked calls) (Session.run calls).pool from
    ⟨states.1, states.2.2⟩
  induction calls using List.reverseRecOn with
  | nil => exact ⟨rfl, rfl, start⟩
  | append_singleton calls call ih =>
      rw [Session.marked, Session.run, List.foldl_append, List.foldl_append, List.foldl_cons,
        List.foldl_cons, List.foldl_nil, List.foldl_nil, ← Session.marked, ← Session.run,
        Session.pool_next]
      exact stateAfter (law.call call _ _ ih)

end Heeds

end ClassFormat.Attribute
