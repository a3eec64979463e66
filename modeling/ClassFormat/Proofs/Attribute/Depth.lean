import ClassFormat.Proofs.Attribute.Scan
import ClassFormat.Proofs.Attribute.Simulation
import ClassFormat.Proofs.Bytes.Checked

/-!
# Counting levels

The readers of attributes with a counter of the lists that are being read in each
other. It is part of the state: a list counts itself in before the first of its
attributes is read, and out again when it ends, failed or not, and none is begun
when the counter is at its limit. Runs may go down `fuel` levels and end in a fault
if that is not enough.

Plain readers have the levels that are left as an argument instead. Counting
mirrors them, and leaves the counter as it was.
-/
namespace ClassFormat

open Checked

/-- A plain read, among computations that may end in a fault. -/
def Window.halting {α : Type} (read : WindowReader α) : StateT Window (Except Stop) α := fun w =>
  told id (read w)

abbrev Reads.halting : Reads Stop Window where
  failure := .failure
  plainly := Checked.plainly
  fit n := .ok n
  add m n := .ok (m + n)
  sub m n := .ok (m - n)
  behind offset n := .ok (saturate (offset + n))
  byteAt source offset := told id (source.byte offset)
  shortAt source offset := told id (source.short offset)
  wordAt source offset := told id (source.word offset)
  slice source offset length := told id (source.slice offset length)
  window source offset length := told id (source.window offset length)
  windowFrom source offset := told id (source.windowFrom offset)
  move _ offset n := .ok (saturate (offset + n))
  number width := Window.halting (Window.number width)
  byte := Window.halting Window.byte
  short := Window.halting Window.short
  word := Window.halting Window.word
  take n := Window.halting (Window.take n)
  takeRest := Window.halting Window.takeRest
  split n := Window.halting (Window.split n)
  fields read w :=
    match read w with
    | .error (.failure (.read _ fault)) => .error (.failure (.read w.offset fault))
    | result => result
  position w := .ok w.position
  offset w := .ok w.offset
  remaining w := .ok w.remaining

namespace Window

variable {α β : Type}

theorem halting_bind (read : WindowReader α) (next : α → WindowReader β) :
    (halting read >>= fun a => halting (next a)) = halting (read >>= next) :=
  funext fun w => told_bind (f := fun r => r) (x := halting read w) rfl fun _ _ => rfl

theorem fields_halting (read : WindowReader α) :
    Reads.halting.fields (halting read) = halting (fields read) := by
  funext w
  have run : Reads.halting.fields (halting read) w =
      match told id (read w) with
      | .error (.failure (.read _ fault)) => .error (.failure (.read w.offset fault))
      | result => result := rfl
  rw [run, halting, fields]
  cases read w with
  | ok r => rfl
  | error e => cases e <;> rfl

end Window

namespace Attribute

open PayloadReader

/-- A state, and how many lists are being read. -/
structure Counted (σ : Type) where
  state : σ
  depth : Nat

abbrev CountedReader (σ α : Type) := EStateM Stop (Counted σ) α

/-- The end of a plain run, with a counter. -/
def endAt {σ α : Type} (depth : Nat) :
    EStateM.Result DecodingError σ α → EStateM.Result Stop (Counted σ) α :=
  toldIn id fun s => ⟨s, depth⟩

namespace Counted

variable {σ ρ α : Type}

/-- A computation that reads no list. -/
def still (x : EStateM Stop σ α) : CountedReader σ α := fun s =>
  match x s.state with
  | .ok a t => .ok a ⟨t, s.depth⟩
  | .error stop t => .error stop ⟨t, s.depth⟩

/-- A computation on a part of the state. -/
def onPart (part : σ → ρ) (put : σ → ρ → σ) (x : CountedReader ρ α) : CountedReader σ α := fun s =>
  match x ⟨part s.state, s.depth⟩ with
  | .ok a r => .ok a ⟨put s.state r.state, r.depth⟩
  | .error stop r => .error stop ⟨put s.state r.state, r.depth⟩

def onPayload (window : Window) (read : CountedReader Payload α) :
    CountedReader Pool (α × Window) := fun s =>
  match read ⟨⟨s.state, window⟩, s.depth⟩ with
  | .ok a r => .ok (a, r.state.window) ⟨r.state.pool, r.depth⟩
  | .error stop r => .error stop ⟨r.state.pool, r.depth⟩

/-- Counts in and, whatever happens, out again. -/
def deeper (x : CountedReader σ α) : CountedReader σ α := fun s =>
  match x ⟨s.state, s.depth + 1⟩ with
  | .ok a r => .ok a ⟨r.state, r.depth - 1⟩
  | .error stop r => .error stop ⟨r.state, r.depth - 1⟩

/-- Begins a list if the counter allows for it. -/
def guarded (x : CountedReader Payload α) : CountedReader Payload α := fun s =>
  if s.depth < maxNesting then x s
  else .error (.failure (.nestingTooDeep s.state.window.offset maxNesting)) s

end Counted

open Counted

abbrev countedSteps :
    Steps Stop Window (Counted Payload) (Counted Pool) (Counted Scan) where
  toReads := .halting
  onWindow read := still (PayloadReader.onWindow read)
  ask number := still (PayloadReader.ask number)
  keep act := still (plainly act)
  onPool := onPart Payload.pool fun s pool => { s with pool }
  record _ read := read
  list read := guarded (deeper read)
  deepest := guarded (throw .fault)
  payload _ _ := Counted.onPayload
  currentOffset := still ScanReader.currentOffset
  advance source n := still (ScanReader.advance .halting source n)
  scan := onPart Scan.pool fun s pool => { s with pool }

/-- Reads `count` attributes inside a payload, going down `fuel` levels at most. -/
def countedList (constants : Constant.Pool) :
    Nat → Nat → CountedReader Payload (List (Reference String)) :=
  countedSteps.nestedList constants

def countedSubRecord (constants : Constant.Pool) (fuel : Nat) :
    String → CountedReader Payload (Reference String) :=
  countedSteps.readRecord (countedSteps.readCell (countedList constants fuel))

def countedAttributes (source : Source) (constants : Constant.Pool) :
    Nat → Nat → CountedReader Scan (List (Reference String)) :=
  countedSteps.readAttributes source constants

/-- Reads an attribute with so many levels of lists to go. -/
def readAttributeWithin (source : Source) (constants : Constant.Pool) :
    Nat → ScanReader (Reference String) :=
  steps.readAttribute source constants

/-- States with this counter. -/
def counting (σ : Type) (depth : Nat) : Scope σ (Counted σ) where
  bare s := ⟨s, depth⟩
  fine _ := True
  moves _ _ := True
  refl _ := trivial
  trans _ _ := trivial
  keeps _ _ := trivial

namespace Counted

variable {σ ρ α : Type} {depth : Nat}

theorem mirrors_counting {x : CountedReader σ α} {y : EStateM DecodingError σ α} :
    (counting σ depth).Mirrors id x y ↔ ∀ s, x ⟨s, depth⟩ = endAt depth (y s) := by
  constructor
  · intro h s
    exact (h s trivial).same
  · intro h s _
    exact ⟨h s, trivial⟩

theorem mirrors_still {x : EStateM Stop σ α} {y : EStateM DecodingError σ α}
    (h : Scope.free.Mirrors id x y) : (counting σ depth).Mirrors id (still x) y := by
  rw [mirrors_counting]
  intro s
  have same : x s = toldIn id id (y s) := (h s trivial).same
  unfold still
  rw [same]
  cases y s <;> rfl

theorem mirrors_answer (result : Except DecodingError α) :
    (counting σ depth).Mirrors id (ofExcept (told id result)) (ofExcept result) :=
  fun _ _ => .answer rfl

theorem mirrors_window (read : WindowReader α) :
    (counting Payload depth).Mirrors id (countedSteps.onWindow (Window.halting read))
      (onWindow read) := by
  rw [mirrors_counting]
  rintro ⟨pool, window⟩
  change still (onWindow (Window.halting read)) _ = _
  unfold still onWindow Window.halting
  dsimp only
  cases read window <;> rfl

theorem mirrors_number (number : Window → Nat) :
    (counting Payload depth).Mirrors id (countedSteps.ask fun w => .ok (number w))
      (ask fun w => .ok (number w)) :=
  mirrors_counting.mpr fun _ => rfl

theorem decode_halting : Header.decode .halting = Window.halting Header.read := by
  have fields : (do
      let nameIndex ← Window.halting Window.short
      let length ← Window.halting Window.word
      return ⟨nameIndex, length⟩ : StateT Window (Except Stop) Header) =
      Window.halting (do return ⟨← Window.short, ← Window.word⟩) := by
    change (Window.halting Window.short >>= fun nameIndex => Window.halting Window.word >>=
      fun length => Window.halting (pure (Header.mk nameIndex length))) = _
    simp only [Window.halting_bind]
  exact (congrArg Reads.halting.fields fields).trans (Window.fields_halting _)

/-- A list that counts itself in and out is mirrored if its attributes are, one
level deeper. -/
theorem mirrors_deeper {x : CountedReader σ α} {y : EStateM DecodingError σ α}
    (h : (counting σ (depth + 1)).Mirrors id x y) : (counting σ depth).Mirrors id (deeper x) y := by
  rw [mirrors_counting] at h ⊢
  intro s
  unfold deeper
  rw [h s]
  cases y s <;> rfl

theorem mirrors_onPool {x : CountedReader Pool α} {y : EStateM DecodingError Pool α}
    (h : (counting Pool depth).Mirrors id x y) :
    (counting Payload depth).Mirrors id (countedSteps.onPool x) (onPool y) := by
  rw [mirrors_counting] at h ⊢
  rintro ⟨pool, window⟩
  change onPart Payload.pool (fun s pool => { s with pool }) x ⟨⟨pool, window⟩, depth⟩ = _
  unfold onPart onPool
  dsimp only
  rw [h pool]
  cases y pool <;> rfl

theorem mirrors_scan {x : CountedReader Pool α} {y : EStateM DecodingError Pool α}
    (h : (counting Pool depth).Mirrors id x y) :
    (counting Scan depth).Mirrors id (countedSteps.scan x) (ScanReader.onPool y) := by
  rw [mirrors_counting] at h ⊢
  rintro ⟨pool, offset⟩
  change onPart Scan.pool (fun s pool => { s with pool }) x ⟨⟨pool, offset⟩, depth⟩ = _
  unfold onPart ScanReader.onPool
  dsimp only
  rw [h pool]
  cases y pool <;> rfl

theorem mirrors_onPayload {x : CountedReader Payload α} {y : PayloadReader α}
    (h : (counting Payload depth).Mirrors id x y) (window : Window) :
    (counting Pool depth).Mirrors id (Counted.onPayload window x) (Pool.onPayload window y) := by
  rw [mirrors_counting] at h ⊢
  intro pool
  unfold Counted.onPayload Pool.onPayload
  rw [h ⟨pool, window⟩]
  cases y ⟨pool, window⟩ <;> rfl

theorem mirrors_kept (act : EStateM DecodingError Pool α) :
    (counting Pool depth).Mirrors id (countedSteps.keep act) act :=
  mirrors_still (Scope.mirrors_free act)

theorem mirrors_sized {x : CountedReader Payload (Nat × Value String)}
    {y : PayloadReader (Nat × Value String)} (h : (counting Payload depth).Mirrors id x y)
    (column : Column String) :
    (counting Payload depth).Mirrors id (countedSteps.readSized column x) (readSized column y) :=
  .bind (mirrors_number _) fun _ => .bind h fun _ => .bind (mirrors_number _) fun _ =>
    Scope.mirrors_check _

theorem mirrors_record {x : Column String → CountedReader Payload (Cell String)}
    {y : Column String → PayloadReader (Cell String)}
    (h : ∀ column, (counting Payload depth).Mirrors id (x column) (y column)) (name : String) :
    (counting Payload depth).Mirrors id (countedSteps.readRecord x name) (readRecord y name) :=
  .bind (mirrors_onPool (mirrors_kept _)) fun _ => .bind (.mapM h _) fun _ =>
    .bind (Scope.mirrors_check _) fun _ => mirrors_onPool (mirrors_kept _)

theorem simulates (depth : Nat) :
    countedSteps.Simulates fun _ => (counting Payload depth).Mirrors id where
  toCompositional := Scope.Mirrors.compositional
  failure := .throw
  number width := mirrors_window (Window.number width)
  byte := mirrors_window Window.byte
  short := mirrors_window Window.short
  word := mirrors_window Window.word
  take n := mirrors_window (Window.take n)
  rest :=
    .bind (mirrors_window Window.takeRest) fun bytes =>
      .bind (mirrors_answer (.ok bytes.length)) fun _ => .pure
  sized := mirrors_sized
  record := mirrors_record

section Lists

variable {x : Nat → CountedReader Payload (List (Reference String))}
  {y : Nat → PayloadReader (List (Reference String))}
  (lists : ∀ count, (counting Payload depth).Mirrors id (x count) (y count))

include lists

theorem mirrors_payload (constants : Constant.Pool) (header : Header) (window : Window) :
    (counting Pool depth).Mirrors id (countedSteps.readPayload constants x header window)
      (readPayload constants y header window) := by
  unfold readPayload Steps.readPayload
  cases constants.utf8 header.nameIndex.toNat with
  | error e => exact .throw _
  | ok name =>
      have record := mirrors_record ((simulates depth).cell lists) name
      have inside := mirrors_onPayload record window
      refine .bind inside fun read => .bind (mirrors_answer (.ok read.2.remaining)) fun left => ?_
      dsimp only [id]
      split
      next =>
        exact .bind (mirrors_answer (.ok read.2.offset)) fun _ =>
          .bind (mirrors_still (Scope.mirrors_free _)) fun _ => .pure
      next => exact .pure

theorem mirrors_nested (constants : Constant.Pool) :
    (counting Payload depth).Mirrors id (countedSteps.readNested constants x)
      (readNested constants y) := by
  unfold readNested Steps.readNested
  rw [decode_halting]
  exact .bind (mirrors_window _) fun header => .bind (mirrors_window _) fun window =>
    mirrors_onPool (mirrors_payload lists constants header window)

end Lists

/-- From a counter on, so many levels of fuel are enough as are left below the
limit. -/
theorem mirrors_countedList (constants : Constant.Pool) {fuel depth : Nat}
    (enough : maxNesting ≤ depth + fuel) (count : Nat) :
    (counting Payload depth).Mirrors id (countedList constants fuel count)
      (nestedList constants (maxNesting - depth) count) := by
  have refused (depth fuel count : Nat) (full : ¬ depth < maxNesting) :
      (counting Payload depth).Mirrors id (countedList constants fuel count)
        (nestedList constants (maxNesting - depth) count) := by
    rw [Nat.sub_eq_zero_of_le (Nat.le_of_not_lt full), mirrors_counting]
    intro s
    cases fuel <;> exact if_neg full
  induction fuel generalizing depth count with
  | zero => exact refused depth 0 count (by omega)
  | succ fuel ih =>
      by_cases below : depth < maxNesting
      · have left : maxNesting - depth = maxNesting - (depth + 1) + 1 := by omega
        have lists (count : Nat) : (counting Payload (depth + 1)).Mirrors id
            (countedList constants fuel count)
            (nestedList constants (maxNesting - (depth + 1)) count) := ih (by omega) count
        have inner := mirrors_deeper (.collect (mirrors_nested lists constants) count)
        rw [mirrors_counting] at inner
        rw [left, mirrors_counting]
        intro s
        exact (if_pos below).trans (inner s)
      · exact refused depth _ count below

/-- Every call from outside ends as the plain one does, and with the counter that
it began with. -/
theorem mirrors_countedAttributes (source : Source) (constants : Constant.Pool) {fuel depth : Nat}
    (enough : maxNesting ≤ depth + fuel) (count : Nat) :
    (counting Scan depth).Mirrors id (countedAttributes source constants fuel count)
      (collect count (readAttributeWithin source constants (maxNesting - depth))) := by
  refine .collect ?_ count
  unfold readAttributeWithin Steps.readAttribute
  rw [decode_halting]
  have here : (counting Scan depth).Mirrors id countedSteps.currentOffset steps.currentOffset :=
    mirrors_counting.mpr fun _ => rfl
  have moves (n : Nat) : (counting Scan depth).Mirrors id (countedSteps.advance source n)
    (steps.advance source n) := mirrors_counting.mpr fun _ => rfl
  refine .bind here fun offset => .bind (mirrors_answer _) fun window => ?_
  refine .bind (mirrors_answer _) fun read => .bind (moves _) fun _ => ?_
  refine .bind here fun start => .bind (mirrors_answer _) fun payload => ?_
  refine .bind (moves _) fun _ => mirrors_scan ?_
  exact mirrors_payload (mirrors_countedList constants enough) constants read.1 payload

end Counted

end Attribute

end ClassFormat
