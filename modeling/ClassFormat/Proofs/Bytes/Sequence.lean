import ClassFormat.Proofs.Bytes.Window

/-!
# Reads in sequence

Any calls, failed or not, take the bytes of a window apart from front to back:
what was answered are the bytes in front of the cursor, in order, and what is left
are those behind it.
-/
namespace ClassFormat.Window

open BigEndian

theorem map_eq_ok {α β : Type} {read : WindowReader α} {f : α → β} {b : β} {w w' : Window} :
    (do return f (← read) : WindowReader β) w = .ok (b, w') ↔
      ∃ a, read w = .ok (a, w') ∧ f a = b := by
  rw [bind_eq_ok]
  constructor
  · rintro ⟨a, v, run, done⟩
    obtain ⟨same, rfl⟩ := pure_eq_ok.mp done
    exact ⟨a, run, same⟩
  · rintro ⟨a, run, same⟩
    exact ⟨a, w', run, pure_eq_ok.mpr ⟨same, rfl⟩⟩

/-- A number is the value of the bytes that come next. -/
theorem number_eq_value {width n : Nat} {w w' : Window} :
    number width w = .ok (n, w') ↔
      ∃ bytes, bytes.length = width ∧ w.Consumes bytes w' ∧ value bytes = n := by
  unfold number
  simp only [map_eq_ok, record_eq_ok, and_assoc]

/-- A call that reads from a window, with its argument. -/
inductive Call where
  | byte
  | short
  | word
  | split (n : Nat)
  | take (n : Nat)
  | takeRest
deriving Repr, DecidableEq

inductive Answer where
  | byte (n : UInt8)
  | short (n : UInt16)
  | word (n : UInt32)
  | bytes (list : List UInt8)
deriving Repr, DecidableEq

/-- The bytes that were answered. -/
def Answer.encode : Answer → List UInt8
  | byte n => digits 1 n.toNat
  | short n => digits 2 n.toNat
  | word n => digits 4 n.toNat
  | bytes list => list

namespace Call

def read : Call → WindowReader Answer
  | byte => do return .byte (← Window.byte)
  | short => do return .short (← Window.short)
  | word => do return .word (← Window.word)
  | split n => do return .bytes (← Window.split n).rest
  | take n => do return .bytes (← Window.take n)
  | takeRest => do return .bytes (← Window.takeRest)

/-- The number of bytes that are asked for. -/
def demand (w : Window) : Call → Nat
  | byte => 1
  | short => 2
  | word => 4
  | split n | take n => n
  | takeRest => w.remaining

/-- What bytes mean for the call. -/
def answer (bytes : List UInt8) : Call → Answer
  | byte => .byte (UInt8.ofNat (value bytes))
  | short => .short (UInt16.ofNat (value bytes))
  | word => .word (UInt32.ofNat (value bytes))
  | split _ | take _ | takeRest => .bytes bytes

variable {call : Call} {w w' : Window} {a : Answer} {bytes : List UInt8}

theorem encode_answer (length : bytes.length = call.demand w) :
    (call.answer bytes).encode = bytes := by
  have bound : value bytes < 256 ^ call.demand w := length ▸ value_lt bytes
  have whole {n : Nat} (same : n = value bytes) : digits (call.demand w) n = bytes := by
    rw [same, ← length, digits_value]
  cases call with
  | byte => exact whole (UInt8.toNat_ofNat_of_lt' bound)
  | short => exact whole (UInt16.toNat_ofNat_of_lt' bound)
  | word => exact whole (UInt32.toNat_ofNat_of_lt' bound)
  | split n | take n | takeRest => rfl

/-- A call answers with the bytes that come next, as many as are asked for. -/
theorem read_eq_ok :
    call.read w = .ok (a, w') ↔
      ∃ bytes, bytes.length = call.demand w ∧ w.Consumes bytes w' ∧ call.answer bytes = a := by
  cases call with
  | byte =>
      simp only [read, Window.byte, map_eq_ok, number_eq_value, demand, answer]
      grind
  | short =>
      simp only [read, Window.short, map_eq_ok, number_eq_value, demand, answer]
      grind
  | word =>
      simp only [read, Window.word, map_eq_ok, number_eq_value, demand, answer]
      grind
  | split n =>
      simp only [read, map_eq_ok, demand, answer]
      constructor
      · rintro ⟨v, run, rfl⟩
        obtain ⟨length, consumes, -⟩ := split_eq_ok run
        exact ⟨v.rest, length, consumes, rfl⟩
      · rintro ⟨bytes, rfl, consumes, rfl⟩
        obtain ⟨v, run, rest, -⟩ := exists_split consumes
        exact ⟨v, run, congrArg Answer.bytes rest⟩
  | take n =>
      simp only [read, map_eq_ok, take_eq_ok, demand, answer, and_assoc]
  | takeRest =>
      simp only [read, map_eq_ok, takeRest_eq_ok, demand, answer]
      refine exists_congr fun bytes => ?_
      rw [← and_assoc]
      refine and_congr_left' ((and_congr_right fun consumes => ?_).trans and_comm)
      rw [← List.length_eq_zero_iff, ← length_rest, consumes.rest_eq, List.length_append]
      omega

/-- It fails exactly when fewer bytes are left. -/
theorem read_eq_error : (∃ e, call.read w = .error e) ↔ w.remaining < call.demand w := by
  constructor
  · rintro ⟨e, failed⟩
    by_contra enough
    have fits : w.cursor + call.demand w ≤ w.stop := by
      have := w.cursor_le_stop
      simp only [remaining] at enough
      omega
    have consumes := consumes_take (call.demand w) fits
    have length : (w.rest.take (call.demand w)).length = call.demand w := by
      rw [List.length_take, length_rest]
      omega
    rw [read_eq_ok.mpr ⟨_, length, consumes, rfl⟩] at failed
    cases failed
  · intro few
    cases run : call.read w with
    | error e => exact ⟨e, rfl⟩
    | ok r =>
        obtain ⟨bytes, length, consumes, -⟩ := read_eq_ok.mp run
        have fits := consumes.fits
        simp only [remaining] at few
        omega

end Call

/-- What leaves the window somewhere in any case, also when it fails. -/
abbrev Attempt := EStateM DecodingError Window

theorem cursor_add_remaining_le (w : Window) : w.cursor + w.remaining ≤ w.stop := by
  have := w.cursor_le_stop
  unfold remaining
  omega

/-- The window with all of its bytes used up. -/
def spent (w : Window) : Window := w.advance w.remaining w.cursor_add_remaining_le

namespace Attempt

/-- Takes `n` bytes one after the other. Where there are fewer, all of them are used
up. -/
def drain (n : Nat) : Attempt (List UInt8) := fun w =>
  if h : w.cursor + n ≤ w.stop then
    .ok (w.content.extract w.cursor (w.cursor + n)).data.toList (w.advance n h)
  else
    .error (.read w.offset .endOfData) w.spent

/-- Puts the window back to where it was if the attempt fails. -/
def restoring {α : Type} (attempt : Attempt α) : Attempt α := fun w =>
  match attempt w with
  | .ok a w' => .ok a w'
  | .error e _ => .error e w

/-- A number, of which the bytes are drained. -/
def number (width : Nat) : Attempt Nat :=
  restoring do return value (← drain width)

def byte : Attempt UInt8 := do
  return UInt8.ofNat (← number 1)

def short : Attempt UInt16 := do
  return UInt16.ofNat (← number 2)

def word : Attempt UInt32 := do
  return UInt32.ofNat (← number 4)

/-- The next `n` bytes as a range, which is looked for before the window moves. -/
def slice (n : Nat) : Attempt (List UInt8) := fun w =>
  if h : w.cursor + n ≤ w.stop then
    .ok (w.content.extract w.cursor (w.cursor + n)).data.toList (w.advance n h)
  else .error (.outOfBounds w.offset n w.size) w

def rest : Attempt (List UInt8) := fun w => .ok w.rest w.spent

/-- How an attempt ends that leaves the window where it is when it fails. -/
def ending {α : Type} (w : Window) :
    Except DecodingError (α × Window) → EStateM.Result DecodingError Window α
  | .ok (a, w') => .ok a w'
  | .error e => .error e w

theorem number_eq (width : Nat) (w : Window) :
    number width w = ending w (Window.number width w) := by
  change restoring (EStateM.bind (drain width) fun bytes => pure (value bytes)) w =
    ending w (record width w >>= fun r => pure (value r.1, r.2))
  simp only [restoring, EStateM.bind, drain, record]
  by_cases h : w.cursor + width ≤ w.stop
  · rw [dif_pos h, dif_pos h]
    rfl
  · rw [dif_neg h, dif_neg h]
    rfl

theorem slice_eq (n : Nat) (w : Window) : slice n w = ending w (Window.take n w) := by
  change slice n w = ending w (Window.split n w >>= fun r => pure (r.1.rest, r.2))
  simp only [slice, Window.split]
  by_cases h : w.cursor + n ≤ w.stop
  · rw [dif_pos h, dif_pos h]
    rfl
  · rw [dif_neg h, dif_neg h]
    rfl

theorem map_ending {α β : Type} {attempt : Attempt α} {read : WindowReader α} {w : Window}
    (h : attempt w = ending w (read w)) (f : α → β) :
    (do return f (← attempt) : Attempt β) w = ending w ((do return f (← read)) w) := by
  change EStateM.bind attempt (fun a => pure (f a)) w =
    ending w (read w >>= fun r => pure (f r.1, r.2))
  rw [EStateM.bind, h]
  cases read w <;> rfl

end Attempt

/-- What the call does to the window, step by step. -/
def Call.perform : Call → Attempt Answer
  | byte => do return .byte (← Attempt.byte)
  | short => do return .short (← Attempt.short)
  | word => do return .word (← Attempt.word)
  | split n => do return .bytes (← Attempt.slice n)
  | take n => do return .bytes (← Attempt.slice n)
  | takeRest => do return .bytes (← Attempt.rest)

/-- Wherever a failing call may have been, it ends where it began. -/
theorem Call.perform_eq (call : Call) (w : Window) :
    call.perform w = Attempt.ending w (call.read w) := by
  open Attempt in
  cases call with
  | byte => exact map_ending (map_ending (number_eq 1 w) UInt8.ofNat) Answer.byte
  | short => exact map_ending (map_ending (number_eq 2 w) UInt16.ofNat) Answer.short
  | word => exact map_ending (map_ending (number_eq 4 w) UInt32.ofNat) Answer.word
  | split n =>
      have same : (split n).read = (take n).read := by simp [read, Window.take]
      rw [same]
      exact map_ending (slice_eq n w) Answer.bytes
  | take n => exact map_ending (slice_eq n w) Answer.bytes
  | takeRest => rfl

/-- A window that is read from, and what was answered so far. -/
structure Session where
  window : Window
  answers : List Answer := []

namespace Session

/-- The session goes on from wherever the call leaves the window. -/
def next (s : Session) (call : Call) : Session :=
  match call.perform s.window with
  | .ok answer window => ⟨window, s.answers ++ [answer]⟩
  | .error _ window => { s with window }

def run (w : Window) (calls : List Call) : Session := calls.foldl next ⟨w, []⟩

/-- The session has taken apart what its window held at first: the bytes of the
answers, and those that are left. -/
structure Splits (bytes : List UInt8) (base : Nat) (s : Session) : Prop where
  base : s.window.base = base
  position : s.window.position = (s.answers.flatMap Answer.encode).length
  whole : s.answers.flatMap Answer.encode ++ s.window.rest = bytes

variable {s : Session} {bytes : List UInt8} {base : Nat} {call : Call}

theorem next_of_error {e : DecodingError} (failed : call.read s.window = .error e) :
    s.next call = s := by
  rw [next, call.perform_eq, failed]
  rfl

theorem next_of_ok {answer : Answer} {window : Window}
    (run : call.read s.window = .ok (answer, window)) :
    s.next call = ⟨window, s.answers ++ [answer]⟩ := by
  rw [next, call.perform_eq, run]
  rfl

theorem Splits.next (h : s.Splits bytes base) (call : Call) : (s.next call).Splits bytes base := by
  cases run : call.read s.window with
  | error e => rwa [next_of_error run]
  | ok r =>
      obtain ⟨chunk, length, consumes, same⟩ := Call.read_eq_ok.mp run
      have encoded : r.1.encode = chunk := same ▸ Call.encode_answer length
      rw [next_of_ok run]
      constructor
      · rw [consumes.moved]
        exact h.base
      · simp only [List.flatMap_append, List.flatMap_singleton, encoded, List.length_append,
          consumes.position_eq, h.position]
      · rw [List.flatMap_append, List.flatMap_singleton, encoded, List.append_assoc,
          ← consumes.rest_eq, h.whole]

theorem Splits.run (h : s.Splits bytes base) (calls : List Call) :
    (calls.foldl Session.next s).Splits bytes base := by
  induction calls generalizing s with
  | nil => exact h
  | cons call calls ih => exact ih (h.next call)

/-- What the next call does: it succeeds if there are as many bytes as it asks for,
answers with these and moves over them, and otherwise it does nothing. -/
structure Steps (bytes : List UInt8) (s s' : Session) (call : Call) : Prop where
  succeeds : (∃ answer w', call.perform s.window = .ok answer w') ↔
    call.demand s.window ≤ s.window.remaining
  moves : ∀ answer w', call.perform s.window = .ok answer w' →
    s' = ⟨w', s.answers ++ [answer]⟩ ∧
      answer = call.answer ((bytes.drop s.window.position).take (call.demand s.window)) ∧
      w'.position = s.window.position + call.demand s.window
  stays : ∀ e w', call.perform s.window = .error e w' → w' = s.window ∧ s' = s

theorem Splits.rest_eq (h : s.Splits bytes base) :
    s.window.rest = bytes.drop s.window.position := by
  rw [h.position, ← h.whole, List.drop_left]

theorem Splits.steps (h : s.Splits bytes base) (call : Call) :
    Steps bytes s (s.next call) call := by
  have performed := call.perform_eq s.window
  cases run : call.read s.window with
  | ok r =>
      obtain ⟨answer, w'⟩ := r
      rw [run] at performed
      have enough : call.demand s.window ≤ s.window.remaining := by
        rw [← Nat.not_lt, ← Call.read_eq_error, run]
        simp
      obtain ⟨chunk, length, consumes, same⟩ := Call.read_eq_ok.mp run
      refine ⟨iff_of_true ⟨answer, w', performed⟩ enough, fun answer w' other => ?_,
        fun e w' failed => by cases performed.symm.trans failed⟩
      cases performed.symm.trans other
      refine ⟨next_of_ok run, ?_, length ▸ consumes.position_eq⟩
      rw [← h.rest_eq, consumes.rest_eq, ← length, List.take_left, same]
  | error e =>
      rw [run] at performed
      have few : ¬call.demand s.window ≤ s.window.remaining :=
        Nat.not_le.mpr (Call.read_eq_error.mp ⟨e, run⟩)
      refine ⟨iff_of_false ?_ few, fun answer w' other => ?_, fun e w' failed => ?_⟩
      · rintro ⟨answer, w', other⟩
        cases performed.symm.trans other
      · cases performed.symm.trans other
      · cases performed.symm.trans failed
        exact ⟨rfl, next_of_error run⟩

theorem splits_ofArray (bytes : Array UInt8) (base : Nat) :
    Splits bytes.toList base ⟨.ofArray bytes base, []⟩ :=
  ⟨rfl, rfl, rest_ofArray bytes base⟩

end Session

/-- After any calls the window is split at its position. In front of it is what was
answered, and behind it is what the next call goes on with. -/
theorem run_splits (bytes : Array UInt8) (small : bytes.size < 2 ^ 32) (base : Nat)
    (calls : List Call) :
    let s := Session.run (.ofArray bytes base) calls
    s.window.position + s.window.remaining = bytes.size ∧
    s.window.position < 2 ^ 32 ∧ s.window.remaining < 2 ^ 32 ∧
    s.window.offset = min (base + s.window.position) (2 ^ 32 - 1) ∧
    s.answers.flatMap Answer.encode = bytes.toList.take s.window.position ∧
    ∀ call, s.Steps bytes.toList (Session.run (.ofArray bytes base) (calls ++ [call])) call := by
  intro s
  have splits : s.Splits bytes.toList base := (Session.splits_ofArray bytes base).run calls
  have sizes : s.window.position + s.window.remaining = bytes.size := by
    have lengths := congrArg List.length splits.whole
    rw [List.length_append, length_rest, ← splits.position] at lengths
    exact lengths
  refine ⟨sizes, by omega, by omega, ?_, ?_, fun call => ?_⟩
  · rw [offset, splits.base]
    rfl
  · rw [splits.position, ← splits.whole, List.take_left]
  · have later : Session.run (.ofArray bytes base) (calls ++ [call]) = s.next call := by
      rw [Session.run, List.foldl_append]
      rfl
    rw [later]
    exact splits.steps call

/-- Ten bytes. Twice more are asked for than are left. -/
theorem run_splits_tenBytes :
    let bytes : Array UInt8 := #[0, 2, 0, 0, 0, 3, 0x2A, 0xB1, 0, 0xFF]
    let calls : List Call := [.short, .word, .split 2, .take 3, .takeRest, .byte]
    let s := Session.run (.ofArray bytes 100) calls
    bytes.size < 2 ^ 32 ∧
      s.answers = [.short 2, .word 3, .bytes [0x2A, 0xB1], .bytes [0, 0xFF]] ∧
      s.window.position + s.window.remaining = 10 ∧ s.window.offset = 110 ∧
      s.answers.flatMap Answer.encode = bytes.toList.take s.window.position := by
  intro bytes calls s
  have small : bytes.size < 2 ^ 32 := by decide
  have answered : s.answers = [.short 2, .word 3, .bytes [0x2A, 0xB1], .bytes [0, 0xFF]] := by
    decide +kernel
  have position : s.window.position = 10 := by decide +kernel
  obtain ⟨sizes, -, -, offset, answers, -⟩ := run_splits bytes small 100 calls
  refine ⟨small, answered, sizes, ?_, answers⟩
  rw [offset, position]
  rfl

end ClassFormat.Window
