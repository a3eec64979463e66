import Mathlib.Algebra.Order.Ring.Nat
import ClassFormat.Bytes.Source
import ClassFormat.Proofs.Computation

/-!
# Checked computations

A checked computation works on bare numbers, and makes sure of every sum, every
difference and every range when it comes to it: it stops at `Stop.fault` where a
number does not fit in four bytes, falls below zero or leaves the bytes at hand.
It mirrors a plain computation if it ends like that one, and so without a fault,
from all the states that a `Scope` calls fine.
-/
namespace ClassFormat

/-- Why a checked computation stops. -/
inductive Stop where
  | fault
  | failure (e : DecodingError)
deriving Repr, DecidableEq

namespace Checked

/-- A number of four bytes. -/
def fit (n : Nat) : Except Stop Nat :=
  if n ≤ maxOffset then .ok n else .error .fault

def add (m n : Nat) : Except Stop Nat := fit (m + n)

def sub (m n : Nat) : Except Stop Nat :=
  if n ≤ m then .ok (m - n) else .error .fault

/-- The bytes from one place up to another. -/
def range (bytes : Array UInt8) (start stop : Nat) : Except Stop (Array UInt8) :=
  if start ≤ stop ∧ stop ≤ bytes.size then .ok (bytes.extract start stop) else .error .fault

/-- The offset behind the next `n` bytes. It must not be less, or behind the last
byte. -/
def move (size offset n : Nat) : Except Stop Nat := do
  let next ← add offset n
  if offset ≤ next ∧ next ≤ size then return next else throw .fault

section Numbers

variable {m n size offset : Nat}

theorem fit_eq (h : n < 2 ^ 32) : fit n = .ok n :=
  if_pos (Nat.le_of_lt_succ h)

theorem add_eq (h : m + n < 2 ^ 32) : add m n = .ok (m + n) := fit_eq h

theorem sub_eq (h : n ≤ m) : sub m n = .ok (m - n) := if_pos h

theorem range_eq {bytes : Array UInt8} {start stop : Nat} (h : start ≤ stop)
    (inside : stop ≤ bytes.size) : range bytes start stop = .ok (bytes.extract start stop) :=
  if_pos ⟨h, inside⟩

theorem move_eq (small : size < 2 ^ 32) (inside : offset + n ≤ size) :
    move size offset n = .ok (offset + n) := by
  have order : offset ≤ offset + n ∧ offset + n ≤ size := ⟨Nat.le_add_right _ _, inside⟩
  simp [move, add_eq (Nat.lt_of_le_of_lt inside small), order, bind, Except.bind, pure, Except.pure]

/-- Two bytes do not follow the third one of four. -/
example : move 4 3 2 = .error .fault := rfl

end Numbers

section Outcomes

variable {σ ρ α β : Type}

/-- The result of a plain computation as that of a checked one. -/
def told (f : α → β) : Except DecodingError α → Except Stop β
  | .ok a => .ok (f a)
  | .error e => .error (.failure e)

/-- The end of a plain run as that of a checked one. -/
def toldIn (f : α → β) (bare : σ → ρ) :
    EStateM.Result DecodingError σ α → EStateM.Result Stop ρ β
  | .ok a s => .ok (f a) (bare s)
  | .error e s => .error (.failure e) (bare s)

/-- A plain computation among checked ones. -/
def plainly (y : EStateM DecodingError σ α) : EStateM Stop σ α :=
  fun s => toldIn id id (y s)

/-- The result, unless there is a fault. -/
def settled? : Except Stop α → Option (Except DecodingError α)
  | .ok a => some (.ok a)
  | .error .fault => none
  | .error (.failure e) => some (.error e)

/-- The end of a run, unless there is a fault. -/
def settledIn? : EStateM.Result Stop σ α → Option (EStateM.Result DecodingError σ α)
  | .ok a s => some (.ok a s)
  | .error .fault _ => none
  | .error (.failure e) s => some (.error e s)

theorem settledIn?_toldIn (result : EStateM.Result DecodingError σ α) :
    settledIn? (toldIn id id result) = some result := by
  cases result <;> rfl

theorem told_bind {γ δ : Type} {f : α → β} {g : γ → δ} {x : Except Stop β}
    {result : Except DecodingError α} {next : β → Except Stop δ}
    {next' : α → Except DecodingError γ} (first : x = told f result)
    (second : ∀ a, result = .ok a → next (f a) = told g (next' a)) :
    (x >>= next) = told g (result >>= next') := by
  subst first
  cases result with
  | ok a => exact second a rfl
  | error e => rfl

end Outcomes

end Checked

open Checked

/-- What a checked state keeps of a plain one, the states that runs may start
from, and where they lead. -/
structure Scope (σ ρ : Type) where
  bare : σ → ρ
  fine : σ → Prop
  moves : σ → σ → Prop
  refl : ∀ s, moves s s
  trans : ∀ {r s t}, moves r s → moves s t → moves r t
  keeps : ∀ {s t}, fine s → moves s t → fine t

namespace Scope

variable {σ ρ α β γ δ : Type} {S : Scope σ ρ} {s : σ}

/-- From this state the checked run ends as the plain one does. -/
structure MirrorsAt (S : Scope σ ρ) (s : σ) (f : α → β) (x : EStateM Stop ρ β)
    (y : EStateM DecodingError σ α) : Prop where
  same : x (S.bare s) = toldIn f S.bare (y s)
  moves : S.moves s (stateAfter y s)

/-- The checked runs end as the plain ones do. -/
def Mirrors (S : Scope σ ρ) (f : α → β) (x : EStateM Stop ρ β) (y : EStateM DecodingError σ α) :
    Prop :=
  ∀ s, S.fine s → S.MirrorsAt s f x y

namespace MirrorsAt

theorem pure {f : α → β} {a : α} : S.MirrorsAt s f (Pure.pure (f a)) (Pure.pure a) :=
  ⟨rfl, S.refl s⟩

theorem throw {f : α → β} (e : DecodingError) :
    S.MirrorsAt s f (MonadExcept.throw (Stop.failure e)) (MonadExcept.throw e) :=
  ⟨rfl, S.refl s⟩

theorem answer {f : α → β} {result : Except Stop β} {result' : Except DecodingError α}
    (h : result = told f result') : S.MirrorsAt s f (ofExcept result) (ofExcept result') := by
  subst h
  cases result' with
  | ok a => exact pure
  | error e => exact throw e

theorem bind {f : α → β} {g : γ → δ} {x : EStateM Stop ρ β} {y : EStateM DecodingError σ α}
    {next : β → EStateM Stop ρ δ} {next' : α → EStateM DecodingError σ γ}
    (first : S.MirrorsAt s f x y)
    (second : ∀ a t, y s = .ok a t → S.moves s t → S.MirrorsAt t g (next (f a)) (next' a)) :
    S.MirrorsAt s g (x >>= next) (y >>= next') := by
  obtain ⟨same, moves⟩ := first
  cases run : y s with
  | ok a t =>
      rw [run] at same
      rw [stateAfter_of_ok run] at moves
      obtain ⟨same', moves'⟩ := second a t run moves
      constructor
      · change EStateM.bind x next (S.bare s) = toldIn g S.bare (EStateM.bind y next' s)
        simp only [EStateM.bind, same, run, toldIn]
        exact same'
      · rw [stateAfter_bind_of_ok run]
        exact S.trans moves moves'
  | error e t =>
      rw [run] at same
      rw [stateAfter_of_error run] at moves
      constructor
      · change EStateM.bind x next (S.bare s) = toldIn g S.bare (EStateM.bind y next' s)
        simp only [EStateM.bind, same, run, toldIn]
      · rw [stateAfter_bind_of_error run]
        exact moves

/-- A check that holds is no step of the run. -/
theorem check {g : γ → δ} {result : Except Stop β} {b : β} {next : β → EStateM Stop ρ δ}
    {y : EStateM DecodingError σ γ} (holds : result = .ok b) (h : S.MirrorsAt s g (next b) y) :
    S.MirrorsAt s g (ofExcept result >>= next) y := by
  subst holds
  exact h

end MirrorsAt

namespace Mirrors

theorem pure {f : α → β} {a : α} : S.Mirrors f (Pure.pure (f a)) (Pure.pure a) :=
  fun _ _ => .pure

theorem throw {f : α → β} (e : DecodingError) :
    S.Mirrors f (MonadExcept.throw (Stop.failure e)) (MonadExcept.throw e) :=
  fun _ _ => .throw e

theorem bind {f : α → β} {g : γ → δ} {x : EStateM Stop ρ β} {y : EStateM DecodingError σ α}
    {next : β → EStateM Stop ρ δ} {next' : α → EStateM DecodingError σ γ}
    (first : S.Mirrors f x y) (second : ∀ a, S.Mirrors g (next (f a)) (next' a)) :
    S.Mirrors g (x >>= next) (y >>= next') :=
  fun s fine => (first s fine).bind fun a t _ moves => second a t (S.keeps fine moves)

theorem compositional : Compositional fun _ => S.Mirrors id := ⟨fun _ => pure, bind⟩

theorem mapM {x : γ → EStateM Stop ρ α} {y : γ → EStateM DecodingError σ α}
    (h : ∀ c, S.Mirrors id (x c) (y c)) (cs : List γ) : S.Mirrors id (cs.mapM x) (cs.mapM y) :=
  compositional.mapM h cs

theorem collect {x : EStateM Stop ρ α} {y : EStateM DecodingError σ α} (h : S.Mirrors id x y)
    (count : Nat) :
    S.Mirrors id (ClassFormat.collect count x) (ClassFormat.collect count y) :=
  compositional.collect h count

end Mirrors

/-- An offset that moves on in a source, up to its end. -/
def offsets (source : Source) (offset : σ → Nat) : Scope σ σ where
  bare := id
  fine s := offset s ≤ source.size
  moves s t := offset s ≤ offset t ∧ (offset s ≤ source.size → offset t ≤ source.size)
  refl _ := ⟨Nat.le_refl _, id⟩
  trans h k := ⟨Nat.le_trans h.1 k.1, k.2 ∘ h.2⟩
  keeps fine moves := moves.2 fine

/-- States of which nothing is asked. -/
def free : Scope σ σ where
  bare := id
  fine _ := True
  moves _ _ := True
  refl _ := trivial
  trans _ _ := trivial
  keeps _ _ := trivial

theorem mirrors_free (y : EStateM DecodingError σ α) : free.Mirrors id (plainly y) y :=
  fun _ _ => ⟨rfl, trivial⟩

variable {source : Source} {offset : σ → Nat}

/-- Plain computations may be made anywhere if they leave the offset alone. -/
theorem mirrors_still {y : EStateM DecodingError σ α}
    (still : ∀ s, offset (stateAfter y s) = offset s) :
    (offsets source offset).Mirrors id (plainly y) y := by
  intro s _
  refine ⟨rfl, ?_⟩
  change offset s ≤ _ ∧ (offset s ≤ _ → offset (stateAfter y s) ≤ _)
  rw [still]
  exact ⟨Nat.le_refl _, id⟩

/-- A run from inside the source goes on inside the source. -/
theorem Mirrors.inside {x : EStateM Stop σ α} {y : EStateM DecodingError σ α}
    (h : (offsets source offset).Mirrors id x y) {s : σ} (start : offset s ≤ source.size) :
    x s = toldIn id id (y s) ∧ offset s ≤ offset (stateAfter y s) ∧
      offset (stateAfter y s) ≤ source.size := by
  obtain ⟨same, forward, fine⟩ := h s start
  exact ⟨same, forward, fine start⟩

end Scope

end ClassFormat
