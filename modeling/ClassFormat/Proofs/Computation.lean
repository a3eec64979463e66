import ClassFormat.Repetition

/-!
# Successful runs

What it takes for a composed computation to succeed, as equivalences that open
it one step at a time. Each says everything about the run: the results and the
states in between are the ones that the steps give.
-/
namespace ClassFormat

variable {ε σ α β : Type}

theorem pure_eq_ok {a b : α} {s t : σ} :
    (pure a : EStateM ε σ α) s = .ok b t ↔ a = b ∧ s = t := by
  change EStateM.Result.ok a s = .ok b t ↔ _
  rw [EStateM.Result.ok.injEq]

theorem bind_eq_ok {x : EStateM ε σ α} {f : α → EStateM ε σ β} {b : β} {s t : σ} :
    (x >>= f) s = .ok b t ↔ ∃ a r, x s = .ok a r ∧ f a r = .ok b t := by
  change EStateM.bind x f s = .ok b t ↔ _
  unfold EStateM.bind
  constructor
  · intro h
    split at h
    next a r hx => exact ⟨a, r, hx, h⟩
    next => cases h
  · intro h
    obtain ⟨a, r, hx, hf⟩ := h
    rw [hx]
    exact hf

theorem bind_of_ok {x : EStateM ε σ α} {f : α → EStateM ε σ β} {a : α} {s t : σ}
    (run : x s = .ok a t) : (x >>= f) s = f a t := by
  change EStateM.bind x f s = _
  rw [EStateM.bind, run]

theorem bind_eq_error {x : EStateM ε σ α} {f : α → EStateM ε σ β} {e : ε} {s t : σ} :
    (x >>= f) s = .error e t ↔
      x s = .error e t ∨ ∃ a r, x s = .ok a r ∧ f a r = .error e t := by
  change EStateM.bind x f s = .error e t ↔ _
  unfold EStateM.bind
  cases x s with
  | ok a r =>
      constructor
      · intro h
        exact .inr ⟨a, r, rfl, h⟩
      · intro h
        rcases h with impossible | later
        · cases impossible
        · obtain ⟨_, _, same, h⟩ := later
          cases same
          exact h
  | error e' r =>
      constructor
      · intro h
        cases h
        exact .inl rfl
      · intro h
        rcases h with same | later
        · cases same
          rfl
        · obtain ⟨_, _, impossible, -⟩ := later
          cases impossible

theorem pure_ne_error {a : α} {e : ε} {s t : σ} : (pure a : EStateM ε σ α) s ≠ .error e t := by
  intro h
  cases h

theorem Except.bind_eq_ok {x : Except ε α} {f : α → Except ε β} {b : β} :
    x >>= f = .ok b ↔ ∃ a, x = .ok a ∧ f a = .ok b := by
  cases x with
  | error e =>
      constructor
      · intro h
        cases h
      · intro h
        obtain ⟨a, h, -⟩ := h
        cases h
  | ok a =>
      constructor
      · intro h
        exact ⟨a, rfl, h⟩
      · intro h
        obtain ⟨a', same, h⟩ := h
        cases same
        exact h

theorem Except.map_eq_ok {x : Except ε α} {f : α → β} {b : β} :
    (do return f (← x) : Except ε β) = .ok b ↔ ∃ a, x = .ok a ∧ f a = b := by
  rw [Except.bind_eq_ok]
  refine exists_congr fun a => and_congr_right fun _ => ?_
  change Except.ok (f a) = .ok b ↔ f a = b
  rw [Except.ok.injEq]

theorem Except.toOption_eq_some {x : Except ε α} {a : α} : x.toOption = some a ↔ x = .ok a := by
  cases x <;> simp [Except.toOption]

theorem Except.bind_eq_error {x : Except ε α} {f : α → Except ε β} {e : ε} :
    x >>= f = .error e ↔ x = .error e ∨ ∃ a, x = .ok a ∧ f a = .error e := by
  cases x with
  | error e' =>
      constructor
      · intro h
        cases h
        exact .inl rfl
      · intro h
        rcases h with same | later
        · cases same
          rfl
        · obtain ⟨_, impossible, -⟩ := later
          cases impossible
  | ok a =>
      constructor
      · intro h
        exact .inr ⟨a, rfl, h⟩
      · intro h
        rcases h with impossible | later
        · cases impossible
        · obtain ⟨_, same, h⟩ := later
          cases same
          exact h

theorem Except.map_eq_error {x : Except ε α} {f : α → β} {e : ε} :
    (do return f (← x) : Except ε β) = .error e ↔ x = .error e := by
  rw [Except.bind_eq_error]
  constructor
  · intro h
    rcases h with same | later
    · exact same
    · obtain ⟨_, -, impossible⟩ := later
      cases impossible
  · exact .inl

theorem Except.mapError_eq_ok {ε' : Type} {x : Except ε α} {f : ε → ε'} {a : α} :
    x.mapError f = .ok a ↔ x = .ok a := by
  cases x <;> constructor <;> intro h <;> cases h <;> rfl

theorem throw_ne_ok {e : ε} {a : α} {s t : σ} : (throw e : EStateM ε σ α) s ≠ .ok a t := by
  intro h
  cases h

theorem ofExcept_eq_ok {result : Except ε α} {a : α} {s t : σ} :
    ofExcept result s = .ok a t ↔ result = .ok a ∧ s = t := by
  unfold ofExcept
  cases result with
  | error e => simp
  | ok b => simp

theorem ofExcept_eq_error {result : Except ε α} {e : ε} {s t : σ} :
    ofExcept result s = .error e t ↔ result = .error e ∧ s = t := by
  unfold ofExcept
  cases result with
  | error e' => simp
  | ok b => simp

theorem mapM_nil_eq_ok {f : β → EStateM ε σ α} {results : List α} {s t : σ} :
    ([].mapM f) s = .ok results t ↔ results = [] ∧ s = t := by
  rw [List.mapM_nil, pure_eq_ok, eq_comm]

theorem mapM_cons_eq_ok {f : β → EStateM ε σ α} {b : β} {bs : List β} {results : List α}
    {s t : σ} :
    ((b :: bs).mapM f) s = .ok results t ↔
      ∃ a r rest, f b s = .ok a r ∧ bs.mapM f r = .ok rest t ∧ results = a :: rest := by
  simp only [List.mapM_cons, bind_eq_ok, pure_eq_ok]
  constructor
  · intro h
    obtain ⟨a, r, ha, rest, u, hrest, rfl, rfl⟩ := h
    exact ⟨a, r, rest, ha, hrest, rfl⟩
  · intro h
    obtain ⟨a, r, rest, ha, hrest, rfl⟩ := h
    exact ⟨a, r, ha, rest, t, hrest, rfl, rfl⟩

/-- A computation over a list fails at one of its elements, behind those for which
it has succeeded. -/
theorem mapM_eq_error {f : β → EStateM ε σ α} {bs : List β} {e : ε} {s t : σ} :
    bs.mapM f s = .error e t ↔
      ∃ done b rest results r, bs = done ++ b :: rest ∧ done.mapM f s = .ok results r ∧
        f b r = .error e t := by
  induction bs generalizing s with
  | nil => simpa using pure_ne_error
  | cons b bs ih =>
      rw [List.mapM_cons]
      constructor
      · intro h
        rcases bind_eq_error.mp h with here | ⟨a, r, first, h⟩
        · exact ⟨[], b, bs, [], s, rfl, rfl, here⟩
        rcases bind_eq_error.mp h with later | ⟨_, _, -, impossible⟩
        · obtain ⟨done, b', rest, results, u, rfl, run, failed⟩ := ih.mp later
          refine ⟨b :: done, b', rest, a :: results, u, rfl, ?_, failed⟩
          exact mapM_cons_eq_ok.mpr ⟨a, r, results, first, run, rfl⟩
        · exact (pure_ne_error impossible).elim
      · rintro ⟨done, b', rest, results, r, split, run, failed⟩
        cases done with
        | nil =>
            obtain ⟨rfl, rfl⟩ := List.cons.inj split
            obtain ⟨-, rfl⟩ := mapM_nil_eq_ok.mp run
            exact bind_eq_error.mpr (.inl failed)
        | cons b'' done =>
            obtain ⟨rfl, rfl⟩ := List.cons.inj split
            obtain ⟨a, u, others, first, behind, rfl⟩ := mapM_cons_eq_ok.mp run
            refine bind_eq_error.mpr (.inr ⟨a, u, first, bind_eq_error.mpr (.inl ?_)⟩)
            exact ih.mpr ⟨done, b', rest, others, r, rfl, behind, failed⟩

theorem length_of_mapM_eq_ok {f : β → EStateM ε σ α} {bs : List β} {results : List α} {s t : σ}
    (h : bs.mapM f s = .ok results t) : results.length = bs.length := by
  induction bs generalizing results s with
  | nil => rw [(mapM_nil_eq_ok.mp h).1, List.length_nil, List.length_nil]
  | cons b bs ih =>
    obtain ⟨a, r, rest, -, hrest, rfl⟩ := mapM_cons_eq_ok.mp h
    rw [List.length_cons, List.length_cons, ih hrest]

theorem ne_nil_of_mapM_eq_ok {f : β → EStateM ε σ α} {bs : List β} {results : List α} {s t : σ}
    (some : bs ≠ []) (h : bs.mapM f s = .ok results t) : results ≠ [] := by
  rw [← List.length_pos_iff, length_of_mapM_eq_ok h]
  exact List.length_pos_iff.mpr some

theorem collect_zero_eq_ok {step : EStateM ε σ α} {results : List α} {s t : σ} :
    collect 0 step s = .ok results t ↔ results = [] ∧ s = t := by
  rw [collect_zero, pure_eq_ok, eq_comm]

theorem collect_succ_eq_ok {step : EStateM ε σ α} {count : Nat} {results : List α} {s t : σ} :
    collect (count + 1) step s = .ok results t ↔
      ∃ a r rest, step s = .ok a r ∧ collect count step r = .ok rest t ∧ results = a :: rest := by
  simp only [collect_succ, bind_eq_ok, pure_eq_ok]
  constructor
  · intro h
    obtain ⟨a, r, ha, rest, u, hrest, rfl, rfl⟩ := h
    exact ⟨a, r, rest, ha, hrest, rfl⟩
  · intro h
    obtain ⟨a, r, rest, ha, hrest, rfl⟩ := h
    exact ⟨a, r, ha, rest, t, hrest, rfl, rfl⟩

/-- A repetition fails in the run behind those that have succeeded. -/
theorem collect_eq_error {step : EStateM ε σ α} {count : Nat} {e : ε} {s t : σ} :
    collect count step s = .error e t ↔
      ∃ done results r, done < count ∧ collect done step s = .ok results r ∧
        step r = .error e t := by
  induction count generalizing s with
  | zero =>
      constructor
      · intro h
        exact (pure_ne_error h).elim
      · intro h
        obtain ⟨done, _, _, impossible, -⟩ := h
        exact absurd impossible (Nat.not_lt_zero done)
  | succ count ih =>
      rw [collect_succ]
      constructor
      · intro h
        rcases bind_eq_error.mp h with here | ⟨a, r, first, h⟩
        · exact ⟨0, [], s, Nat.succ_pos count, rfl, here⟩
        rcases bind_eq_error.mp h with later | ⟨_, _, -, impossible⟩
        · obtain ⟨done, results, u, fewer, run, failed⟩ := ih.mp later
          refine ⟨done + 1, a :: results, u, Nat.succ_lt_succ fewer, ?_, failed⟩
          exact collect_succ_eq_ok.mpr ⟨a, r, results, first, run, rfl⟩
        · exact (pure_ne_error impossible).elim
      · intro h
        obtain ⟨done, results, r, fewer, run, failed⟩ := h
        cases done with
        | zero =>
            obtain ⟨rfl, rfl⟩ := collect_zero_eq_ok.mp run
            exact bind_eq_error.mpr (.inl failed)
        | succ done =>
            obtain ⟨a, u, rest, first, others, rfl⟩ := collect_succ_eq_ok.mp run
            refine bind_eq_error.mpr (.inr ⟨a, u, first, bind_eq_error.mpr (.inl ?_)⟩)
            exact ih.mpr ⟨done, rest, r, Nat.lt_of_succ_lt_succ fewer, others, failed⟩

/-- The run fails with this error. -/
def Fails (e : ε) (x : EStateM ε σ α) (s : σ) : Prop := ∃ t, x s = .error e t

namespace Fails

variable {e : ε} {x : EStateM ε σ α} {f : α → EStateM ε σ β} {s : σ}

theorem bind (first : Fails e x s) : Fails e (x >>= f) s := by
  obtain ⟨t, failed⟩ := first
  exact ⟨t, bind_eq_error.mpr (.inl failed)⟩

theorem bind_of_ok {a : α} {r : σ} (run : x s = .ok a r) (later : Fails e (f a) r) :
    Fails e (x >>= f) s := by
  obtain ⟨t, failed⟩ := later
  exact ⟨t, bind_eq_error.mpr (.inr ⟨a, r, run, failed⟩)⟩

end Fails

/-- Whether a run succeeds. -/
def succeeds (x : EStateM ε σ α) (s : σ) : Bool :=
  match x s with
  | .ok _ _ => true
  | .error _ _ => false

theorem exists_ok_of_succeeds {x : EStateM ε σ α} {s : σ} (h : succeeds x s = true) :
    ∃ a t, x s = .ok a t := by
  unfold succeeds at h
  cases run : x s with
  | ok a t => exact ⟨a, t, rfl⟩
  | error e t => simp [run] at h

theorem exists_error_of_succeeds {x : EStateM ε σ α} {s : σ} (h : succeeds x s = false) :
    ∃ e t, x s = .error e t := by
  unfold succeeds at h
  cases run : x s with
  | ok a t => simp [run] at h
  | error e t => exact ⟨e, t, rfl⟩

/-- The state that a run ends in, failed or not. -/
def stateAfter (x : EStateM ε σ α) (s : σ) : σ :=
  match x s with
  | .ok _ t => t
  | .error _ t => t

theorem stateAfter_of_ok {x : EStateM ε σ α} {a : α} {s t : σ} (h : x s = .ok a t) :
    stateAfter x s = t := by
  rw [stateAfter, h]

theorem stateAfter_of_error {x : EStateM ε σ α} {e : ε} {s t : σ} (h : x s = .error e t) :
    stateAfter x s = t := by
  rw [stateAfter, h]

theorem stateAfter_bind_of_ok {x : EStateM ε σ α} {f : α → EStateM ε σ β} {a : α} {s t : σ}
    (h : x s = .ok a t) : stateAfter (x >>= f) s = stateAfter (f a) t := by
  change stateAfter (EStateM.bind x f) s = _
  rw [stateAfter, EStateM.bind, h]
  rfl

theorem stateAfter_bind_of_error {x : EStateM ε σ α} {f : α → EStateM ε σ β} {e : ε} {s t : σ}
    (h : x s = .error e t) : stateAfter (x >>= f) s = t :=
  stateAfter_of_error (bind_eq_error.mpr (.inl h))

/-- A relation between the states before and after runs that follow each other. -/
structure Evolution (R : σ → σ → Prop) : Prop where
  refl : ∀ s, R s s
  trans : ∀ {r s t}, R r s → R s t → R r t

theorem Evolution.comap {ρ : Type} {R : σ → σ → Prop} (law : Evolution R) (f : ρ → σ) :
    Evolution fun s t => R (f s) (f t) :=
  ⟨fun s => law.refl (f s), fun h k => law.trans h k⟩

/-- What relates computations of two kinds if it relates their parts. -/
structure Compositional {ε' τ : Type}
    (R : ∀ α : Type, EStateM ε σ α → EStateM ε' τ α → Prop) : Prop where
  pure {α : Type} (a : α) : R α (Pure.pure a) (Pure.pure a)
  bind {α β : Type} {x : EStateM ε σ α} {y : EStateM ε' τ α} {f : α → EStateM ε σ β}
    {g : α → EStateM ε' τ β} : R α x y → (∀ a, R β (f a) (g a)) → R β (x >>= f) (y >>= g)

namespace Compositional

variable {ε' τ : Type} {R : ∀ α : Type, EStateM ε σ α → EStateM ε' τ α → Prop}

theorem mapM (law : Compositional R) {f : β → EStateM ε σ α} {g : β → EStateM ε' τ α}
    (h : ∀ b, R α (f b) (g b)) (bs : List β) : R _ (bs.mapM f) (bs.mapM g) := by
  induction bs with
  | nil => exact law.pure []
  | cons b bs ih =>
      rw [List.mapM_cons, List.mapM_cons]
      exact law.bind (h b) fun a => law.bind ih fun rest => law.pure (a :: rest)

theorem collect (law : Compositional R) {x : EStateM ε σ α} {y : EStateM ε' τ α} (h : R α x y)
    (count : Nat) : R _ (ClassFormat.collect count x) (ClassFormat.collect count y) := by
  induction count with
  | zero => exact law.pure []
  | succ count ih =>
      rw [collect_succ, collect_succ]
      exact law.bind h fun a => law.bind ih fun rest => law.pure (a :: rest)

end Compositional

/-- Every run leads from a state to a related one, failed or not. -/
def Always (R : σ → σ → Prop) (x : EStateM ε σ α) : Prop :=
  ∀ s, R s (stateAfter x s)

namespace Always

variable {R : σ → σ → Prop}

theorem pure (law : Evolution R) (a : α) : Always R (Pure.pure a : EStateM ε σ α) := law.refl

theorem ofExcept (law : Evolution R) (result : Except ε α) :
    Always R (ClassFormat.ofExcept result : EStateM ε σ α) := by
  cases result <;> exact law.refl

theorem bind (law : Evolution R) {x : EStateM ε σ α} {f : α → EStateM ε σ β}
    (first : Always R x) (second : ∀ a, Always R (f a)) : Always R (x >>= f) := by
  intro s
  have start := first s
  cases run : x s with
  | ok a t =>
      rw [stateAfter_of_ok run] at start
      rw [stateAfter_bind_of_ok run]
      exact law.trans start (second a t)
  | error e t =>
      rw [stateAfter_of_error run] at start
      rw [stateAfter_bind_of_error run]
      exact start

theorem compositional (law : Evolution R) :
    Compositional fun _ (x _ : EStateM ε σ _) => Always R x :=
  ⟨pure law, bind law⟩

theorem mapM (law : Evolution R) {f : β → EStateM ε σ α} (h : ∀ b, Always R (f b))
    (bs : List β) : Always R (bs.mapM f) :=
  (compositional law).mapM (g := f) h bs

theorem collect (law : Evolution R) {step : EStateM ε σ α} (h : Always R step) (count : Nat) :
    Always R (ClassFormat.collect count step) :=
  (compositional law).collect (y := step) h count

end Always

end ClassFormat
