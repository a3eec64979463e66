import ClassFormat.DecodingError
import ClassFormat.Proofs.Computation

/-!
# Runs with more bytes

A read fails because its bytes are wrong, or because there are too few of them.
In the latter case nothing is known of a second run that has more bytes to read.
In all other cases that run does the same, and `Follows` says so of two readers:
the second one does what the first one does, unless that runs out of bytes.
-/
namespace ClassFormat

/-- Whether a failure is one of missing bytes. -/
def DecodingError.isShort : DecodingError → Bool
  | .read _ .endOfData | .outOfBounds .. => true
  | _ => false

variable {σ τ α β γ δ : Type}

/-- From related states, the second reader gives a related result, or the same
failure. -/
structure Follows (S : σ → τ → Prop) (V : α → β → Prop) (x : EStateM DecodingError σ α)
    (y : EStateM DecodingError τ β) : Prop where
  ok : ∀ {s s' a t}, S s s' → x s = .ok a t → ∃ b t', y s' = .ok b t' ∧ V a b ∧ S t t'
  error : ∀ {s s' e t}, S s s' → x s = .error e t → e.isShort = false → ∃ t', y s' = .error e t'

namespace Follows

variable {S : σ → τ → Prop}

theorem pure {V : α → β → Prop} {a : α} {b : β} (h : V a b) :
    Follows S V (Pure.pure a) (Pure.pure b) where
  ok := by
    intro s s' c t start run
    obtain ⟨rfl, rfl⟩ := pure_eq_ok.mp run
    exact ⟨b, s', rfl, h, start⟩
  error := by
    intro s s' e t _ run
    exact (pure_ne_error run).elim

theorem throw (V : α → β → Prop) (e : DecodingError) :
    Follows S V (MonadExcept.throw e) (MonadExcept.throw e) where
  ok := by
    intro s s' a t _ run
    exact (throw_ne_ok run).elim
  error := by
    intro s s' e' t _ run _
    cases run
    exact ⟨s', rfl⟩

/-- The second halves need to follow each other for related results of the
first halves only. -/
theorem bind_of {V : α → β → Prop} {W : γ → δ → Prop} {x : EStateM DecodingError σ α}
    {y : EStateM DecodingError τ β} {f : α → EStateM DecodingError σ γ}
    {g : β → EStateM DecodingError τ δ} (first : Follows S V x y)
    (second : ∀ a b, V a b → Follows S W (f a) (g b)) : Follows S W (x >>= f) (y >>= g) where
  ok := by
    intro s s' c t start run
    obtain ⟨a, r, hx, hf⟩ := bind_eq_ok.mp run
    obtain ⟨b, r', hy, value, state⟩ := first.ok start hx
    obtain ⟨d, t', hg, result⟩ := (second a b value).ok state hf
    exact ⟨d, t', bind_eq_ok.mpr ⟨b, r', hy, hg⟩, result⟩
  error := by
    intro s s' e t start run long
    rcases bind_eq_error.mp run with hx | later
    · obtain ⟨t', hy⟩ := first.error start hx long
      exact ⟨t', bind_eq_error.mpr (.inl hy)⟩
    · obtain ⟨a, r, hx, hf⟩ := later
      obtain ⟨b, r', hy, value, state⟩ := first.ok start hx
      obtain ⟨t', hg⟩ := (second a b value).error state hf long
      exact ⟨t', bind_eq_error.mpr (.inr ⟨b, r', hy, hg⟩)⟩

theorem bind {W : γ → δ → Prop} {x : EStateM DecodingError σ α} {y : EStateM DecodingError τ α}
    {f : α → EStateM DecodingError σ γ} {g : α → EStateM DecodingError τ δ}
    (first : Follows S Eq x y) (second : ∀ a, Follows S W (f a) (g a)) :
    Follows S W (x >>= f) (y >>= g) := by
  refine first.bind_of fun a b same => ?_
  subst same
  exact second a

theorem compositional : Compositional fun _ => Follows S Eq :=
  ⟨fun _ => pure rfl, bind⟩

theorem mapM {f : β → EStateM DecodingError σ α} {g : β → EStateM DecodingError τ α}
    (h : ∀ b, Follows S Eq (f b) (g b)) (bs : List β) : Follows S Eq (bs.mapM f) (bs.mapM g) :=
  compositional.mapM h bs

theorem collect {x : EStateM DecodingError σ α} {y : EStateM DecodingError τ α}
    (h : Follows S Eq x y) (count : Nat) :
    Follows S Eq (ClassFormat.collect count x) (ClassFormat.collect count y) :=
  compositional.collect h count

/-- A reader that does not look at any bytes follows itself. -/
theorem refl (x : EStateM DecodingError σ α) : Follows Eq Eq x x where
  ok := by
    intro s s' a t start run
    subst start
    exact ⟨a, t, run, rfl, rfl⟩
  error := by
    intro s s' e t start run _
    subst start
    exact ⟨t, run⟩

/-- What fails for want of bytes only has to succeed in the same way. -/
theorem of_short {x y : EStateM DecodingError σ α}
    (short : ∀ {s e t}, x s = .error e t → e.isShort)
    (ok : ∀ {s a t}, x s = .ok a t → y s = .ok a t) : Follows Eq Eq x y where
  ok := by
    intro s s' a t start run
    subst start
    exact ⟨a, t, ok run, rfl, rfl⟩
  error := by
    intro s s' e t _ run long
    cases long.symm.trans (short run)

end Follows

/-- The second answer is related to the first one, or the same failure, unless
the first one is a failure for want of bytes. -/
structure Agrees (V : α → β → Prop) (x : Except DecodingError α) (y : Except DecodingError β) :
    Prop where
  ok : ∀ {a}, x = .ok a → ∃ b, y = .ok b ∧ V a b
  error : ∀ {e}, x = .error e → e.isShort = false → y = .error e

namespace Agrees

theorem refl (x : Except DecodingError α) : Agrees Eq x x where
  ok := by
    intro a h
    exact ⟨a, h, rfl⟩
  error := by
    intro e h _
    exact h

theorem of_short {V : α → β → Prop} {x : Except DecodingError α} {y : Except DecodingError β}
    (short : ∀ {e}, x = .error e → e.isShort) (ok : ∀ {a}, x = .ok a → ∃ b, y = .ok b ∧ V a b) :
    Agrees V x y where
  ok := ok
  error := by
    intro e h long
    cases long.symm.trans (short h)

theorem bind {W : γ → δ → Prop} {x y : Except DecodingError α} {f : α → Except DecodingError γ}
    {g : α → Except DecodingError δ} (first : Agrees Eq x y) (second : ∀ a, Agrees W (f a) (g a)) :
    Agrees W (x >>= f) (y >>= g) where
  ok := by
    intro c h
    obtain ⟨a, hx, hf⟩ := Except.bind_eq_ok.mp h
    obtain ⟨b, hy, rfl⟩ := first.ok hx
    obtain ⟨d, hg, value⟩ := (second a).ok hf
    exact ⟨d, Except.bind_eq_ok.mpr ⟨a, hy, hg⟩, value⟩
  error := by
    intro e h long
    rcases Except.bind_eq_error.mp h with hx | later
    · exact Except.bind_eq_error.mpr (.inl (first.error hx long))
    · obtain ⟨a, hx, hf⟩ := later
      obtain ⟨b, hy, rfl⟩ := first.ok hx
      exact Except.bind_eq_error.mpr (.inr ⟨a, hy, (second a).error hf long⟩)

end Agrees

theorem Follows.ofExcept {V : α → β → Prop} {x : Except DecodingError α}
    {y : Except DecodingError β} (h : Agrees V x y) :
    Follows (@Eq σ) V (ClassFormat.ofExcept x) (ClassFormat.ofExcept y) where
  ok := by
    intro s s' a t start run
    obtain ⟨run, same⟩ := ofExcept_eq_ok.mp run
    obtain ⟨b, run', value⟩ := h.ok run
    exact ⟨b, s', ofExcept_eq_ok.mpr ⟨run', rfl⟩, value, same.symm.trans start⟩
  error := by
    intro s s' e t _ run long
    exact ⟨s', ofExcept_eq_error.mpr ⟨h.error (ofExcept_eq_error.mp run).1 long, rfl⟩⟩

end ClassFormat
