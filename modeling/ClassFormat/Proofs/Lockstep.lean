import ClassFormat.Proofs.Shortage

/-!
# Runs in lockstep

Two runs from related states do the same, step by step, up to related results.
They part in two cases only, both of them failures: the first run may fail in a
way that says nothing of the second one, and the second one may fail when it has
used something up that the first one still has.
-/
namespace ClassFormat

variable {σ τ α β γ δ : Type}

/-- What two runs are held to. -/
structure Terms (σ τ : Type) where
  states : σ → τ → Prop
  /-- The failures of the first run that say nothing of the second one. -/
  excused : DecodingError → Prop
  /-- The states in which the second run may fail on its own. -/
  spent : τ → Prop

/-- Both runs end alike, unless they have parted. -/
inductive Matched (T : Terms σ τ) (V : α → β → Prop) :
    EStateM.Result DecodingError σ α → EStateM.Result DecodingError τ β → Prop
  | ok {a : α} {b : β} {s : σ} {t : τ} : V a b → T.states s t → Matched T V (.ok a s) (.ok b t)
  | error {e : DecodingError} {s : σ} {t : τ} :
      T.states s t → Matched T V (.error e s) (.error e t)
  | excused {e : DecodingError} {s : σ} {y : EStateM.Result DecodingError τ β} :
      T.excused e → Matched T V (.error e s) y
  | spent {x : EStateM.Result DecodingError σ α} {e : DecodingError} {t : τ} :
      T.spent t → Matched T V x (.error e t)

/-- From related states, both runs end alike. -/
def Lockstep (T : Terms σ τ) (V : α → β → Prop) (x : EStateM DecodingError σ α)
    (y : EStateM DecodingError τ β) : Prop :=
  ∀ s t, T.states s t → Matched T V (x s) (y t)

/-- The second result is told by the first one. -/
abbrev Via (f : α → β) (a : α) (b : β) : Prop := b = f a

variable {T : Terms σ τ}

theorem Matched.refl {T : Terms σ σ} (same : ∀ s, T.states s s)
    (result : EStateM.Result DecodingError σ α) : Matched T (Via id) result result := by
  cases result with
  | ok a s => exact .ok rfl (same s)
  | error e s => exact .error (same s)

/-- The runs go on from where they are, with what is known of both. -/
theorem Matched.bind {V : α → β → Prop} {W : γ → δ → Prop} {x : EStateM DecodingError σ α}
    {y : EStateM DecodingError τ β} {f : α → EStateM DecodingError σ γ}
    {g : β → EStateM DecodingError τ δ} {s : σ} {t : τ} (first : Matched T V (x s) (y t))
    (second : ∀ {a b s' t'}, x s = .ok a s' → y t = .ok b t' → V a b → T.states s' t' →
      Matched T W (f a s') (g b t')) :
    Matched T W ((x >>= f) s) ((y >>= g) t) := by
  change Matched T W (EStateM.bind x f s) (EStateM.bind y g t)
  unfold EStateM.bind
  generalize hx : x s = r at first
  generalize hy : y t = r' at first
  cases first with
  | ok value states => exact second hx hy value states
  | error states => exact .error states
  | excused known => exact .excused known
  | spent left => exact .spent left

namespace Lockstep

theorem pure {V : α → β → Prop} {a : α} {b : β} (h : V a b) :
    Lockstep T V (Pure.pure a) (Pure.pure b) :=
  fun _ _ states => .ok h states

theorem throw {V : α → β → Prop} (e : DecodingError) :
    Lockstep T V (MonadExcept.throw e) (MonadExcept.throw e) :=
  fun _ _ states => .error states

theorem ofExcept (result : Except DecodingError α) :
    Lockstep T (Via id) (ClassFormat.ofExcept result) (ClassFormat.ofExcept result) := by
  cases result with
  | ok a => exact pure rfl
  | error e => exact throw e

theorem bind_of {V : α → β → Prop} {W : γ → δ → Prop} {x : EStateM DecodingError σ α}
    {y : EStateM DecodingError τ β} {f : α → EStateM DecodingError σ γ}
    {g : β → EStateM DecodingError τ δ} (first : Lockstep T V x y)
    (second : ∀ a b, V a b → Lockstep T W (f a) (g b)) : Lockstep T W (x >>= f) (y >>= g) :=
  fun s t states => (first s t states).bind fun _ _ value states' => second _ _ value _ _ states'

theorem bind {m : α → β} {W : γ → δ → Prop} {x : EStateM DecodingError σ α}
    {y : EStateM DecodingError τ β} {f : α → EStateM DecodingError σ γ}
    {g : β → EStateM DecodingError τ δ} (first : Lockstep T (Via m) x y)
    (second : ∀ a, Lockstep T W (f a) (g (m a))) : Lockstep T W (x >>= f) (y >>= g) := by
  refine first.bind_of fun a b told => ?_
  subst told
  exact second a

/-- The second run may be made use of, too. -/
theorem bind_run {m : α → β} {W : γ → δ → Prop} {x : EStateM DecodingError σ α}
    {y : EStateM DecodingError τ β} {f : α → EStateM DecodingError σ γ}
    {g : β → EStateM DecodingError τ δ} (first : Lockstep T (Via m) x y)
    (second : ∀ a t t', y t = .ok (m a) t' → Lockstep T W (f a) (g (m a))) :
    Lockstep T W (x >>= f) (y >>= g) := by
  refine fun s t states => (first s t states).bind fun {a b s' t'} _ run told states' => ?_
  subst told
  exact second a t t' run s' t' states'

theorem mapM {m : β → γ} {f : α → EStateM DecodingError σ β} {g : α → EStateM DecodingError τ γ}
    (h : ∀ a, Lockstep T (Via m) (f a) (g a)) (as : List α) :
    Lockstep T (Via (List.map m)) (as.mapM f) (as.mapM g) := by
  induction as with
  | nil => exact pure rfl
  | cons a as ih =>
      rw [List.mapM_cons, List.mapM_cons]
      exact bind (h a) fun b => bind ih fun rest => pure rfl

theorem collect {m : α → β} {x : EStateM DecodingError σ α} {y : EStateM DecodingError τ β}
    (h : Lockstep T (Via m) x y) (count : Nat) :
    Lockstep T (Via (List.map m)) (ClassFormat.collect count x) (ClassFormat.collect count y) := by
  induction count with
  | zero => exact pure rfl
  | succ count ih =>
      rw [collect_succ, collect_succ]
      exact bind h fun a => bind ih fun rest => pure rfl

/-- If only missing bytes are an excuse, the second run follows the first one. -/
theorem follows {S : σ → τ → Prop} {V W : α → β → Prop} {x : EStateM DecodingError σ α}
    {y : EStateM DecodingError τ β} (h : Lockstep T V x y) (states : ∀ s t, T.states s t ↔ S s t)
    (values : ∀ a b, V a b → W a b) (short : ∀ e, T.excused e → e.isShort)
    (never : ∀ t, ¬T.spent t) : Follows S W x y where
  ok := by
    intro s s' a t start run
    have runs := h s s' ((states s s').mpr start)
    rw [run] at runs
    generalize y s' = r at runs ⊢
    cases runs with
    | @ok _ b _ t' value same =>
        exact ⟨b, t', rfl, values a b value, (states t t').mp same⟩
    | spent left => exact (never _ left).elim
  error := by
    intro s s' e t start run long
    have runs := h s s' ((states s s').mpr start)
    rw [run] at runs
    generalize y s' = r at runs ⊢
    cases runs with
    | @error _ _ t' _ => exact ⟨t', rfl⟩
    | excused known => cases long.symm.trans (short e known)
    | spent left => exact (never _ left).elim

end Lockstep

end ClassFormat
