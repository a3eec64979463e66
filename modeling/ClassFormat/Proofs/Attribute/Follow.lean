import ClassFormat.Proofs.Attribute.Comparison
import ClassFormat.Proofs.Attribute.Scan

/-!
# Payloads in twin windows

What an attribute is decoded to depends on its payload and on where that stands,
not on the source around it. Readers of payloads follow themselves from one twin
window to the other, and lists of attributes follow those of a longer source.
-/
namespace ClassFormat.Attribute

namespace Comparison

/-- The same pool, and twin windows, of which the first one may lack bytes. -/
def twins : Comparison where
  pools :=
    { states := Eq
      excused := fun e => e.isShort
      spent := fun _ => False }
  windows := Window.Twin
  place := id

theorem onWindow_twins {α : Type} {V : α → α → Prop} {read : WindowReader α}
    (short : ∀ {w e}, read w = .error e → e.isShort)
    (twin : ∀ {w w' v a}, w.Twin w' → read w = .ok (a, v) →
      ∃ b v', read w' = .ok (b, v') ∧ V a b ∧ v.Twin v') :
    Lockstep twins.payloads V (PayloadReader.onWindow read) (PayloadReader.onWindow read) := by
  rintro ⟨pool, w⟩ ⟨pool', w'⟩ ⟨pools, windows⟩
  unfold PayloadReader.onWindow
  dsimp only
  cases run : read w with
  | error e => exact .excused (short run)
  | ok result =>
      obtain ⟨b, v', run', value, same⟩ := twin windows run
      rw [run']
      exact .ok value ⟨pools, same⟩

theorem lawful_twins : twins.Lawful where
  same w := ⟨rfl, rfl, rfl⟩
  twin windows := windows
  reads tame := onWindow_twins tame.short fun same run => by
    obtain ⟨v', run', windows⟩ := tame.twin same run
    exact ⟨_, v', run', rfl, windows⟩
  splits _ := onWindow_twins Window.isShort_of_split Window.Twin.split
  toAlikePools := .of_eq rfl rfl

end Comparison

theorem readPayload_follows (constants : Constant.Pool) (header : Header) {w w' : Window}
    (same : w.Twin w') :
    Follows Eq Eq (readPayload constants (nestedList constants maxNesting) header w)
      (readPayload constants (nestedList constants maxNesting) header w') := by
  have law := Comparison.lawful_twins
  have evolves := Pool.respected_evolves.nestedList constants maxNesting
  have alike := law.readPayload evolves (law.nestedList constants maxNesting) constants header same
  exact alike.follows (fun _ _ => .rfl) (fun _ _ told => told.symm) (fun e short => short)
    fun _ impossible => impossible

namespace ScanReader

variable {α β : Type}

theorem onPool_follows {act act' : EStateM DecodingError Pool α} (h : Follows Eq Eq act act') :
    Follows Eq Eq (onPool act) (onPool act') where
  ok := by
    intro s s' a t start run
    subst start
    obtain ⟨run, same⟩ := onPool_eq_ok.mp run
    obtain ⟨b, pool, run', value, rfl⟩ := h.ok rfl run
    exact ⟨b, t, onPool_eq_ok.mpr ⟨run', same⟩, value, rfl⟩
  error := by
    intro s s' e t start run long
    subst start
    obtain ⟨pool, run'⟩ := h.error rfl (onPool_eq_error.mp run).1 long
    exact ⟨⟨pool, s.offset⟩, onPool_eq_error.mpr ⟨run', rfl⟩⟩

end ScanReader

theorem readAttribute_follows {source source' : Source} (h : source.Begins source')
    (constants : Constant.Pool) :
    Follows Eq Eq (readAttribute source constants) (readAttribute source' constants) := by
  refine .bind (.refl _) fun offset => ?_
  refine .bind_of (.ofExcept (h.window offset _)) fun w w' same => ?_
  have header : Agrees (fun a b => a.1 = b.1) (Header.read w) (Header.read w') := by
    refine .of_short Comparison.tame_header.short fun {read} run => ?_
    obtain ⟨v', run', -⟩ := Comparison.tame_header.twin same run
    exact ⟨_, run', rfl⟩
  refine .bind_of (.ofExcept header) fun read read' alike => ?_
  obtain ⟨header, _⟩ := read
  obtain ⟨header', _⟩ := read'
  cases alike
  refine .bind (.refl _) fun _ => .bind (.refl _) fun start => ?_
  refine .bind_of (.ofExcept (h.window start _)) fun payload payload' same => ?_
  refine .bind (.refl _) fun _ => ScanReader.onPool_follows ?_
  exact readPayload_follows constants header same

theorem readAttributes_follows {source source' : Source} (h : source.Begins source')
    (constants : Constant.Pool) (count : Nat) :
    Follows Eq Eq (readAttributes source constants count)
      (readAttributes source' constants count) :=
  .collect (readAttribute_follows h constants) count

end ClassFormat.Attribute
