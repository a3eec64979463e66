import ClassFormat.Proofs.Attribute.Comparison
import ClassFormat.Proofs.Attribute.Replanting
import ClassFormat.Proofs.Attribute.RoundTrip

/-!
# Attribute lists by offset and by cursor

A list of attributes is read in the same way from an offset of the source and
from the cursor of a payload, whose offset shows in the events only. The one
difference is that a list in a payload counts as a level of nesting itself.
-/
namespace ClassFormat.Attribute

/-- The same pool, read into with fewer and with more levels of lists to go. -/
def Comparison.levels : Comparison where
  pools :=
    { states := Eq
      excused := fun e => ∃ offset, e = .nestingTooDeep offset maxNesting
      spent := fun _ => False }
  windows := Eq
  place := id

theorem Comparison.lawful_levels : levels.Lawful where
  toAlikeWindows := .of_eq rfl
  toAlikePools := .of_eq rfl rfl

/-- With fewer levels a list is read in the same way, or is found to be nested
too deeply. -/
theorem nestedList_levels (constants : Constant.Pool) {levels more : Nat} (fewer : levels ≤ more)
    (count : Nat) :
    Lockstep Comparison.levels.payloads Comparison.levels.References
      (nestedList constants levels count) (nestedList constants more count) := by
  induction levels generalizing more count with
  | zero => exact fun s t _ => .excused ⟨s.window.offset, rfl⟩
  | succ levels ih =>
      obtain ⟨more, rfl⟩ : ∃ others, more = others + 1 := ⟨more - 1, by omega⟩
      have lists := ih (Nat.le_of_succ_le_succ fewer)
      have evolves := Pool.respected_evolves.nestedList constants levels
      exact .collect (Comparison.lawful_levels.readNested evolves lists constants) count

section Lists

variable {bytes : Array UInt8} {constants : Constant.Pool} {count base : Nat} {pool : Pool}
  {references : List (Reference String)}

/-- What is read from the cursor is read from the offset. -/
theorem exists_readAttributes_of_nestedList (small : bytes.size < 2 ^ 32) {levels : Nat}
    (bound : levels ≤ maxNesting + 1) {t : Payload}
    (run : nestedList constants levels count ⟨pool, .ofArray bytes base⟩ = .ok references t) :
    ∃ t' : Scan, readAttributes ⟨bytes⟩ constants count ⟨pool, 0⟩ = .ok references t' ∧
      t'.pool.store = t.pool.store ∧ t'.offset = t.window.position := by
  obtain ⟨trees, len, fits, depth, yields⟩ := (nestedList_readsTrees constants levels).mp run
  obtain ⟨later, planted, same⟩ := Planter.exists_plantTrees 0 yields.planted
  have front := yields.consumes.front
  rw [Window.rest_ofArray] at front
  have moved := yields.consumes.position_eq
  refine ⟨⟨later, (encodeTrees trees).length⟩, ?_, same.symm, ?_⟩
  · have small : Source.size ⟨bytes⟩ < 2 ^ 32 := small
    refine (readAttributes_eq_ok small).mpr ⟨trees, len, fits, by omega, front, ?_, planted⟩
    exact (Nat.zero_add _).symm
  · rw [moved]
    exact (Nat.zero_add _).symm

/-- What is read from the offset is read from the cursor, with one more level of
lists. -/
theorem exists_nestedList_of_readAttributes (base : Nat) (small : bytes.size < 2 ^ 32) {t' : Scan}
    (run : readAttributes ⟨bytes⟩ constants count ⟨pool, 0⟩ = .ok references t') :
    ∃ t, nestedList constants (maxNesting + 1) count ⟨pool, .ofArray bytes base⟩ =
        .ok references t ∧
      t'.pool.store = t.pool.store ∧ t'.offset = t.window.position := by
  have small : Source.size ⟨bytes⟩ < 2 ^ 32 := small
  obtain ⟨trees, len, fits, depth, holds, moved, planted⟩ := (readAttributes_eq_ok small).mp run
  let window := Window.ofArray bytes base
  obtain ⟨later, planted', same⟩ := Planter.exists_plantTrees window.offset planted
  obtain ⟨behind, whole⟩ := holds
  have front : window.rest = encodeTrees trees ++ behind := by
    rw [Window.rest_ofArray]
    exact whole.symm
  obtain ⟨window', consumes, -⟩ := Window.exists_consumes front
  refine ⟨⟨later, window'⟩, ?_, same, ?_⟩
  · refine (nestedList_readsTrees constants (maxNesting + 1)).mpr ?_
    exact ⟨trees, len, fits, Nat.lt_succ_of_le depth, consumes, planted'⟩
  · rw [moved, consumes.position_eq]
    rfl

/-- A list that is read from the cursor of a payload is read in the same way from
the offset of its bytes. The other way round this holds, too, unless the list is
found to be nested too deeply. -/
theorem readSubAttributes_agrees (constants : Constant.Pool) (pool : Pool)
    (small : bytes.size < 2 ^ 32) (count base : Nat) :
    (∀ references t,
      readSubAttributes constants count ⟨pool, .ofArray bytes base⟩ = .ok references t →
        ∃ t' : Scan, readAttributes ⟨bytes⟩ constants count ⟨pool, 0⟩ = .ok references t' ∧
          t'.pool.store = t.pool.store ∧ t'.offset = t.window.position) ∧
    ∀ references t', readAttributes ⟨bytes⟩ constants count ⟨pool, 0⟩ = .ok references t' →
      (∃ t : Payload,
        readSubAttributes constants count ⟨pool, .ofArray bytes base⟩ = .ok references t ∧
          t'.pool.store = t.pool.store ∧ t'.offset = t.window.position) ∨
      ∃ offset t, readSubAttributes constants count ⟨pool, .ofArray bytes base⟩ =
        .error (.nestingTooDeep offset maxNesting) t := by
  constructor
  · intro references t run
    exact exists_readAttributes_of_nestedList small (Nat.le_succ maxNesting) run
  · intro references t' run
    obtain ⟨t, deeper, rows, place⟩ := exists_nestedList_of_readAttributes base small run
    have runs := nestedList_levels constants (Nat.le_succ maxNesting) count
      ⟨pool, .ofArray bytes base⟩ ⟨pool, .ofArray bytes base⟩ ⟨rfl, rfl⟩
    rw [deeper] at runs
    unfold readSubAttributes
    generalize nestedList constants maxNesting count ⟨pool, .ofArray bytes base⟩ = result at runs
    cases runs with
    | @ok found _ s _ told same =>
        obtain ⟨pools, windows⟩ := same
        have equal : references = found := by
          rw [told, Comparison.levels, Reference.renumber_id, List.map_id]
        subst equal
        rw [← show s.pool = t.pool from pools] at rows
        rw [← windows] at place
        exact .inl ⟨s, rfl, rows, place⟩
    | excused deep =>
        obtain ⟨offset, rfl⟩ := deep
        exact .inr ⟨offset, _, rfl⟩

end Lists

/-- The sample, read in both ways. -/
theorem readSubAttributes_agrees_sampleTrees :
    ∃ references t,
      readSubAttributes sampleConstants 4 ⟨{}, .ofArray (encodeTrees sampleTrees).toArray 7⟩ =
        .ok references t ∧
      ∃ t' : Scan, readAttributes ⟨(encodeTrees sampleTrees).toArray⟩ sampleConstants 4 ⟨{}, 0⟩ =
          .ok references t' ∧
        t'.pool.store = t.pool.store ∧ t'.offset = t.window.position := by
  have small : (encodeTrees sampleTrees).toArray.size < 2 ^ 32 := by decide +kernel
  obtain ⟨forth, -⟩ := readSubAttributes_agrees sampleConstants {} small 4 7
  have fine : (match readSubAttributes sampleConstants 4
      ⟨{}, .ofArray (encodeTrees sampleTrees).toArray 7⟩ with
    | .ok _ _ => true
    | .error _ _ => false) = true := by decide +kernel
  cases run : readSubAttributes sampleConstants 4
      ⟨{}, .ofArray (encodeTrees sampleTrees).toArray 7⟩ with
  | ok references t => exact ⟨references, t, rfl, forth references t run⟩
  | error e t =>
      rw [run] at fine
      cases fine

end ClassFormat.Attribute
