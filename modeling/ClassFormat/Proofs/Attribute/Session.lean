import Mathlib.Data.List.Nodup
import Mathlib.Data.List.Pairwise
import Mathlib.Logic.Relation
import ClassFormat.Proofs.Attribute.Accounts

/-!
# Pools in post-order

After any calls that read into a new pool, failed or not, its rows are trees
that are numbered in post-order. What was returned by the calls are roots of
them, and these are all of the roots when no call failed.
-/
namespace ClassFormat.Attribute

namespace Pool

/-- The rows are trees. They are numbered from one on, every row behind the rows
that it has references to, and no row is referred to twice, by the roots
included. -/
structure PostOrder (pool : Pool) (roots : List (Reference String)) : Prop where
  indexes : pool.store.indexes = List.range' 1 pool.store.rowCount
  closed : ∀ index ∈ pool.store.indexes, ∃ row, pool.Closed index row
  leads : ∀ reference ∈ roots, pool.Leads reference
  once : ((pool.citations ++ roots).map Reference.index).Nodup

/-- Every row is referred to. -/
structure Whole (pool : Pool) (roots : List (Reference String)) : Prop
    extends PostOrder pool roots where
  all : ((pool.citations ++ roots).map Reference.index).Perm pool.store.indexes

/-- The row of the second index is below the one of the first. -/
def Reaches (pool : Pool) : Nat → Nat → Prop :=
  Relation.ReflTransGen fun parent child =>
    child ∈ (pool.cited parent).map Reference.index

variable {pool : Pool} {held roots : List (Reference String)} {lost : List Nat}

theorem Forest.postOrder (h : Forest pool held lost) : pool.PostOrder held := by
  refine ⟨h.indexes, h.closed, h.leads, ?_⟩
  have distinct : pool.store.indexes.Nodup :=
    (Store.indexes_pairwise pool.store).imp Nat.ne_of_lt
  have whole := h.once.nodup_iff.mpr distinct
  rw [List.map_append]
  exact (List.nodup_append.mp whole).1

theorem Forest.whole (h : Forest pool held []) : pool.Whole held := by
  refine ⟨h.postOrder, ?_⟩
  have once := h.once
  rwa [List.append_nil, ← List.map_append] at once

/-- The order of the roots does not matter. -/
theorem Whole.of_perm (h : pool.Whole roots) {others : List (Reference String)}
    (same : roots.Perm others) : pool.Whole others := by
  have moved := (same.append_left pool.citations).map Reference.index
  refine ⟨⟨h.indexes, h.closed, fun reference member => ?_, ?_⟩, moved.symm.trans h.all⟩
  · exact h.leads reference (same.mem_iff.mpr member)
  · exact moved.nodup_iff.mp h.once

namespace PostOrder

theorem mem_indexes_of_cited {parent child : Nat}
    (below : child ∈ (pool.cited parent).map Reference.index) : parent ∈ pool.store.indexes := by
  unfold cited at below
  split at below
  next row found => exact Store.mem_indexes.mpr ⟨row, found⟩
  next => cases below

theorem lt_of_cited (h : pool.PostOrder roots) {parent child : Nat}
    (below : child ∈ (pool.cited parent).map Reference.index) : child < parent := by
  obtain ⟨row, closed⟩ := h.closed parent (mem_indexes_of_cited below)
  rw [cited_eq closed.found] at below
  obtain ⟨reference, member, rfl⟩ := List.mem_map.mp below
  exact (closed.leads reference member).2

theorem distinct (h : pool.PostOrder roots) :
    (pool.store.indexes.flatMap fun index => (pool.cited index).map Reference.index).Nodup ∧
      (∀ child parent, child ∈ (pool.cited parent).map Reference.index →
        child ∉ roots.map Reference.index) := by
  have once := h.once
  rw [List.map_append, citations, List.map_flatMap, List.nodup_append] at once
  obtain ⟨first, -, apart⟩ := once
  refine ⟨first, fun child parent below root => ?_⟩
  refine apart child ?_ child root rfl
  exact List.mem_flatMap.mpr ⟨parent, mem_indexes_of_cited below, below⟩

/-- There is at most one row above another one. -/
theorem parent_unique (h : pool.PostOrder roots) {parent other child : Nat}
    (below : child ∈ (pool.cited parent).map Reference.index)
    (below' : child ∈ (pool.cited other).map Reference.index) : parent = other := by
  by_contra different
  have symmetric : Std.Symm
      (Function.onFun List.Disjoint fun index => (pool.cited index).map Reference.index) :=
    ⟨fun _ _ apart child left right => apart right left⟩
  have apart := (List.nodup_flatMap.mp h.distinct.1).2
  exact apart.forall (mem_indexes_of_cited below) (mem_indexes_of_cited below') different below
    below'

theorem root_unique (h : pool.PostOrder roots) {root other index : Nat}
    (member : root ∈ roots.map Reference.index) (member' : other ∈ roots.map Reference.index)
    (reached : pool.Reaches root index) (reached' : pool.Reaches other index) : root = other := by
  induction reached with
  | refl =>
      rcases reached'.cases_tail with same | ⟨parent, -, below⟩
      · exact same
      · exact (h.distinct.2 root parent below member).elim
  | @tail parent child first below ih =>
      rcases reached'.cases_tail with same | ⟨parent', second, below'⟩
      · subst same
        exact (h.distinct.2 _ parent below member').elim
      · rw [h.parent_unique below' below] at second
        exact ih second

end PostOrder

/-- Every row is below a root. -/
theorem Whole.exists_root (h : pool.Whole roots) {index : Nat}
    (member : index ∈ pool.store.indexes) :
    ∃ root ∈ roots.map Reference.index, pool.Reaches root index := by
  induction distance : pool.store.rowCount - index using Nat.strong_induction_on
    generalizing index with
  | _ distance ih =>
    have used := h.all.symm.subset member
    rw [List.map_append, List.mem_append, citations, List.map_flatMap] at used
    rcases used with cited | root
    · obtain ⟨parent, present, below⟩ := List.mem_flatMap.mp cited
      have later := h.toPostOrder.lt_of_cited below
      have bound := present
      rw [h.indexes, List.mem_range'_1] at bound
      obtain ⟨root, known, reached⟩ := ih _ (by omega) present rfl
      exact ⟨root, known, reached.tail below⟩
    · exact ⟨index, root, .refl⟩

end Pool

/-- A call that reads into a pool, with its arguments. -/
inductive Call where
  | attributes (source : Source) (constants : Constant.Pool) (count offset : Nat)
  | subAttributes (constants : Constant.Pool) (count : Nat) (window : Window)
  | subRecord (constants : Constant.Pool) (name : String) (window : Window)

/-- Reads from an offset on, of which only the pool is kept. -/
def Pool.onScan {α : Type} (offset : Nat) (read : ScanReader α) : EStateM DecodingError Pool α :=
  fun pool =>
    match read ⟨pool, offset⟩ with
    | .ok a s => .ok a s.pool
    | .error e s => .error e s.pool

theorem Pool.stateAfter_onScan {α : Type} (offset : Nat) (read : ScanReader α) (pool : Pool) :
    stateAfter (Pool.onScan offset read) pool = (stateAfter read ⟨pool, offset⟩).pool := by
  unfold stateAfter Pool.onScan
  cases read ⟨pool, offset⟩ <;> rfl

/-- The references that the call returns. -/
def Call.run : Call → EStateM DecodingError Pool (List (Reference String))
  | attributes source constants count offset =>
    Pool.onScan offset (readAttributes source constants count)
  | subAttributes constants count window => do
    let (references, _) ← Pool.onPayload window (readSubAttributes constants count)
    return references
  | subRecord constants name window => do
    let (reference, _) ← Pool.onPayload window (readSubRecord constants name)
    return [reference]

/-- A pool, all that was returned by the calls on it, and whether one of them
has failed. -/
structure Session where
  pool : Pool := {}
  returned : List (Reference String) := []
  failed : Bool := false

namespace Session

/-- The session after one more call. -/
def next (session : Session) (call : Call) : Session :=
  match call.run session.pool with
  | .ok references pool => { session with pool, returned := session.returned ++ references }
  | .error _ pool => { session with pool, failed := true }

/-- The session of calls on a new pool. -/
def run (calls : List Call) : Session :=
  calls.foldl next {}

end Session

namespace Ledger

variable {ledger : Ledger}

theorem Accounts.onScan {α : Type} {yields : α → List (Reference String) → Prop}
    {read : ScanReader α} (h : ledger.Accounts Scan.pool yields read) (offset : Nat) :
    ledger.Accounts id yields (Pool.onScan offset read) := by
  constructor
  · intro s t a run
    unfold Pool.onScan at run
    split at run
    next done =>
      cases run
      exact h.ok done
    next => cases run
  · intro s t e run
    unfold Pool.onScan at run
    split at run
    next => cases run
    next failed =>
      cases run
      exact h.error failed

theorem Lawful.run (law : ledger.Lawful) (call : Call) :
    ledger.Accounts id GivesAll call.run := by
  cases call with
  | attributes source constants count offset =>
      exact (law.readAttributes source constants count).onScan offset
  | subAttributes constants count window =>
      have nested := (law.nestedList constants maxNesting count).onPayload window
      refine law.bind nested fun result given known => law.pure ?_
      rwa [List.append_nil]
  | subRecord constants name window =>
      have cells := law.readCell (law.nestedList constants maxNesting)
      have record := (law.readRecord cells name).onPayload window
      refine law.bind record fun result given known => law.pure ?_
      rw [List.append_nil]
      exact known.1

end Ledger

namespace Session

/-- The pool is a forest from which all returned references are held, and none
was lost if no call failed. -/
def Tended (session : Session) : Prop :=
  session.pool.store.rowCount < 2 ^ 32 →
    ∃ lost, session.pool.Forest session.returned lost ∧ (session.failed = false → lost = [])

theorem Tended.next {session : Session} (h : session.Tended) (call : Call) :
    (session.next call).Tended := by
  have law := Ledger.lawful_forest.run call
  unfold Session.next
  cases run : call.run session.pool with
  | ok references pool =>
      obtain ⟨given, rfl, gives⟩ := law.ok run
      intro room
      have room' := Nat.lt_of_le_of_lt gives.evolves.grown.rowCount_le room
      obtain ⟨lost, forest, complete⟩ := h room'
      exact ⟨lost, gives.forest room forest, complete⟩
  | error e pool =>
      have loses := law.error run
      intro room
      have room' := Nat.lt_of_le_of_lt loses.evolves.grown.rowCount_le room
      obtain ⟨lost, forest, -⟩ := h room'
      obtain ⟨lost', forest'⟩ := loses.forest room forest
      exact ⟨lost', forest', fun impossible => nomatch impossible⟩

theorem run_tended (calls : List Call) : (run calls).Tended := by
  have start : Tended {} := fun _ => ⟨[], .empty, fun _ => rfl⟩
  unfold run
  generalize ({} : Session) = session at start
  induction calls generalizing session with
  | nil => exact start
  | cons call calls ih => exact ih _ (start.next call)

/-- The pool of a session comes about by the steps that every relation of pools
respects. -/
theorem of_respected {R : Pool → Pool → Prop} (law : Pool.Respected R) (calls : List Call) :
    R {} (run calls).pool := by
  have each (session : Session) (call : Call) : R session.pool (session.next call).pool := by
    have accounts := (Ledger.lawful_ofRelation law).run call
    unfold Session.next
    cases run : call.run session.pool with
    | ok references pool =>
        obtain ⟨_, -, related⟩ := accounts.ok run
        exact related
    | error e pool => exact accounts.error run
  induction calls using List.reverseRecOn with
  | nil => exact law.refl _
  | append_singleton calls call ih =>
      rw [run, List.foldl_append, List.foldl_cons, List.foldl_nil, ← run]
      exact law.trans ih (each _ call)

theorem run_sound (calls : List Call) : (run calls).pool.Sound :=
  (of_respected Pool.respected_evolves calls).sound Pool.sound_empty

end Session

end ClassFormat.Attribute
