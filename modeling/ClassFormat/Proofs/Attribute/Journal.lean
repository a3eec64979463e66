import ClassFormat.Proofs.Attribute.Relocation

/-!
# What the log tells of a pool

A pool notes every table when it is made and every row when it is registered.
So the tables stand in the order in which the log names them, and each has the
rows that the log has in it, one behind the other.
-/
namespace ClassFormat

namespace Event

/-- The name of the table that was made. -/
def created? : Event → Option String
  | tableCreated name _ => some name
  | _ => none

/-- The row that was registered. -/
def added? : Event → Option (Row String)
  | attributeRow row => some row
  | _ => none

end Event

namespace Attribute

namespace Pool

/-- The names of the tables, in the order in which they were made. -/
def created (pool : Pool) : List String := pool.log.toList.filterMap Event.created?

/-- The rows, in the order in which they were registered. -/
def added (pool : Pool) : List (Row String) := pool.log.toList.filterMap Event.added?

/-- The rows of a name, in the order in which they were registered. -/
def addedTo (pool : Pool) (name : String) : List (Row String) :=
  pool.added.filter fun row => row.table = name

/-- The history of the pool is that in its log. -/
def Journaled (pool : Pool) : Prop :=
  ∃ history : Store.History String, history.Consistent ∧ history.store = pool.store ∧
    history.store.tags = pool.created ∧ history.registered = pool.added

variable {pool pool' : Pool}

theorem mem_added {row : Row String} :
    row ∈ pool.added ↔ .attributeRow row ∈ pool.log.toList := by
  have same (event : Event) : event.added? = some row ↔ event = .attributeRow row := by
    cases event <;> simp [Event.added?]
  simp only [added, List.mem_filterMap, same, exists_eq_right]

theorem journaled_empty : Journaled {} :=
  ⟨{}, Store.History.consistent_empty, rfl, rfl, rfl⟩

/-- A table that is made is noted, and no row. -/
theorem created_of_openTable {name : String} (new : ¬pool.store.containsTable name)
    (opened : openTable name pool = .ok () pool') :
    pool'.created = pool.created ++ [name] ∧ pool'.added = pool.added := by
  rw [openTable_of_new new] at opened
  cases opened
  by_cases kind : (Kind.ofName? name).isNone <;>
    simp [created, added, opening, kind, Event.created?, Event.added?, List.filterMap_cons]

theorem log_of_addRow_eq_error {name : String} {cells : List (Cell String)} {e : DecodingError}
    (failed : addRow name cells pool = .error e pool') : pool'.log = pool.log := by
  obtain ⟨store, log⟩ := pool
  unfold addRow at failed
  dsimp only at failed
  split at failed
  next => cases failed
  next =>
    cases failed
    rfl

/-- What the log tells is told of the store after every step, too. -/
theorem respected_journaled : Respected fun pool pool' => pool.Journaled → pool'.Journaled where
  refl _ := id
  trans h k := k ∘ h
  noted name offset count pool := by
    rintro ⟨history, consistent, held, tags, registered⟩
    refine ⟨history, consistent, held, ?_, ?_⟩
    · simpa [created, Event.created?, List.filterMap_cons] using tags
    · simpa [added, Event.added?, List.filterMap_cons] using registered
  opened name pool := by
    rintro ⟨history, consistent, held, tags, registered⟩
    by_cases known : pool.store.containsTable name
    · rw [stateAfter_of_ok (openTable_of_known known)]
      exact ⟨history, consistent, held, tags, registered⟩
    · obtain ⟨log, opened⟩ := exists_openTable name pool
      obtain ⟨createdNow, same⟩ := created_of_openTable known opened
      rw [stateAfter_of_ok opened]
      refine ⟨_, consistent.ensureTable name (columnsOf name), by rw [held], ?_, ?_⟩
      · have new : name ∉ history.store.tags := by
          rwa [held, ← Store.containsTable_iff]
        rw [Store.tags_ensureTable, if_neg new, createdNow, tags]
      · rw [same]
        exact registered
  added {name cells pool pool'} _ _ := by
    rintro ⟨history, consistent, held, tags, registered⟩
    cases run : Pool.addRow name cells pool' with
    | ok reference later =>
        obtain ⟨index, added, -, log⟩ := addRow_eq_ok.mp run
        rw [← held] at added
        obtain ⟨consistent', same⟩ := consistent.addRow added
        rw [stateAfter_of_ok run]
        refine ⟨_, consistent', rfl, ?_, ?_⟩
        · change later.store.tags = _
          rw [same, tags, created, created, log]
          simp [Event.created?, List.filterMap_cons]
        · change history.registered ++ _ = _
          rw [registered, Pool.added, Pool.added, log]
          simp [Event.added?]
    | error e later =>
        obtain ⟨e', failed⟩ := of_addRow_eq_error run
        rw [stateAfter_of_error run, Journaled, created, Pool.added, log_of_addRow_eq_error run]
        refine ⟨_, consistent.mint ((history.store.minted + 1) % 2 ^ 32), ?_, tags, registered⟩
        rw [Store.of_addRow_eq_error failed, held]

/-- A row is told of when it is registered, and not when it is refused. -/
theorem Journaled.addRow (h : pool.Journaled) {name : String} {cells : List (Cell String)}
    (len : cells.length = (columnsOf name).length) :
    (stateAfter (Pool.addRow name cells) pool).Journaled := by
  have reached : (stateAfter (openTable name) pool).Journaled → pool.Journaled := fun _ => h
  exact respected_journaled.added reached len h

theorem Journaled.noteUnread (h : pool.Journaled) {name : String} {offset count : Nat} {u : Unit}
    (noted : Attribute.noteUnread name offset count pool = .ok u pool') : pool'.Journaled := by
  unfold Attribute.noteUnread at noted
  split at noted
  · cases noted
    exact respected_journaled.noted name offset count pool h
  · cases noted
    exact h

/-- The rows of the pool are those in the log. -/
theorem Journaled.row_iff (h : pool.Journaled) (index : Nat) (row : Row String) :
    pool.store.row index = .ok row ↔ row ∈ pool.added ∧ row.index = index := by
  obtain ⟨history, consistent, held, -, registered⟩ := h
  rw [← held, consistent.row_iff, registered]

end Pool

end Attribute

end ClassFormat
