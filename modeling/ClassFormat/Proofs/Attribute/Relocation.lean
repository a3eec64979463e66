import ClassFormat.Proofs.Attribute.Comparison
import ClassFormat.Proofs.Attribute.RoundTrip
import ClassFormat.Proofs.Attribute.Session
import ClassFormat.Proofs.Table.History

/-!
# Reading behind other rows

What is read does not depend on the rows that a pool has already. They only take
the first indexes, so that the new rows, and the references to them, have the
indexes that they would have in a new pool with the number of the old rows
added.
-/
namespace ClassFormat

section Congruence

variable {τ : Type} {place place' : Nat → Nat}

theorem Reference.renumber_congr {references : List (Reference τ)}
    (same : ∀ reference ∈ references, place reference.index = place' reference.index) :
    references.map (renumber place) = references.map (renumber place') :=
  List.map_congr_left fun reference member => by rw [renumber, renumber, same reference member]

theorem Row.renumber_congr {row : Row τ} (own : place row.index = place' row.index)
    (same : ∀ reference ∈ row.cited, place reference.index = place' reference.index) :
    row.renumber place = row.renumber place' := by
  unfold renumber
  rw [own]
  congr 1
  refine List.map_congr_left fun cell member => ?_
  have known (reference : Reference τ) (here : reference ∈ cell.value.cited) :=
    same reference (List.mem_flatMap.mpr ⟨cell, member, here⟩)
  obtain ⟨column, raw, size, value⟩ := cell
  cases value with
  | references list =>
      have inner : list.map (Reference.renumber place) = list.map (Reference.renumber place') :=
        Reference.renumber_congr known
      simp only [Cell.renumber, Value.renumber, inner]
  | _ => rfl

end Congruence

namespace Attribute

/-- The store of a pool has a history. -/
def Pool.Recorded (pool : Pool) : Prop :=
  ∃ history : Store.History String, history.Consistent ∧ history.store = pool.store

theorem Pool.respected_recorded :
    Pool.Respected fun pool pool' => pool.Recorded → pool'.Recorded where
  refl _ := id
  trans h k := k ∘ h
  noted _ _ _ _ := id
  opened name pool := by
    rintro ⟨history, consistent, held⟩
    obtain ⟨log, opened⟩ := exists_openTable name pool
    rw [stateAfter_of_ok opened]
    exact ⟨_, consistent.ensureTable name (columnsOf name), by rw [held]⟩
  added {name cells pool pool'} _ _ := by
    rintro ⟨history, consistent, held⟩
    cases run : Pool.addRow name cells pool' with
    | ok reference later =>
        obtain ⟨index, added, -⟩ := addRow_eq_ok.mp run
        rw [← held] at added
        rw [stateAfter_of_ok run]
        exact ⟨_, (consistent.addRow added).1, rfl⟩
    | error e later =>
        obtain ⟨e', failed⟩ := of_addRow_eq_error run
        rw [stateAfter_of_error run]
        refine ⟨_, consistent.mint ((history.store.minted + 1) % 2 ^ 32), ?_⟩
        rw [Store.of_addRow_eq_error failed, held]

theorem Pool.Reachable.recorded {pool : Pool} (h : pool.Reachable) : pool.Recorded :=
  h.of_respected respected_recorded ⟨{}, Store.History.consistent_empty, rfl⟩

/-- The index of a row behind a number of older rows. Indexes have four bytes. -/
def behind (older index : Nat) : Nat := (index + older) % 2 ^ 32

/-- The second pool has the rows of the first one behind those that were there
before, and the tables likewise. -/
structure Joined (before : Store.History String) (p q : Pool)
    (own whole : Store.History String) : Prop where
  sound : p.Sound
  sound' : q.Sound
  held : own.store = p.store
  held' : whole.store = q.store
  consistent : own.Consistent
  consistent' : whole.Consistent
  registered : whole.registered =
    before.registered ++ own.registered.map (Row.renumber (behind before.registered.length))
  tags : whole.store.tags =
    before.store.tags ++ own.store.tags.filter fun tag => tag ∉ before.store.tags

namespace Joined

variable {before own whole : Store.History String} {p q : Pool}

theorem rowCount (h : Joined before p q own whole) :
    q.store.rowCount = before.registered.length + p.store.rowCount := by
  rw [← h.held, ← h.held', h.consistent.rowCount_eq, h.consistent'.rowCount_eq, h.registered,
    List.length_append, List.length_map]

theorem containsTable (h : Joined before p q own whole) {name : String}
    (known : p.store.containsTable name) : q.store.containsTable name := by
  rw [← h.held, Store.containsTable_iff] at known
  rw [← h.held', Store.containsTable_iff, h.tags, List.mem_append, List.mem_filter]
  by_cases old : name ∈ before.store.tags
  · exact .inl old
  · exact .inr ⟨known, decide_eq_true old⟩

theorem openTable (h : Joined before p q own whole) (name : String) :
    ∃ own' whole', Joined before (stateAfter (Pool.openTable name) p)
      (stateAfter (Pool.openTable name) q) own' whole' := by
  have sound := (Pool.respected_evolves.opened name p).sound h.sound
  have sound' := (Pool.respected_evolves.opened name q).sound h.sound'
  obtain ⟨log, opened⟩ := exists_openTable name p
  obtain ⟨log', opened'⟩ := exists_openTable name q
  rw [stateAfter_of_ok opened] at sound ⊢
  rw [stateAfter_of_ok opened'] at sound' ⊢
  refine ⟨{ own with store := own.store.ensureTable name (columnsOf name) },
    { whole with store := whole.store.ensureTable name (columnsOf name) },
    sound, sound', by rw [h.held], by rw [h.held'], h.consistent.ensureTable name _,
    h.consistent'.ensureTable name _, h.registered, ?_⟩
  dsimp only
  rw [Store.tags_ensureTable, Store.tags_ensureTable, h.tags]
  -- A table that was there before is new in the first pool only.
  by_cases old : name ∈ before.store.tags
  · by_cases known : name ∈ own.store.tags <;> simp [old, known, List.filter_append]
  · by_cases known : name ∈ own.store.tags <;> simp [old, known, List.filter_append]

theorem addRow (h : Joined before p q own whole) {name : String} {cells : List (Cell String)}
    {p' q' : Pool} {i j : Nat} (run : Pool.addRow name cells p = .ok (.typed name i) p')
    (run' : Pool.addRow name (cells.map (Cell.renumber (behind before.registered.length))) q =
      .ok (.typed name j) q') (place : j = behind before.registered.length i) :
    ∃ own' whole', Joined before p' q' own' whole' := by
  obtain ⟨index, added, same, -⟩ := addRow_eq_ok.mp run
  obtain ⟨index', added', same', -⟩ := addRow_eq_ok.mp run'
  cases same
  cases same'
  rw [← h.held] at added
  rw [← h.held'] at added'
  obtain ⟨consistent, tags⟩ := h.consistent.addRow added
  obtain ⟨consistent', tags'⟩ := h.consistent'.addRow added'
  refine ⟨_, _, (h.sound.addRow run).1, (h.sound'.addRow run').1, rfl, rfl, consistent,
    consistent', ?_, ?_⟩
  · simp only [Store.History.enter, h.registered, List.map_append, List.append_assoc,
      List.map_singleton, place]
    rfl
  · change q'.store.tags = _ ++ p'.store.tags.filter _
    rw [tags', tags, h.tags]

end Joined

/-- A new pool, and one with older rows, which may run out of indexes first. -/
def Comparison.relocation (before : Store.History String) : Comparison where
  pools :=
    { states := fun p q => ∃ own whole, Joined before p q own whole
      excused := fun _ => False
      spent := fun q => 2 ^ 32 ≤ q.store.rowCount }
  windows := Eq
  place := behind before.registered.length

variable {before : Store.History String}

/-- Rows are added to both pools, unless the older rows have taken the last
index. -/
theorem Joined.matched_addRow {own whole : Store.History String} {p q : Pool}
    (h : Joined before p q own whole) {name : String} {cells : List (Cell String)}
    (present : p.store.containsTable name) (len : cells.length = (columnsOf name).length) :
    Matched (Comparison.relocation before).pools
      (Via (Reference.renumber (behind before.registered.length)))
      (Pool.addRow name cells p)
      (Pool.addRow name (cells.map (Cell.renumber (behind before.registered.length))) q) := by
  have rows := h.rowCount
  rcases Nat.lt_or_ge q.store.rowCount (2 ^ 32) with room | full
  · have len' : (cells.map (Cell.renumber (behind before.registered.length))).length =
        (columnsOf name).length := by rw [List.length_map, len]
    obtain ⟨p', first⟩ := h.sound.exists_addRow present len (by omega)
    obtain ⟨q', second⟩ := h.sound'.exists_addRow (h.containsTable present) len' room
    have place : (q.store.rowCount + 1) % 2 ^ 32 =
        behind before.registered.length ((p.store.rowCount + 1) % 2 ^ 32) := by
      unfold behind
      omega
    rw [first, second]
    refine .ok ?_ (h.addRow first second place)
    rw [place]
    rfl
  · cases run : Pool.addRow name (cells.map (Cell.renumber (behind before.registered.length))) q with
    | ok reference q' =>
        obtain ⟨j, added, -⟩ := addRow_eq_ok.mp run
        have room := h.sound'.numbered.rowCount_lt added
        omega
    | error e q' =>
        obtain ⟨e', failed⟩ := of_addRow_eq_error run
        have same : q'.store.rowCount = q.store.rowCount := by
          rw [Store.of_addRow_eq_error failed]
          rfl
        refine .spent ?_
        change 2 ^ 32 ≤ q'.store.rowCount
        rwa [same]

theorem Comparison.lawful_relocation (before : Store.History String) :
    (relocation before).Lawful where
  toAlikeWindows := .of_eq rfl
  opened name p q := by
    rintro ⟨own, whole, h⟩
    have joined := h.openTable name
    obtain ⟨log, opened⟩ := exists_openTable name p
    obtain ⟨log', opened'⟩ := exists_openTable name q
    rw [stateAfter_of_ok opened, stateAfter_of_ok opened'] at joined
    rw [opened, opened']
    exact .ok rfl joined
  noted event p q := by
    rintro ⟨own, whole, h⟩
    have sound := (Pool.Evolves.note event p).sound h.sound
    have sound' := (Pool.Evolves.note event q).sound h.sound'
    exact .ok rfl ⟨own, whole, { h with sound, sound' }⟩
  added {name cells p q} := by
    rintro ⟨own, whole, h⟩ present len
    exact h.matched_addRow present len

/-- The second pool has all of the first one, and then the rows of a new pool,
with the number of the first ones added to the indexes. -/
structure Pool.Atop (older new both : Pool) : Prop where
  rowCount : both.store.rowCount = older.store.rowCount + new.store.rowCount
  row : ∀ index row, both.store.row index = .ok row ↔
    older.store.row index = .ok row ∨
      ∃ i own, new.store.row i = .ok own ∧ index = i + older.store.rowCount ∧
        row = own.renumber (· + older.store.rowCount)
  rows : ∀ name, both.store.rowsOf name = older.store.rowsOf name ++
    (new.store.rowsOf name).map (Row.renumber (· + older.store.rowCount))
  tags : both.store.tags =
    older.store.tags ++ new.store.tags.filter fun tag => tag ∉ older.store.tags

theorem behind_eq {older index count : Nat} (bound : index ≤ count)
    (room : older + count < 2 ^ 32) : behind older index = index + older :=
  Nat.mod_eq_of_lt (by omega)

theorem Pool.Forest.index_le {pool : Pool} {held : List (Reference String)} {lost : List Nat}
    (h : pool.Forest held lost) {index : Nat} (member : index ∈ pool.store.indexes) :
    index ≤ pool.store.rowCount := by
  rw [h.indexes, List.mem_range'_1] at member
  omega

/-- As long as there are indexes for all rows, they are not given again from
zero on. -/
theorem Joined.registered_eq {own whole : Store.History String} {p q : Pool}
    (h : Joined before p q own whole) {held : List (Reference String)} {lost : List Nat}
    (forest : p.Forest held lost) (room : q.store.rowCount < 2 ^ 32) :
    whole.registered =
      before.registered ++ own.registered.map (Row.renumber (· + before.registered.length)) := by
  rw [h.rowCount] at room
  rw [h.registered]
  congr 1
  refine List.map_congr_left fun row member => ?_
  have found : p.store.row row.index = .ok row := by
    rw [← h.held]
    exact h.consistent.row_iff.mpr ⟨member, rfl⟩
  have present := Store.mem_indexes.mpr ⟨row, found⟩
  have bound := forest.index_le present
  obtain ⟨other, closed⟩ := forest.closed row.index present
  obtain rfl : other = row := Except.ok.inj (closed.found.symm.trans found)
  refine Row.renumber_congr (behind_eq bound room) fun reference cited => ?_
  exact behind_eq (Nat.le_of_lt (Nat.lt_of_lt_of_le (closed.leads reference cited).2 bound)) room

theorem Joined.atop {own whole : Store.History String} {older p q : Pool}
    (h : Joined before p q own whole) (known : before.Consistent)
    (kept : before.store = older.store) {held : List (Reference String)} {lost : List Nat}
    (forest : p.Forest held lost) (room : q.store.rowCount < 2 ^ 32) : older.Atop p q := by
  have registered := h.registered_eq forest room
  have count : older.store.rowCount = before.registered.length := by
    rw [← kept, known.rowCount_eq]
  refine ⟨by rw [h.rowCount, count], fun index row => ?_, fun name => ?_, ?_⟩
  · rw [count, ← h.held', ← kept, ← h.held, h.consistent'.row_iff, known.row_iff, registered,
      List.mem_append, List.mem_map]
    simp only [h.consistent.row_iff]
    constructor
    · rintro ⟨old | ⟨own, member, rfl⟩, rfl⟩
      · exact .inl ⟨old, rfl⟩
      · exact .inr ⟨own.index, own, ⟨member, rfl⟩, rfl, rfl⟩
    · rintro (⟨old, same⟩ | ⟨i, own, ⟨member, rfl⟩, rfl, rfl⟩)
      · exact ⟨.inl old, same⟩
      · exact ⟨.inr ⟨own, member, rfl⟩, rfl⟩
  · rw [count, ← h.held', ← kept, ← h.held, h.consistent'.rowsOf_eq, known.rowsOf_eq,
      h.consistent.rowsOf_eq, registered, List.filter_append, List.filter_map]
    rfl
  · rw [← h.held', ← kept, ← h.held]
    exact h.tags

/-- A read does on the pool of the second state what it does on a new pool: it
has the same outcome, leaves the same of what the states have besides their
pools, and its rows come behind the older ones. -/
structure Repeats {σ ρ α : Type} (older : Pool) (pool : σ → Pool) (rest : σ → ρ)
    (renumber : (Nat → Nat) → α → α) (read : EStateM DecodingError σ α) (s s' : σ) : Prop where
  ok : ∀ a t, read s = .ok a t →
    ∃ t', read s' = .ok (renumber (· + older.store.rowCount) a) t' ∧ rest t' = rest t ∧
      older.Atop (pool t) (pool t')
  error : ∀ e t, read s = .error e t →
    ∃ t', read s' = .error e t' ∧ rest t' = rest t ∧ older.Atop (pool t) (pool t')

theorem joined_start {older : Pool} (sound : older.Sound) (known : before.Consistent)
    (kept : before.store = older.store) : Joined before {} older {} before := by
  refine ⟨Pool.sound_empty, sound, rfl, kept, Store.History.consistent_empty, known, ?_, ?_⟩
  · exact (List.append_nil _).symm
  · exact (List.append_nil _).symm

section Repeats

variable {σ ρ α : Type} {older : Pool} {pool : σ → Pool} {rest : σ → ρ}
  {renumber : (Nat → Nat) → α → α} {yields : α → List (Reference String) → Prop}
  {read : EStateM DecodingError σ α} {s s' : σ}

/-- A read that goes alike on joined pools is repeated, if the references in its
result are among those that it has added rows for. -/
theorem Repeats.of_lockstep (reachable : older.Reachable)
    (alike : ∀ before : Store.History String,
      Lockstep ((Comparison.relocation before).terms pool fun s t => rest s = rest t)
        (Via (renumber (behind before.registered.length))) read read)
    (accounts : Ledger.forest.Accounts pool yields read)
    (congr : ∀ {a given} {place place' : Nat → Nat}, yields a given →
      (∀ reference ∈ given, place reference.index = place' reference.index) →
        renumber place a = renumber place' a)
    (new : pool s = {}) (old : pool s' = older) (same : rest s = rest s')
    (room : (pool (stateAfter read s')).store.rowCount < 2 ^ 32) :
    Repeats older pool rest renumber read s s' := by
  obtain ⟨before, known, kept⟩ := reachable.recorded
  have count : older.store.rowCount = before.registered.length := by
    rw [← kept, known.rowCount_eq]
  have start := joined_start reachable.sound known kept
  rw [← new, ← old] at start
  have runs := alike before s s' ⟨⟨{}, before, start⟩, same⟩
  have fresh : (pool s).Forest [] [] := by
    rw [new]
    exact .empty
  constructor
  · intro a t run
    obtain ⟨given, yielded, gives⟩ := accounts.ok run
    rw [run] at runs
    generalize run' : read s' = result at runs
    cases runs with
    | @ok _ b _ t' told ends =>
        obtain ⟨⟨own, whole, joined⟩, place⟩ := ends
        rw [stateAfter_of_ok run'] at room
        have rows := joined.rowCount
        have forest := gives.forest (by omega) fresh
        have bound (reference : Reference String) (member : reference ∈ given) :=
          forest.index_le (forest.mem_indexes_of_held (List.mem_append_right [] member))
        have plain : b = renumber (· + older.store.rowCount) a := by
          rw [told, count]
          exact congr yielded fun reference member =>
            behind_eq (bound reference member) (by omega)
        subst plain
        exact ⟨t', rfl, place.symm, joined.atop known kept forest room⟩
    | spent full =>
        rw [stateAfter_of_error run'] at room
        exact (Nat.not_le_of_lt room full).elim
  · intro e t run
    have loses := accounts.error run
    rw [run] at runs
    generalize run' : read s' = result at runs
    cases runs with
    | @error _ _ t' ends =>
        obtain ⟨⟨own, whole, joined⟩, place⟩ := ends
        rw [stateAfter_of_error run'] at room
        have rows := joined.rowCount
        obtain ⟨lost, forest⟩ := loses.forest (by omega) fresh
        exact ⟨t', rfl, place.symm, joined.atop known kept forest room⟩
    | excused impossible => exact impossible.elim
    | spent full =>
        rw [stateAfter_of_error run'] at room
        exact (Nat.not_le_of_lt room full).elim

end Repeats

/-- Whatever was read into a pool before, failed reads included, each further
read goes as on a new pool, and its rows come behind those that are there. -/
theorem repeats_of_reachable {pool : Pool} (reachable : pool.Reachable)
    (constants : Constant.Pool) :
    (∀ source count offset,
      (stateAfter (readAttributes source constants count)
          ⟨pool, offset⟩).pool.store.rowCount < 2 ^ 32 →
        Repeats pool Scan.pool Scan.offset (fun place => List.map (Reference.renumber place))
          (readAttributes source constants count) ⟨{}, offset⟩ ⟨pool, offset⟩) ∧
    (∀ count window,
      (stateAfter (readSubAttributes constants count)
          ⟨pool, window⟩).pool.store.rowCount < 2 ^ 32 →
        Repeats pool Payload.pool Payload.window (fun place => List.map (Reference.renumber place))
          (readSubAttributes constants count) ⟨{}, window⟩ ⟨pool, window⟩) ∧
    ∀ name window,
      (stateAfter (readSubRecord constants name)
          ⟨pool, window⟩).pool.store.rowCount < 2 ^ 32 →
        Repeats pool Payload.pool Payload.window Reference.renumber
          (readSubRecord constants name) ⟨{}, window⟩ ⟨pool, window⟩ := by
  have law := Comparison.lawful_relocation
  refine ⟨fun source count offset room => ?_, fun count window room => ?_,
    fun name window room => ?_⟩
  · refine .of_lockstep reachable (fun before => (law before).readAttributes source constants count)
      (Ledger.lawful_forest.readAttributes source constants count) ?_ rfl rfl rfl room
    rintro references given place place' rfl same
    exact Reference.renumber_congr same
  · refine .of_lockstep reachable
      (fun before => (law before).nestedList constants maxNesting count)
      (Ledger.lawful_forest.nestedList constants maxNesting count) ?_ rfl rfl rfl room
    rintro references given place place' rfl same
    exact Reference.renumber_congr same
  · have evolves := Pool.respected_evolves.nestedList constants maxNesting
    have forest := Ledger.lawful_forest
    refine .of_lockstep reachable
      (fun before => (law before).readFields evolves ((law before).nestedList constants maxNesting)
        name)
      (forest.readRecord (forest.readCell (forest.nestedList constants maxNesting)) name) ?_
      rfl rfl rfl room
    rintro reference given place place' ⟨rfl, -⟩ same
    rw [Reference.renumber, Reference.renumber, same reference List.mem_cons_self]

/-- What is left by a read of one attribute more than there is. -/
def samplePool : Pool :=
  (stateAfter (readAttributes ⟨(encodeTrees sampleTrees).toArray⟩ sampleConstants 5) ⟨{}, 0⟩).pool

theorem samplePool_reachable : samplePool.Reachable :=
  .readAttributes _ _ _ _ .empty

theorem repeats_samplePool :
    samplePool.store.rowCount = 15 ∧
      Repeats samplePool Scan.pool Scan.offset (fun place => List.map (Reference.renumber place))
        (readAttributes ⟨(encodeTrees sampleTrees).toArray⟩ sampleConstants 4)
        ⟨{}, 0⟩ ⟨samplePool, 0⟩ ∧
      Repeats samplePool Payload.pool Payload.window
        (fun place => List.map (Reference.renumber place)) (readSubAttributes sampleConstants 4)
        ⟨{}, .ofArray (encodeTrees sampleTrees).toArray 3⟩
        ⟨samplePool, .ofArray (encodeTrees sampleTrees).toArray 3⟩ ∧
      Repeats samplePool Payload.pool Payload.window Reference.renumber
        (readSubRecord sampleConstants "LineNumberTable")
        ⟨{}, .ofArray #[0, 1, 0, 0, 0, 7] 0⟩ ⟨samplePool, .ofArray #[0, 1, 0, 0, 0, 7] 0⟩ := by
  obtain ⟨lists, nested, records⟩ := repeats_of_reachable samplePool_reachable sampleConstants
  refine ⟨by decide +kernel, lists _ 4 0 ?_, nested 4 _ ?_, records "LineNumberTable" _ ?_⟩
  · decide +kernel
  · decide +kernel
  · decide +kernel

end Attribute

end ClassFormat
