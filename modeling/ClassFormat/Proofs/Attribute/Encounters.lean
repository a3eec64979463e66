import ClassFormat.Proofs.Attribute.Marks
import ClassFormat.Proofs.Attribute.Owners

/-!
# First encounters

What a pool holds and notes after any calls, failed or not, by the marks that reading
leaves. The tables stand in the order in which their names were first begun, and the
ones without a kind are noted in this order, too. What attributes have left unread is
noted in the order in which they were done. Rows are numbered as they are noted.
-/
namespace ClassFormat

namespace Event

/-- The name that is of no kind. -/
def unknown? : Event → Option String
  | unknownAttribute name => some name
  | _ => none

/-- The attribute that has left bytes unread, from where on, and how many. -/
def leftover? : Event → Option (String × Nat × Nat)
  | unreadBytes name offset count => some (name, offset, count)
  | _ => none

end Event

namespace Attribute

namespace Mark

def begun? : Mark → Option String
  | begun _ name => some name
  | done .. => none

/-- What an attribute has behind its cells, if there is anything. -/
def leftover? (pool : Pool) : Mark → Option (String × Nat × Nat)
  | begun .. => none
  | done name reference offset length => do
    let row ← (pool.resolve reference).toOption
    if row.size < length then some (name, saturate (offset + row.size), length - row.size)
    else none

end Mark

/-- The names that were begun, each where it was first. -/
def encountered (marks : List Mark) : List String :=
  (marks.filterMap Mark.begun?).eraseDups

theorem eraseDups_concat (names : List String) (name : String) :
    (names ++ [name]).eraseDups =
      if name ∈ names.eraseDups then names.eraseDups else names.eraseDups ++ [name] := by
  rw [List.eraseDups_append]
  by_cases known : name ∈ names
  · simp [List.removeAll, known]
  · simp [List.removeAll, known, List.eraseDups_cons]

theorem encountered_begun (marks : List Mark) (inside : List String) (name : String) :
    encountered (marks ++ [.begun inside name]) =
      if name ∈ encountered marks then encountered marks else encountered marks ++ [name] := by
  unfold encountered
  rw [List.filterMap_append]
  exact eraseDups_concat _ name

theorem encountered_done (marks : List Mark) (name : String) (reference : Reference String)
    (offset length : Nat) :
    encountered (marks ++ [.done name reference offset length]) = encountered marks := by
  simp [encountered, Mark.begun?, List.filterMap_cons]

namespace Pool

/-- The names that were noted to be of no kind. -/
def unknown (pool : Pool) : List String := pool.log.toList.filterMap Event.unknown?

/-- What was noted to be left unread. -/
def leftovers (pool : Pool) : List (String × Nat × Nat) :=
  pool.log.toList.filterMap Event.leftover?

/-- The rows in the log are numbered from one on, in four bytes. -/
def InTurn (pool : Pool) : Prop :=
  pool.added.map Row.index = (List.range pool.store.rowCount).map fun k => (k + 1) % 2 ^ 32

/-- What the marks tell of a pool, inside of the records that are being read. -/
structure Told (inside : List String) (pool : Pool) (marks : List Mark) : Prop where
  tags : pool.store.tags = encountered marks
  unknown : pool.unknown = (encountered marks).filter fun name => (Kind.ofName? name).isNone
  decoded : ∀ name reference offset length, .done name reference offset length ∈ marks →
    ∃ row, pool.resolve reference = .ok row ∧ row.table = name ∧ row.size ≤ length
  leftovers : pool.leftovers = marks.filterMap (Mark.leftover? pool)
  around : ∀ outer name, name :: outer <:+ inside → .begun outer name ∈ marks
  order : ∀ i outer parent name, marks[i]? = some (.begun (parent :: outer) name) →
    .begun outer parent ∈ marks.take i

variable {inside : List String} {pool later : Pool} {marks : List Mark}

theorem told_empty : Told [] {} [] := by
  refine ⟨rfl, rfl, by simp, rfl, ?_, by simp⟩
  intro outer name suffix
  cases List.suffix_nil.mp suffix

theorem openTable_notes {name : String} (new : ¬pool.store.containsTable name)
    (opened : openTable name pool = .ok () later) :
    later.unknown = pool.unknown ++ [name].filter (fun name => (Kind.ofName? name).isNone) ∧
      later.leftovers = pool.leftovers := by
  rw [openTable_of_new new] at opened
  cases opened
  by_cases kind : (Kind.ofName? name).isNone <;>
    simp [unknown, leftovers, opening, kind, Event.unknown?, Event.leftover?, List.filterMap_cons]

theorem noteUnread_notes (pool : Pool) (name : String) (offset count : Nat) :
    (stateAfter (noteUnread name offset count) pool).store = pool.store ∧
      (stateAfter (noteUnread name offset count) pool).unknown = pool.unknown ∧
      (stateAfter (noteUnread name offset count) pool).leftovers =
        pool.leftovers ++ if 0 < count then [(name, offset, count)] else [] := by
  unfold noteUnread
  by_cases some : 0 < count
  · have noted : stateAfter (note (.unreadBytes name offset count)) pool =
        { pool with log := pool.log.push (.unreadBytes name offset count) } := rfl
    rw [if_pos some, if_pos some, noted]
    refine ⟨rfl, ?_, ?_⟩
    · simp [Pool.unknown, Event.unknown?, List.filterMap_cons]
    · simp [Pool.leftovers, Event.leftover?]
  · rw [if_neg some, if_neg some, List.append_nil]
    exact ⟨rfl, rfl, rfl⟩

namespace Told

theorem leftover?_grown (told : Told inside pool marks) (grown : pool.store.Extends later.store) :
    marks.filterMap (Mark.leftover? later) = marks.filterMap (Mark.leftover? pool) := by
  refine List.filterMap_congr fun mark member => ?_
  cases mark with
  | begun => rfl
  | done name reference offset length =>
      obtain ⟨row, found, -⟩ := told.decoded _ _ _ _ member
      have found' : later.resolve reference = .ok row := grown.resolve found
      simp only [Mark.leftover?, found, found']

theorem decoded_grown (told : Told inside pool marks) (grown : pool.store.Extends later.store)
    (name : String) (reference : Reference String) (offset length : Nat)
    (member : .done name reference offset length ∈ marks) :
    ∃ row, later.resolve reference = .ok row ∧ row.table = name ∧ row.size ≤ length := by
  obtain ⟨row, found, table, fits⟩ := told.decoded _ _ _ _ member
  exact ⟨row, grown.resolve found, table, fits⟩

/-- Rows come without a mark. -/
theorem grown (told : Told inside pool marks) (grown : pool.store.Extends later.store)
    (tags : later.store.tags = pool.store.tags) (unknown : later.unknown = pool.unknown)
    (leftovers : later.leftovers = pool.leftovers) : Told inside later marks where
  tags := tags.trans told.tags
  unknown := unknown.trans told.unknown
  decoded := told.decoded_grown grown
  leftovers := by rw [leftovers, told.leftovers, told.leftover?_grown grown]
  around := told.around
  order := told.order

theorem order_append (told : Told inside pool marks) {mark : Mark}
    (last : ∀ outer parent name, mark = .begun (parent :: outer) name →
      .begun outer parent ∈ marks) :
    ∀ i outer parent name, (marks ++ [mark])[i]? = some (.begun (parent :: outer) name) →
      .begun outer parent ∈ (marks ++ [mark]).take i := by
  intro i outer parent name here
  rcases Nat.lt_trichotomy i marks.length with before | rfl | behind
  · rw [List.getElem?_append_left before] at here
    rw [List.take_append_of_le_length before.le]
    exact told.order i outer parent name here
  · rw [List.getElem?_concat_length] at here
    rw [List.take_left]
    exact last outer parent name (Option.some.inj here)
  · rw [List.getElem?_eq_none (by simpa using Nat.succ_le_of_lt behind)] at here
    cases here

/-- A name of no kind is noted where it is first. -/
theorem begun_notes (told : Told inside pool marks) (name : String) :
    (stateAfter (openTable name) pool).unknown =
        (encountered (marks ++ [.begun inside name])).filter
          (fun name => (Kind.ofName? name).isNone) ∧
      (stateAfter (openTable name) pool).leftovers = pool.leftovers := by
  obtain ⟨log, opened⟩ := exists_openTable name pool
  rw [encountered_begun, ← told.tags]
  by_cases known : pool.store.containsTable name
  · rw [stateAfter_of_ok (openTable_of_known known), if_pos (Store.containsTable_iff.mp known),
      told.unknown, told.tags]
    exact ⟨rfl, rfl⟩
  · obtain ⟨unknown, leftovers⟩ := openTable_notes known opened
    rw [stateAfter_of_ok opened, if_neg (mt Store.containsTable_iff.mpr known),
      List.filter_append, unknown, leftovers, told.unknown, told.tags]
    exact ⟨rfl, rfl⟩

/-- The table of a name is there as soon as the name was begun. -/
theorem begun (told : Told inside pool marks) (name : String) :
    Told (name :: inside) (stateAfter (openTable name) pool) (marks ++ [.begun inside name]) := by
  obtain ⟨log, opened⟩ := exists_openTable name pool
  have tags : (stateAfter (openTable name) pool).store.tags =
      encountered (marks ++ [.begun inside name]) := by
    rw [stateAfter_of_ok opened, Store.tags_ensureTable, told.tags, encountered_begun]
  have grown : pool.store.Extends (stateAfter (openTable name) pool).store := by
    rw [stateAfter_of_ok opened]
    exact Store.extends_ensureTable pool.store name (columnsOf name)
  obtain ⟨unknown, leftovers⟩ := told.begun_notes name
  constructor
  case tags => exact tags
  case unknown => exact unknown
  case decoded =>
    intro other reference offset length member
    rcases List.mem_append.mp member with old | new
    · exact told.decoded_grown grown other reference offset length old
    · cases List.mem_singleton.mp new
  case leftovers =>
    rw [leftovers, told.leftovers, List.filterMap_append, told.leftover?_grown grown]
    exact (List.append_nil _).symm
  case around =>
    intro outer other suffix
    rcases List.suffix_cons_iff.mp suffix with same | further
    · cases same
      exact List.mem_append_right _ List.mem_cons_self
    · exact List.mem_append_left _ (told.around outer other further)
  case order =>
    refine told.order_append fun outer parent other same => ?_
    cases same
    exact told.around outer parent (List.suffix_refl _)

theorem outer {name : String} (told : Told (name :: inside) pool marks) :
    Told inside pool marks := by
  refine ⟨told.tags, told.unknown, told.decoded, told.leftovers, ?_, told.order⟩
  exact fun outer other suffix => told.around outer other (suffix.trans (List.suffix_cons _ _))

theorem added (told : Told inside pool marks) (name : String) (cells : List (Cell String)) :
    Told inside (stateAfter (addRow name cells) pool) marks := by
  cases run : addRow name cells pool with
  | ok reference later =>
      obtain ⟨index, registered, -, log⟩ := addRow_eq_ok.mp run
      obtain ⟨-, placed⟩ := Store.addRow_eq_ok.mp registered
      obtain ⟨-, position, -, -, -, same⟩ := Store.addRowAt_eq_ok.mp placed
      rw [stateAfter_of_ok run]
      refine told.grown (Store.resolve_of_addRow registered).1 ?_ ?_ ?_
      · have tags := Store.map_tag_withRow { pool.store with minted := index } position index
          ⟨name, 0, cells⟩
        rw [← same] at tags
        simpa [Store.tags] using congrArg Array.toList tags
      · simp [Pool.unknown, log, Event.unknown?, List.filterMap_cons]
      · simp [Pool.leftovers, log, Event.leftover?, List.filterMap_cons]
  | error e later =>
      obtain ⟨cause, refused⟩ := of_addRow_eq_error run
      have store := Store.of_addRow_eq_error refused
      have log := log_of_addRow_eq_error run
      rw [stateAfter_of_error run]
      refine told.grown ?_ (by rw [store]; rfl) (by rw [Pool.unknown, log]; rfl)
        (by rw [Pool.leftovers, log]; rfl)
      rw [store]
      exact ⟨fun _ table => table, fun _ _ row => row⟩

/-- What is left of an attribute is noted as soon as it is done. -/
theorem done (told : Told inside pool marks) {name : String} {reference : Reference String}
    {row : Row String} {offset length : Nat} (found : pool.resolve reference = .ok row)
    (table : row.table = name) (fits : row.size ≤ length) :
    Told inside
      (stateAfter (noteUnread name (saturate (offset + row.size)) (length - row.size)) pool)
      (marks ++ [.done name reference offset length]) := by
  have noted := noteUnread_notes pool name (saturate (offset + row.size)) (length - row.size)
  generalize stateAfter (noteUnread name (saturate (offset + row.size)) (length - row.size)) pool =
    later at noted
  obtain ⟨store, unknown, leftovers⟩ := noted
  have grown : pool.store.Extends later.store := store ▸ .refl _
  have here : later.resolve reference = .ok row := grown.resolve found
  constructor
  case tags => rw [store, told.tags, encountered_done]
  case unknown => rw [unknown, told.unknown, encountered_done]
  case decoded =>
    intro other reference' offset' length' member
    rcases List.mem_append.mp member with old | new
    · exact told.decoded_grown grown other reference' offset' length' old
    · cases List.mem_singleton.mp new
      exact ⟨row, here, table, fits⟩
  case leftovers =>
    rw [leftovers, told.leftovers, List.filterMap_append, told.leftover?_grown grown]
    congr 1
    by_cases left : row.size < length
    · rw [if_pos (Nat.sub_pos_of_lt left)]
      simp [Mark.leftover?, here, Except.toOption, left]
    · rw [if_neg (by omega)]
      simp [Mark.leftover?, here, Except.toOption, left]
  case around =>
    exact fun outer other suffix => List.mem_append_left _ (told.around outer other suffix)
  case order => exact told.order_append fun outer parent other same => by cases same

end Told

theorem inTurn_empty : InTurn {} := rfl

theorem InTurn.of_same (turn : pool.InTurn) (added : later.added = pool.added)
    (rows : later.store.rowCount = pool.store.rowCount) : later.InTurn := by
  rw [InTurn, added, rows]
  exact turn

/-- The next index is one more, as long as there is one. -/
theorem InTurn.addRow (turn : pool.InTurn) (sound : pool.Sound) {name : String}
    {cells : List (Cell String)} {reference : Reference String}
    (run : Pool.addRow name cells pool = .ok reference later) : later.InTurn := by
  obtain ⟨index, registered, -, log⟩ := addRow_eq_ok.mp run
  obtain ⟨next, -⟩ := Store.addRow_eq_ok.mp registered
  have added : later.added = pool.added ++ [⟨name, index, cells⟩] := by
    rw [Pool.added, Pool.added, log]
    simp [Event.added?]
  rw [sound.numbered.next (sound.numbered.rowCount_lt registered)] at next
  rw [InTurn, added, (sound.addRow run).2, List.range_succ, List.map_append, List.map_append, turn]
  simp [next]

theorem respected_inTurn :
    Respected fun s t => s.Evolves t ∧ (s.Sound → s.InTurn → t.InTurn) where
  refl s := ⟨respected_evolves.refl s, fun _ turn => turn⟩
  trans h k := by
    refine ⟨respected_evolves.trans h.1 k.1, fun sound turn => ?_⟩
    exact k.2 (h.1.sound sound) (h.2 sound turn)
  noted name offset count s := by
    refine ⟨respected_evolves.noted name offset count s, fun _ turn => turn.of_same ?_ rfl⟩
    simp [Pool.added, Event.added?, List.filterMap_cons]
  opened name s := by
    refine ⟨respected_evolves.opened name s, fun _ turn => turn.of_same (added_openTable name s) ?_⟩
    obtain ⟨log, opened⟩ := exists_openTable name s
    rw [stateAfter_of_ok opened, Store.rowCount, Store.rows_ensureTable]
    rfl
  added {name cells s t} before len := by
    refine ⟨respected_evolves.added before.1 len, fun sound turn => ?_⟩
    cases run : Pool.addRow name cells t with
    | ok reference later =>
        rw [stateAfter_of_ok run]
        exact turn.addRow sound run
    | error e later =>
        obtain ⟨cause, refused⟩ := of_addRow_eq_error run
        rw [stateAfter_of_error run]
        refine turn.of_same (by rw [Pool.added, log_of_addRow_eq_error run]; rfl) ?_
        rw [Store.of_addRow_eq_error refused]
        rfl

/-- What a pool holds and what it has noted, by the marks that were left. -/
structure Encountered (pool : Pool) (marks : List Mark) : Prop where
  tables : (pool.store.tables.toList.map fun table => (table.tag, table.columns)) =
    (encountered marks).map fun name => (name, (layoutOf name).columns name)
  order : ∀ i outer parent name, marks[i]? = some (.begun (parent :: outer) name) →
    .begun outer parent ∈ marks.take i
  unknown : pool.unknown = (encountered marks).filter fun name => (Kind.ofName? name).isNone
  indexes : pool.added.map Row.index =
    (List.range pool.added.length).map fun k => (k + 1) % 2 ^ 32
  decoded : ∀ name reference offset length, .done name reference offset length ∈ marks →
    ∃ row, pool.resolve reference = .ok row ∧ row.table = name ∧ row.size ≤ length
  leftovers : pool.leftovers = marks.filterMap (Mark.leftover? pool)

theorem Told.encountered (told : Told inside pool marks) (sound : pool.Sound)
    (turn : pool.InTurn) : pool.Encountered marks where
  tables := by
    rw [← told.tags, Store.tags, List.map_map]
    refine List.map_congr_left fun table member => ?_
    rw [sound.shaped table (Array.mem_toList_iff.mp member)]
    rfl
  order := told.order
  unknown := told.unknown
  indexes := by
    have count := congrArg List.length turn
    rw [List.length_map, List.length_map, List.length_range] at count
    rw [count]
    exact turn
  decoded := told.decoded
  leftovers := told.leftovers

end Pool

theorem heeds_told : Heeds Pool.Told where
  begun told name := told.begun name
  outer := Pool.Told.outer
  added told name cells := told.added name cells
  done told := told.done

namespace Session

theorem run_inTurn (calls : List Call) : (run calls).pool.InTurn :=
  (of_respected Pool.respected_inTurn calls).2 Pool.sound_empty Pool.inTurn_empty

/-- Reading with marks leads to the same pool. Its tables are those of the names that were
begun, first encounters first, with the columns of their kinds or the raw one. -/
theorem encountered_of_run (calls : List Call) :
    (marked calls).state = (run calls).pool ∧
      (run calls).pool.Encountered (marked calls).marks := by
  obtain ⟨same, told⟩ := heeds_told.session Pool.told_empty calls
  exact ⟨same, told.encountered (run_sound calls) (run_inTurn calls)⟩

/-- An entry begins behind the record that lists it. -/
example :
    (marked [.subRecord ⟨{}, 0, 0, 1⟩ "LineNumberTable" (.ofArray #[0, 1, 0, 4, 0, 9] 0)]).marks =
      [.begun [] "LineNumberTable", .begun ["LineNumberTable"] "LineNumberTableRef"] := by
  decide +kernel

end Session

end Attribute

end ClassFormat
