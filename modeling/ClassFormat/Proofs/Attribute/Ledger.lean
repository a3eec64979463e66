import ClassFormat.Proofs.Attribute.Follow
import ClassFormat.Proofs.Attribute.Forest

/-!
# What reads leave in a pool

A run of a reader that succeeds gives references, those in its result, and a run
that fails may lose what was given to it on the way. A ledger is a choice of what
this means for the pools before and after. If events, new tables and new rows go
by it then whole reads do, which is proved once here, reader by reader.
-/
namespace ClassFormat

/-- The value has the shape of the column, and its references go where those of
the column do. -/
structure Column.Suits (column : Column String) (value : Value String) : Prop where
  shape : value.shape = column.type.shape
  homed : column.Homes value

/-- The cell is one of the column, with a value for it. -/
structure Cell.Fills (column : Column String) (cell : Cell String) : Prop where
  own : cell.column = column
  suits : column.Suits cell.value

theorem Cell.homes_of_fills {columns : List (Column String)} {cells : List (Cell String)}
    (fills : List.Forall₂ Cell.Fills columns cells) :
    ∀ cell ∈ cells, cell.column.Homes cell.value := by
  induction fills with
  | nil => simp
  | cons first _ ih =>
      refine List.forall_mem_cons.mpr ⟨?_, ih⟩
      rw [first.own]
      exact first.suits.homed

namespace Attribute

/-- What it means for the pools that a run has given references, and that a run
has failed. -/
structure Ledger where
  Gives : Pool → Pool → List (Reference String) → Prop
  Loses : Pool → Pool → Prop

variable {σ α β : Type}

namespace Ledger

/-- The references in all cells, cell after cell. -/
abbrev cited (cells : List (Cell String)) : List (Reference String) :=
  cells.flatMap fun cell => cell.value.cited

/-- What is done to pools goes by the ledger. A row takes what its cells have
been given since its table was opened. -/
structure Lawful (ledger : Ledger) : Prop where
  refl : ∀ s, ledger.Gives s s []
  trans : ∀ {r s t given more},
    ledger.Gives r s given → ledger.Gives s t more → ledger.Gives r t (given ++ more)
  loses : ∀ {s t given}, ledger.Gives s t given → ledger.Loses s t
  after : ∀ {r s t given}, ledger.Gives r s given → ledger.Loses s t → ledger.Loses r t
  noted : ∀ (name : String) (offset count : Nat) (s : Pool),
    ledger.Gives s { s with log := s.log.push (.unreadBytes name offset count) } []
  opened : ∀ (name : String) (s : Pool),
    ledger.Gives s (stateAfter (Pool.openTable name) s) []
  added : ∀ {name : String} {cells : List (Cell String)} {s r t : Pool}
    {reference : Reference String},
    ledger.Gives (stateAfter (Pool.openTable name) s) r (cited cells) →
      List.Forall₂ Cell.Fills (columnsOf name) cells →
        Pool.addRow name cells r = .ok reference t →
          ledger.Gives (stateAfter (Pool.openTable name) s) t [reference]
  refused : ∀ {name : String} {cells : List (Cell String)} {s r t : Pool} {e : DecodingError},
    ledger.Gives (stateAfter (Pool.openTable name) s) r (cited cells) →
      List.Forall₂ Cell.Fills (columnsOf name) cells →
        Pool.addRow name cells r = .error e t → ledger.Loses r t

/-- Every run gives the references that are told by its result, or loses some. -/
structure Accounts (ledger : Ledger) (pool : σ → Pool)
    (yields : α → List (Reference String) → Prop) (x : EStateM DecodingError σ α) : Prop where
  ok : ∀ {s t : σ} {a : α}, x s = .ok a t →
    ∃ given, yields a given ∧ ledger.Gives (pool s) (pool t) given
  error : ∀ {s t : σ} {e : DecodingError}, x s = .error e t → ledger.Loses (pool s) (pool t)

/-- Nothing is given. -/
abbrev Silent (ledger : Ledger) (pool : σ → Pool) (x : EStateM DecodingError σ α) : Prop :=
  ledger.Accounts pool (fun _ given => given = []) x

/-- The references that are returned are given. -/
abbrev GivesAll (references given : List (Reference String)) : Prop := given = references

abbrev GivesOne (reference : Reference String) (given : List (Reference String)) : Prop :=
  given = [reference]

/-- The references in a result are given, which has a property. -/
abbrev GivesEach (cited : α → List (Reference String)) (holds : α → Prop) (a : α)
    (given : List (Reference String)) : Prop :=
  given = cited a ∧ holds a

abbrev GivesEvery (cited : α → List (Reference String)) (holds : List α → Prop)
    (results : List α) (given : List (Reference String)) : Prop :=
  given = results.flatMap cited ∧ holds results

/-- What a value gives that is read for a column. -/
abbrev GivesValue (column : Column String) (result : Nat × Value String)
    (given : List (Reference String)) : Prop :=
  given = result.2.cited ∧ column.Suits result.2

abbrev GivesCell (column : Column String) : Cell String → List (Reference String) → Prop :=
  GivesEach (fun cell => cell.value.cited) (Cell.Fills column)

variable {ledger : Ledger} {pool : σ → Pool} {yields : α → List (Reference String) → Prop}
  {x : EStateM DecodingError σ α}

namespace Accounts

theorem imp {wanted : α → List (Reference String) → Prop} (h : ledger.Accounts pool yields x)
    (weaker : ∀ a given, yields a given → wanted a given) : ledger.Accounts pool wanted x := by
  refine ⟨fun run => ?_, h.error⟩
  obtain ⟨given, known, gives⟩ := h.ok run
  exact ⟨given, weaker _ given known, gives⟩

theorem onPool {act : EStateM DecodingError Pool α} (h : ledger.Accounts id yields act) :
    ledger.Accounts (Payload.pool : Payload → Pool) yields (PayloadReader.onPool act) := by
  constructor
  · intro s t a run
    exact h.ok (PayloadReader.onPool_eq_ok.mp run).1
  · intro s t e run
    exact h.error (PayloadReader.onPool_eq_error.mp run).1

theorem onPayload {read : PayloadReader α} (h : ledger.Accounts Payload.pool yields read)
    (window : Window) :
    ledger.Accounts id (fun result given => yields result.1 given)
      (Pool.onPayload window read) := by
  constructor
  · intro s t result run
    exact h.ok (onPayload_eq_ok.mp run)
  · intro s t e run
    unfold Pool.onPayload at run
    split at run
    next => cases run
    next failed =>
      cases run
      exact h.error failed

theorem scan {act : EStateM DecodingError Pool α} (h : ledger.Accounts id yields act) :
    ledger.Accounts Scan.pool yields (ScanReader.onPool act) := by
  constructor
  · intro s t a run
    exact h.ok (ScanReader.onPool_eq_ok.mp run).1
  · intro s t e run
    exact h.error (ScanReader.onPool_eq_error.mp run).1

end Accounts

namespace Lawful

variable (law : ledger.Lawful)

include law

/-- A run that changes no row gives nothing. -/
theorem still (h : ∀ s, ledger.Gives (pool s) (pool (ClassFormat.stateAfter x s)) []) :
    ledger.Silent pool x := by
  constructor
  · intro s t a run
    have here := h s
    rw [stateAfter_of_ok run] at here
    exact ⟨[], rfl, here⟩
  · intro s t e run
    have here := h s
    rw [stateAfter_of_error run] at here
    exact law.loses here

theorem pure {a : α} (known : yields a []) : ledger.Accounts pool yields (Pure.pure a) := by
  refine ⟨fun run => ?_, fun impossible => (pure_ne_error impossible).elim⟩
  obtain ⟨rfl, rfl⟩ := pure_eq_ok.mp run
  exact ⟨[], known, law.refl _⟩

theorem throw {e : DecodingError} :
    ledger.Accounts pool yields (throw e : EStateM DecodingError σ α) := by
  refine ⟨fun impossible => (throw_ne_ok impossible).elim, fun run => ?_⟩
  cases run
  exact law.loses (law.refl _)

theorem bind {wanted : β → List (Reference String) → Prop} {f : α → EStateM DecodingError σ β}
    (first : ledger.Accounts pool yields x)
    (second : ∀ a given, yields a given →
      ledger.Accounts pool (fun b more => wanted b (given ++ more)) (f a)) :
    ledger.Accounts pool wanted (x >>= f) := by
  constructor
  · intro s t b run
    obtain ⟨a, r, run, rest⟩ := bind_eq_ok.mp run
    obtain ⟨given, known, gives⟩ := first.ok run
    obtain ⟨more, known', gives'⟩ := (second a given known).ok rest
    exact ⟨given ++ more, known', law.trans gives gives'⟩
  · intro s t e run
    rcases bind_eq_error.mp run with failed | ⟨a, r, run, rest⟩
    · exact first.error failed
    · obtain ⟨given, known, gives⟩ := first.ok run
      exact law.after gives ((second a given known).error rest)

/-- Nothing is given by the first one of two runs. -/
theorem andThen {wanted : β → List (Reference String) → Prop}
    {f : α → EStateM DecodingError σ β} (first : ledger.Silent pool x)
    (second : ∀ a, ledger.Accounts pool wanted (f a)) :
    ledger.Accounts pool wanted (x >>= f) := by
  refine law.bind first fun a given none => ?_
  subst none
  exact second a

/-- The results give what each of them does, one after the other. -/
theorem mapM {cited : α → List (Reference String)} {holds : β → α → Prop}
    {f : β → EStateM DecodingError σ α}
    (h : ∀ b, ledger.Accounts pool (GivesEach cited (holds b)) (f b)) (bs : List β) :
    ledger.Accounts pool (GivesEvery cited (List.Forall₂ holds bs)) (bs.mapM f) := by
  induction bs with
  | nil => exact law.pure ⟨rfl, .nil⟩
  | cons b bs ih =>
      rw [List.mapM_cons]
      refine law.bind (h b) fun a given known => law.bind ih fun as more known' => law.pure ?_
      obtain ⟨rfl, here⟩ := known
      obtain ⟨rfl, there⟩ := known'
      exact ⟨by simp, .cons here there⟩

theorem collect {cited : α → List (Reference String)} {holds : α → Prop}
    (h : ledger.Accounts pool (GivesEach cited holds) x) (count : Nat) :
    ledger.Accounts pool (GivesEvery cited fun results => ∀ a ∈ results, holds a)
      (ClassFormat.collect count x) := by
  induction count with
  | zero => exact law.pure ⟨rfl, by simp⟩
  | succ count ih =>
      rw [collect_succ]
      refine law.bind h fun a given known => law.bind ih fun as more known' => law.pure ?_
      obtain ⟨rfl, here⟩ := known
      obtain ⟨rfl, there⟩ := known'
      exact ⟨by simp, List.forall_mem_cons.mpr ⟨here, there⟩⟩

theorem collect_silent (h : ledger.Silent pool x) (count : Nat) :
    ledger.Silent pool (ClassFormat.collect count x) := by
  have each : ledger.Accounts pool (fun _ given => given = [] ∧ True) x :=
    h.imp fun _ _ known => ⟨known, trivial⟩
  refine (law.collect each count).imp fun results given known => ?_
  rw [known.1, List.flatMap_eq_nil_iff]
  exact fun _ _ => rfl

/-- References that are given one by one are given all. -/
theorem collect_references {x : EStateM DecodingError σ (Reference String)}
    (h : ledger.Accounts pool GivesOne x) (count : Nat) :
    ledger.Accounts pool GivesAll (ClassFormat.collect count x) := by
  have each : ledger.Accounts pool (fun reference given => given = [reference] ∧ True) x :=
    h.imp fun _ _ known => ⟨known, trivial⟩
  refine (law.collect each count).imp fun references given known => ?_
  rw [known.1, List.flatMap_singleton']

theorem answer (result : Except DecodingError α) : ledger.Silent pool (ofExcept result) := by
  refine law.still fun s => ?_
  cases result <;> exact law.refl (pool s)

theorem onWindow (read : WindowReader α) :
    ledger.Silent Payload.pool (PayloadReader.onWindow read) := by
  refine law.still fun s => ?_
  have same : (ClassFormat.stateAfter (PayloadReader.onWindow read) s).pool = s.pool := by
    obtain ⟨pool, window⟩ := s
    unfold ClassFormat.stateAfter PayloadReader.onWindow
    dsimp only
    cases read window <;> rfl
  rw [same]
  exact law.refl s.pool

theorem position : ledger.Silent Payload.pool PayloadReader.position :=
  law.still fun s => law.refl s.pool

theorem offset : ledger.Silent Payload.pool (PayloadReader.ask Reads.plain.offset) :=
  law.still fun s => law.refl s.pool

theorem noteUnread (name : String) (offset count : Nat) :
    ledger.Silent id (Attribute.noteUnread name offset count) := by
  unfold Attribute.noteUnread
  split
  next => exact law.still fun s => law.noted name offset count s
  next => exact law.pure rfl

theorem readSized (column : Column String) {read : PayloadReader (Nat × Value String)}
    (h : ledger.Accounts Payload.pool (GivesValue column) read) :
    ledger.Accounts Payload.pool (GivesCell column) (Attribute.readSized column read) := by
  refine law.andThen law.position fun start => law.bind h fun result given known => ?_
  obtain ⟨rfl, suits⟩ := known
  refine law.andThen law.position fun stop => law.andThen (law.answer (.ok _)) fun size => ?_
  have made : (steps.check (Cell.make column result.1 size result.2) : PayloadReader _) =
    Pure.pure ⟨column, result.1, size, result.2⟩ := check_makeCell suits.1 result.1 size
  rw [made]
  exact law.pure ⟨List.append_nil _, rfl, suits⟩

/-- Numbers and bytes hold no references. -/
theorem readPlain (column : Column String) {read : PayloadReader (Nat × Value String)}
    (known : Attribute.readPlain column.type = some read) :
    ledger.Accounts Payload.pool (GivesValue column) read := by
  have none {value : Value String} {raw : Nat} (plain : value.cited = [])
      (shape : value.shape = column.type.shape) : GivesValue column (raw, value) [] := by
    refine ⟨plain.symm, shape, fun table _ reference member => ?_⟩
    rw [plain] at member
    cases member
  cases type : column.type <;> rw [type] at known none <;> cases known
  case byte | uint16 | uint32 =>
    exact law.andThen (law.onWindow _) fun _ => law.pure (none rfl rfl)
  case raw =>
    refine law.andThen (law.onWindow Window.takeRest) fun bytes => ?_
    exact law.andThen (law.answer (.ok bytes.length)) fun _ => law.pure (none rfl rfl)
  case byteArray =>
    refine law.andThen (law.onWindow _) fun _ => ?_
    exact law.andThen (law.onWindow _) fun _ => law.pure (none rfl rfl)
  case shortArray =>
    refine law.andThen (law.onWindow _) fun count => ?_
    refine law.andThen (law.collect_silent (law.onWindow _) count.toNat) fun _ => ?_
    exact law.pure (none rfl rfl)

theorem readPlainCell (column : Column String) :
    ledger.Accounts Payload.pool (GivesCell column) (Attribute.readPlainCell column) := by
  refine readPlainCell_cases (fun read known => ?_) law.throw
  exact law.readSized column (law.readPlain column known)

/-- The row of a record has what its cells give, and is given in turn. -/
theorem readRecord {readCell : Column String → PayloadReader (Cell String)}
    (h : ∀ column, ledger.Accounts Payload.pool (GivesCell column) (readCell column))
    (name : String) :
    ledger.Accounts Payload.pool
      (GivesEach (fun reference => [reference]) fun reference => reference.table = some name)
      (Attribute.readRecord readCell name) := by
  have cells := law.mapM h (columnsOf name)
  rw [readRecord_eq]
  constructor
  · intro s t reference run
    obtain ⟨_, r, opened, run⟩ := bind_eq_ok.mp run
    obtain ⟨made, u, read, added⟩ := bind_eq_ok.mp run
    obtain ⟨given, ⟨rfl, fills⟩, gives⟩ := cells.ok read
    obtain ⟨added, -⟩ := PayloadReader.onPool_eq_ok.mp added
    have start := law.opened name s.pool
    rw [← stateAfter_of_ok (PayloadReader.onPool_eq_ok.mp opened).1] at gives
    refine ⟨[reference], ⟨rfl, ?_⟩, law.trans start (law.added gives fills added)⟩
    obtain ⟨index, -, rfl, -⟩ := addRow_eq_ok.mp added
    rfl
  · intro s t e run
    obtain ⟨log, found⟩ := exists_openTable name s.pool
    have start := law.opened name s.pool
    rcases bind_eq_error.mp run with failed | ⟨_, r, opened, run⟩
    · have failed := (PayloadReader.onPool_eq_error.mp failed).1
      rw [found] at failed
      cases failed
    · have opened := stateAfter_of_ok (PayloadReader.onPool_eq_ok.mp opened).1
      rcases bind_eq_error.mp run with failed | ⟨made, u, read, failed⟩
      · rw [opened] at start
        exact law.after start (cells.error failed)
      · obtain ⟨given, ⟨rfl, fills⟩, gives⟩ := cells.ok read
        rw [← opened] at gives
        have failed := (PayloadReader.onPool_eq_error.mp failed).1
        exact law.after (law.trans start gives) (law.refused gives fills failed)

theorem readEntries (column : Column String) {entry : Entry}
    (type : column.type = .entries entry) :
    ledger.Accounts Payload.pool (GivesValue column) (Attribute.readEntries entry) := by
  have record := law.readRecord law.readPlainCell entry.tableName
  refine law.andThen (law.onWindow _) fun count => ?_
  refine law.bind (law.collect record count) fun references given known => law.pure ?_
  obtain ⟨rfl, tables⟩ := known
  refine ⟨?_, ?_, fun table homes => ?_⟩
  · rw [List.append_nil, List.flatMap_singleton']
    rfl
  · rw [type]
    rfl
  · rw [type, ColumnType.entryTable?, Option.some.injEq] at homes
    subst homes
    exact tables

section Lists

variable {readList : Nat → PayloadReader (List (Reference String))}

theorem readCell (h : ∀ count, ledger.Accounts Payload.pool GivesAll (readList count))
    (column : Column String) :
    ledger.Accounts Payload.pool (GivesCell column) (Attribute.readCell readList column) := by
  refine readCell_cases (fun type => ?_) (fun entry type => ?_) (law.readPlainCell column)
  · refine law.readSized column (law.andThen (law.onWindow _) fun count => ?_)
    refine law.bind (h count.toNat) fun references given known => law.pure ?_
    refine ⟨?_, ?_, fun table homes => ?_⟩
    · rw [List.append_nil, known]
      rfl
    · rw [type]
      rfl
    · rw [type] at homes
      cases homes
  · exact law.readSized column (law.readEntries column type)

theorem readPayload (constants : Constant.Pool)
    (h : ∀ count, ledger.Accounts Payload.pool GivesAll (readList count)) (header : Header)
    (window : Window) :
    ledger.Accounts id GivesOne (Attribute.readPayload constants readList header window) := by
  cases named : constants.utf8 header.nameIndex.toNat with
  | error e =>
      rw [readPayload_of_nameless named]
      exact law.throw
  | ok name =>
      rw [readPayload_of_named named]
      have record := (law.readRecord (law.readCell h) name).onPayload window
      refine law.bind record fun result given known => ?_
      obtain ⟨rfl, -⟩ := known
      exact law.andThen (law.noteUnread _ _ _) fun _ => law.pure (List.append_nil _)

theorem readNested (constants : Constant.Pool)
    (h : ∀ count, ledger.Accounts Payload.pool GivesAll (readList count)) :
    ledger.Accounts Payload.pool GivesOne (Attribute.readNested constants readList) :=
  law.andThen (law.onWindow _) fun header =>
    law.andThen (law.onWindow _) fun window => (law.readPayload constants h header window).onPool

theorem nestedList (constants : Constant.Pool) (levels count : Nat) :
    ledger.Accounts Payload.pool GivesAll (Attribute.nestedList constants levels count) := by
  induction levels generalizing count with
  | zero => exact law.andThen law.offset fun _ => law.throw
  | succ levels ih => exact law.collect_references (law.readNested constants ih) count

end Lists

theorem currentOffset : ledger.Silent Scan.pool ScanReader.currentOffset :=
  law.still fun s => law.refl s.pool

theorem advance (source : Source) (n : Nat) :
    ledger.Silent Scan.pool (ScanReader.advance .plain source n) :=
  law.still fun s => law.refl s.pool

theorem readAttributes (source : Source) (constants : Constant.Pool) (count : Nat) :
    ledger.Accounts Scan.pool GivesAll (Attribute.readAttributes source constants count) := by
  refine law.collect_references ?_ count
  refine law.andThen law.currentOffset fun offset => law.andThen (law.answer _) fun window => ?_
  refine law.andThen (law.answer _) fun read => law.andThen (law.advance source _) fun _ => ?_
  refine law.andThen law.currentOffset fun start => law.andThen (law.answer _) fun payload => ?_
  refine law.andThen (law.advance source _) fun _ => ?_
  exact (law.readPayload constants (law.nestedList constants maxNesting) read.1 payload).scan

end Lawful

/-- A relation of pools is a ledger that takes no account of references. -/
def ofRelation (R : Pool → Pool → Prop) : Ledger := ⟨fun s t _ => R s t, R⟩

theorem lawful_ofRelation {R : Pool → Pool → Prop} (law : Pool.Respected R) :
    (ofRelation R).Lawful where
  refl := law.refl
  trans := law.trans
  loses := id
  after := law.trans
  noted := law.noted
  opened := law.opened
  added before fills run := by
    have step := law.added before fills.length_eq.symm
    rw [stateAfter_of_ok run] at step
    exact law.trans before step
  refused before fills run := by
    have step := law.added before fills.length_eq.symm
    rwa [stateAfter_of_error run] at step

end Ledger

end Attribute

end ClassFormat
