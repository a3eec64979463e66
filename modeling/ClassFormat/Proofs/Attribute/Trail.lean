import ClassFormat.Proofs.Attribute.Progress

/-!
# The steps of a read

What a read has done before it fails is complete: it has opened tables, and read
entries and attributes to their ends. `Pool.Trail` is a chain of such steps, with
the number of bytes that they were read off. Behind the last step a read fails for
a reason that has nothing to do with rows, or because a row is refused.
-/
namespace ClassFormat

namespace Window

/-- A read that moves forward, and fails for want of bytes only. -/
structure Steady {α : Type} (read : WindowReader α) : Prop where
  short : ∀ {w e}, read w = .error e → e.isShort
  forward : ∀ {w v a}, read w = .ok (a, v) → v.remaining ≤ w.remaining

theorem Consumes.remaining_eq {w v : Window} {bytes : List UInt8} (h : w.Consumes bytes v) :
    w.remaining = bytes.length + v.remaining := by
  rw [← length_rest, h.rest_eq, List.length_append, length_rest]

theorem Consumes.remaining_le {w v : Window} {bytes : List UInt8} (h : w.Consumes bytes v) :
    v.remaining ≤ w.remaining := by
  rw [h.remaining_eq]
  exact Nat.le_add_left _ _

theorem steady_number (width : Nat) : Steady (number width) :=
  ⟨(tame_number width).short, fun run => (number_eq_ok.mp run).2.remaining_le⟩

theorem steady_byte : Steady byte := ⟨tame_byte.short, fun run => (byte_eq_ok.mp run).remaining_le⟩

theorem steady_short : Steady short :=
  ⟨tame_short.short, fun run => (short_eq_ok.mp run).remaining_le⟩

theorem steady_word : Steady word := ⟨tame_word.short, fun run => (word_eq_ok.mp run).remaining_le⟩

theorem steady_split (n : Nat) : Steady (split n) :=
  ⟨isShort_of_split, fun run => (split_eq_ok run).2.1.remaining_le⟩

theorem steady_take (n : Nat) : Steady (take n) :=
  ⟨(tame_take n).short, fun run => (take_eq_ok.mp run).2.remaining_le⟩

theorem steady_takeRest : Steady takeRest :=
  ⟨tame_takeRest.short, fun run => (takeRest_eq_ok.mp run).1.remaining_le⟩

end Window

/-- Every run goes by a relation, up to the state in which it stops if it fails. -/
structure Goes {σ α : Type} (R : σ → σ → Prop) (stops : DecodingError → σ → σ → Prop)
    (x : EStateM DecodingError σ α) : Prop where
  ok : ∀ {s a t}, x s = .ok a t → R s t
  error : ∀ {s e t}, x s = .error e t → ∃ r, R s r ∧ stops e r t

namespace Goes

variable {σ α β : Type} {R : σ → σ → Prop} {stops : DecodingError → σ → σ → Prop}
  {x : EStateM DecodingError σ α}

theorem pure (law : Evolution R) (a : α) :
    Goes R stops (Pure.pure a : EStateM DecodingError σ α) := by
  refine ⟨fun run => ?_, fun impossible => (pure_ne_error impossible).elim⟩
  obtain ⟨-, rfl⟩ := pure_eq_ok.mp run
  exact law.refl _

theorem throw (law : Evolution R) {e : DecodingError} (stopped : ∀ s, stops e s s) :
    Goes R stops (throw e : EStateM DecodingError σ α) := by
  refine ⟨fun impossible => (throw_ne_ok impossible).elim, fun {s e' t} run => ?_⟩
  cases run
  exact ⟨s, law.refl s, stopped s⟩

theorem bind (law : Evolution R) {f : α → EStateM DecodingError σ β} (first : Goes R stops x)
    (second : ∀ a, Goes R stops (f a)) : Goes R stops (x >>= f) := by
  constructor
  · intro s b t run
    obtain ⟨a, r, run, rest⟩ := bind_eq_ok.mp run
    exact law.trans (first.ok run) ((second a).ok rest)
  · intro s e t run
    rcases bind_eq_error.mp run with failed | ⟨a, r, run, failed⟩
    · exact first.error failed
    · obtain ⟨u, moves, stopped⟩ := (second a).error failed
      exact ⟨u, law.trans (first.ok run) moves, stopped⟩

theorem compositional (law : Evolution R) :
    Compositional fun _ (x _ : EStateM DecodingError σ _) => Goes R stops x :=
  ⟨pure law, bind law⟩

theorem mapM (law : Evolution R) {f : β → EStateM DecodingError σ α} (h : ∀ b, Goes R stops (f b))
    (bs : List β) : Goes R stops (bs.mapM f) :=
  (compositional law).mapM (g := f) h bs

theorem collect (law : Evolution R) (h : Goes R stops x) (count : Nat) :
    Goes R stops (ClassFormat.collect count x) :=
  (compositional law).collect (y := x) h count

/-- The state that a run ends in, failed or not. -/
theorem stateAfter (h : Goes R stops x) (s : σ) :
    R s (stateAfter x s) ∨ ∃ e r, R s r ∧ stops e r (ClassFormat.stateAfter x s) := by
  cases run : x s with
  | ok a t =>
      rw [stateAfter_of_ok run]
      exact .inl (h.ok run)
  | error e t =>
      rw [stateAfter_of_error run]
      exact .inr ⟨e, h.error run⟩

end Goes

namespace Attribute

open PayloadReader

variable {named : Nat → String → Prop} {α : Type}

namespace Pool

/-- A table is opened, or an entry or an attribute is read off so many bytes. -/
inductive Step (named : Nat → String → Prop) : Pool → Nat → Pool → Prop
  | table (name : String) (pool : Pool) : Step named pool 0 (stateAfter (openTable name) pool)
  | entry {entry : Entry} {record : Record} {pool later : Pool} {reference : Reference String}
      (fits : record.Fits (fieldsOf entry)) (planted : record.plant entry pool = .ok reference later) :
    Step named pool record.encode.length later
  | tree {tree : Tree} {offset : Nat} {pool later : Pool} {reference : Reference String}
      (fits : tree.Fits named) (planted : tree.plant offset pool = .ok reference later) :
    Step named pool tree.encode.length later

/-- Steps that were read off no more than so many bytes. -/
inductive Trail (named : Nat → String → Prop) : Pool → Nat → Pool → Prop
  | stay (pool : Pool) (n : Nat) : Trail named pool n pool
  | step {pool reached later : Pool} {m k n : Nat} (before : Trail named pool m reached)
      (last : Step named reached k later) (bytes : m + k ≤ n) : Trail named pool n later

variable {r s t : Pool} {m n : Nat}

theorem Step.trail (h : Step named s n t) : Trail named s n t :=
  .step (.stay s 0) h (Nat.le_of_eq (Nat.zero_add n))

theorem Step.grown (h : Step named s n t) : s.store.Extends t.store := by
  cases h with
  | table name =>
      obtain ⟨log, opened⟩ := exists_openTable name s
      rw [stateAfter_of_ok opened]
      exact Store.extends_ensureTable s.store name (columnsOf name)
  | entry fits planted => exact (Record.plant_stored fits planted).1
  | tree fits planted => exact (Tree.plant_stored fits planted).1

namespace Trail

theorem mono (h : Trail named s m t) (bytes : m ≤ n) : Trail named s n t := by
  cases h with
  | stay => exact .stay s n
  | step before last fewer => exact .step before last (Nat.le_trans fewer bytes)

theorem trans (h : Trail named r m s) (k : Trail named s n t) : Trail named r (m + n) t := by
  induction k with
  | stay => exact h.mono (Nat.le_add_right m _)
  | step _ last bytes ih => exact .step ih last (by omega)

theorem grown (h : Trail named s n t) : s.store.Extends t.store := by
  induction h with
  | stay => exact .refl _
  | step _ last _ ih => exact ih.trans last.grown

end Trail

/-- Why a read fails that has reached a pool, and the pool that it leaves: for a
name that is not there or another reason that is not in the tables, or because the
row of an open table is refused. -/
inductive Stops (constants : Constant.Pool) : DecodingError → Pool → Pool → Prop
  | elsewhere {e : DecodingError} (pool : Pool)
      (cause : ∀ c, e = .table c → ∃ slot, constants.utf8 slot = .error c) :
    Stops constants e pool pool
  | refused {name : String} {cells : List (Cell String)} {pool later : Pool} {e : DecodingError}
      (opened : pool.store.containsTable name) (len : cells.length = (columnsOf name).length)
      (failed : addRow name cells pool = .error e later) : Stops constants e pool later

theorem Stops.of_isShort {constants : Constant.Pool} {e : DecodingError} (short : e.isShort)
    (pool : Pool) : Stops constants e pool pool := by
  refine .elsewhere pool fun c same => ?_
  subst same
  cases short

end Pool

/-- The steps that lead from one state to the other stand in the bytes that the
window has moved over. -/
def Payload.Moves (named : Nat → String → Prop) (s t : Payload) : Prop :=
  ∃ n, Pool.Trail named s.pool n t.pool ∧ n + t.window.remaining ≤ s.window.remaining

def Payload.Stops (constants : Constant.Pool) (e : DecodingError) (s t : Payload) : Prop :=
  Pool.Stops constants e s.pool t.pool ∧ t.window = s.window

/-- Every run on a payload takes complete steps until it ends or stops. -/
abbrev Payload.Goes (constants : Constant.Pool) (read : PayloadReader α) : Prop :=
  ClassFormat.Goes (Payload.Moves (Named constants)) (Payload.Stops constants) read

namespace Payload

variable {constants : Constant.Pool} {s t : Payload}

theorem evolution_moves : Evolution (Moves named) := by
  refine ⟨fun s => ⟨0, .stay s.pool 0, Nat.le_of_eq (Nat.zero_add _)⟩, fun {r s t} h k => ?_⟩
  obtain ⟨m, first, fewer⟩ := h
  obtain ⟨n, second, fewer'⟩ := k
  exact ⟨m + n, first.trans second, by omega⟩

theorem Moves.of_step {n : Nat} (step : Pool.Step named s.pool n t.pool)
    (bytes : n + t.window.remaining = s.window.remaining) : Moves named s t :=
  ⟨n, step.trail, Nat.le_of_eq bytes⟩

theorem goes_onWindow {read : WindowReader α} (steady : Window.Steady read) :
    Payload.Goes constants (onWindow read) := by
  constructor
  · intro s a t run
    obtain ⟨run, pool⟩ := onWindow_eq_ok.mp run
    rw [Moves, pool]
    exact ⟨0, .stay s.pool 0, by have := steady.forward run; omega⟩
  · intro s e t run
    obtain ⟨pool, window⟩ := s
    unfold onWindow at run
    dsimp only at run
    split at run
    next => cases run
    next failed =>
      cases run
      exact ⟨_, evolution_moves.refl _, .of_isShort (steady.short failed) pool, rfl⟩

theorem goes_throw {e : DecodingError} (cause : ∀ c, e ≠ .table c) :
    Payload.Goes constants (throw e : PayloadReader α) :=
  .throw evolution_moves fun s => ⟨.elsewhere s.pool fun c same => (cause c same).elim, rfl⟩

theorem goes_position : Payload.Goes constants position := by
  refine ⟨fun {s n t} run => ?_, fun impossible => by cases impossible⟩
  obtain ⟨-, rfl⟩ := position_eq_ok.mp run
  exact evolution_moves.refl s

theorem goes_readSized {column : Column String} {read : PayloadReader (Nat × Value String)}
    (suits : ∀ {s result t}, read s = .ok result t → result.2.shape = column.type.shape)
    (h : Payload.Goes constants read) : Payload.Goes constants (readSized column read) := by
  rw [readSized_eq suits]
  exact .bind evolution_moves goes_position fun _ => .bind evolution_moves h fun _ =>
    .bind evolution_moves goes_position fun _ => .pure evolution_moves _

theorem goes_readPlain {type : ColumnType} {read : PayloadReader (Nat × Value String)}
    (known : readPlain type = some read) : Payload.Goes constants read := by
  have number {β : Type} {field : WindowReader β} (steady : Window.Steady field)
      {rest : β → PayloadReader (Nat × Value String)}
      (behind : ∀ n, Payload.Goes constants (rest n)) :
      Payload.Goes constants ((onWindow field : PayloadReader β) >>= rest) :=
    .bind evolution_moves (goes_onWindow steady) behind
  cases type <;> cases known
  case byte => exact number Window.steady_byte fun _ => .pure evolution_moves _
  case uint16 => exact number Window.steady_short fun _ => .pure evolution_moves _
  case uint32 => exact number Window.steady_word fun _ => .pure evolution_moves _
  case byteArray =>
    exact number Window.steady_word fun length =>
      number (Window.steady_take length.toNat) fun _ => .pure evolution_moves _
  case shortArray =>
    refine number Window.steady_short fun count => .bind evolution_moves ?_ fun _ => ?_
    · exact .collect evolution_moves (goes_onWindow Window.steady_short) count.toNat
    · exact .pure evolution_moves _
  case raw =>
    exact number Window.steady_takeRest fun bytes =>
      .pure evolution_moves (bytes.length, Value.bytes bytes)

theorem goes_readPlainCell (column : Column String) :
    Payload.Goes constants (readPlainCell column) := by
  refine readPlainCell_cases (fun read known => ?_) (goes_throw fun c impossible => ?_)
  · exact goes_readSized (shape_of_readPlain known) (goes_readPlain known)
  · cases impossible

/-- A record that cannot be read has its table open and perhaps some cells, or its
row is refused. -/
theorem stops_of_readRecord {readCell : Column String → PayloadReader (Cell String)}
    (h : ∀ column, Payload.Goes constants (readCell column)) {name : String} {e : DecodingError}
    (failed : readRecord readCell name s = .error e t) :
    ∃ r, Moves (Named constants) s r ∧ Payload.Stops constants e r t := by
  obtain ⟨log, opened⟩ := exists_openTable name s.pool
  have first : onPool (Pool.openTable name) s =
      .ok () ⟨stateAfter (Pool.openTable name) s.pool, s.window⟩ := by
    rw [stateAfter_of_ok opened]
    exact onPool_eq_ok.mpr ⟨opened, rfl⟩
  have table : Moves (Named constants) s
      ⟨stateAfter (Pool.openTable name) s.pool, s.window⟩ :=
    .of_step (.table name s.pool) (Nat.zero_add _)
  rw [readRecord_eq] at failed
  rcases bind_eq_error.mp failed with failed | ⟨_, _, run, failed⟩
  · rw [first] at failed
    cases failed
  rw [first] at run
  cases run
  rcases bind_eq_error.mp failed with failed | ⟨cells, u, run, failed⟩
  · obtain ⟨r, moves, stops⟩ := (Goes.mapM evolution_moves h (columnsOf name)).error failed
    exact ⟨r, evolution_moves.trans table moves, stops⟩
  · have moves := (Goes.mapM evolution_moves h (columnsOf name)).ok run
    obtain ⟨refused, window⟩ := onPool_eq_error.mp failed
    have present : u.pool.store.containsTable name := by
      obtain ⟨n, trail, -⟩ := moves
      refine trail.grown.tables name ?_
      rw [stateAfter_of_ok opened]
      exact Store.containsTable_ensureTable s.pool.store name (columnsOf name)
    exact ⟨u, evolution_moves.trans table moves,
      .refused present (length_of_mapM_eq_ok run) refused, window⟩

theorem goes_readEntry (entry : Entry) :
    Payload.Goes constants (readRecord readPlainCell entry.tableName) := by
  refine ⟨fun {s reference t} run => ?_, stops_of_readRecord goes_readPlainCell⟩
  obtain ⟨record, fits, yields⟩ := readEntry_eq_ok.mp run
  exact .of_step (.entry fits yields.planted) yields.consumes.remaining_eq.symm

theorem goes_readEntries (entry : Entry) : Payload.Goes constants (readEntries entry) :=
  .bind evolution_moves (goes_onWindow (Window.steady_number entry.countWidth)) fun count =>
    .bind evolution_moves (.collect evolution_moves (goes_readEntry entry) count) fun _ =>
      .pure evolution_moves _

section Lists

variable {readList : Nat → PayloadReader (List (Reference String))}

theorem goes_readCell (h : ∀ count, Payload.Goes constants (readList count))
    (column : Column String) : Payload.Goes constants (readCell readList column) := by
  refine readCell_cases (fun type => ?_) (fun entry type => ?_) (goes_readPlainCell column)
  · refine goes_readSized (fun run => ?_) ?_
    · rw [type]
      exact shape_of_readList run
    · exact .bind evolution_moves (goes_onWindow Window.steady_short) fun count =>
        .bind evolution_moves (h count.toNat) fun _ => .pure evolution_moves _
  · refine goes_readSized (fun run => ?_) (goes_readEntries entry)
    rw [type]
    exact shape_of_readEntries run

/-- An attribute stands in its header and its payload. -/
theorem goes_readPayload {levels : Nat} (law : ReadsTrees (Named constants) levels readList)
    (h : ∀ count, Payload.Goes constants (readList count)) (header : Header) {window : Window}
    (bound : window.rest.length < 2 ^ 32) :
    ClassFormat.Goes
      (fun s t => Pool.Trail (Named constants) s (Header.size + window.remaining) t)
      (Pool.Stops constants) (readPayload constants readList header window) := by
  constructor
  · intro s reference t run
    obtain ⟨tree, -, fits, -, whole, planted⟩ := (readPayload_eq_ok law bound).mp run
    have bytes : tree.encode.length = Header.size + window.remaining := by
      rw [length_encode, ← whole, Window.length_rest]
    exact bytes ▸ (Pool.Step.tree fits planted).trail
  · intro s e t failed
    rcases of_readPayload_eq_error failed with ⟨cause, unknown, rfl, rfl⟩ | ⟨name, left, -, lost, rfl⟩
    · refine ⟨_, .stay _ _, .elsewhere _ fun c same => ?_⟩
      cases same
      exact ⟨_, unknown⟩
    · obtain ⟨r, ⟨n, trail, fewer⟩, stops, -⟩ := stops_of_readRecord (goes_readCell h) lost
      exact ⟨r.pool, trail.mono (by dsimp only at fewer; omega), stops⟩

theorem steady_header : Window.Steady Header.read :=
  ⟨(Window.Tame.fields <| .bind Window.tame_short fun _ => .bind Window.tame_word fun _ =>
    .pure _).short, fun run => (Header.read_eq_ok.mp run).remaining_le⟩

theorem goes_readNested {levels : Nat} (law : ReadsTrees (Named constants) levels readList)
    (h : ∀ count, Payload.Goes constants (readList count)) :
    Payload.Goes constants (readNested constants readList) := by
  constructor
  · intro s reference t run
    obtain ⟨tree, fits, -, yields⟩ := (readNested_eq_ok law).mp run
    exact .of_step (.tree fits yields.planted) yields.consumes.remaining_eq.symm
  · intro s e t failed
    rcases bind_eq_error.mp failed with failed | ⟨header, u, first, failed⟩
    · exact (goes_onWindow steady_header).error failed
    have passes := (Payload.Yields.of_window Header.read_eq_ok).mp first
    have same := (pure_eq_ok.mp passes.planted).2
    have bytes := passes.consumes.remaining_eq
    rw [length_header] at bytes
    rcases bind_eq_error.mp failed with failed | ⟨window, v, second, failed⟩
    · obtain ⟨r, moves, stops⟩ := (goes_onWindow (Window.steady_split _)).error failed
      exact ⟨r, evolution_moves.trans ((goes_onWindow steady_header).ok first) moves, stops⟩
    obtain ⟨run, pool⟩ := onWindow_eq_ok.mp second
    obtain ⟨len, consumes, -⟩ := Window.split_eq_ok run
    obtain ⟨failed, behind⟩ := onPool_eq_error.mp failed
    obtain ⟨r, trail, stops⟩ :=
      (goes_readPayload law h header (len ▸ header.length.toNat_lt)).error failed
    rw [pool, ← same] at trail
    refine ⟨⟨r, v.window⟩, ⟨_, trail, ?_⟩, stops, behind⟩
    have rest := consumes.remaining_eq
    rw [Window.length_rest] at rest
    dsimp only
    omega

end Lists

theorem goes_nestedList (constants : Constant.Pool) (levels count : Nat) :
    Payload.Goes constants (nestedList constants levels count) := by
  induction levels generalizing count with
  | zero =>
      refine .bind evolution_moves ?_ fun _ => goes_throw fun c impossible => by cases impossible
      exact ⟨fun run => by cases run; exact evolution_moves.refl _, fun impossible => by cases impossible⟩
  | succ levels ih =>
      exact .collect evolution_moves (goes_readNested (nestedList_readsTrees constants levels) ih)
        count

end Payload

/-- The steps that lead from one state to the other stand in the bytes that the
offset has moved over, if these can be counted in four bytes. -/
def Scan.Moves (source : Source) (named : Nat → String → Prop) (s t : Scan) : Prop :=
  ∃ n, Pool.Trail named s.pool n t.pool ∧
    (source.size < 2 ^ 32 → n + (source.size - t.offset) ≤ source.size - s.offset)

def Scan.Stops (constants : Constant.Pool) (e : DecodingError) (s t : Scan) : Prop :=
  Pool.Stops constants e s.pool t.pool

/-- Every run on a source takes complete steps until it ends or stops. -/
abbrev Scan.Goes (source : Source) (constants : Constant.Pool) (read : ScanReader α) : Prop :=
  ClassFormat.Goes (Scan.Moves source (Named constants)) (Scan.Stops constants) read

namespace Scan

variable {source : Source} {constants : Constant.Pool} {s t : Scan}

theorem evolution_moves : Evolution (Moves source named) := by
  refine ⟨fun s => ⟨0, .stay s.pool 0, fun _ => Nat.le_of_eq (Nat.zero_add _)⟩, fun {r s t} h k => ?_⟩
  obtain ⟨m, first, fewer⟩ := h
  obtain ⟨n, second, fewer'⟩ := k
  exact ⟨m + n, first.trans second, fun small => by have := fewer small; have := fewer' small; omega⟩

theorem goes_currentOffset : Scan.Goes source constants ScanReader.currentOffset := by
  refine ⟨fun {s n t} run => ?_, fun impossible => by cases impossible⟩
  obtain ⟨-, rfl⟩ := ScanReader.currentOffset_eq_ok.mp run
  exact evolution_moves.refl s

theorem goes_lift {result : Except DecodingError α}
    (short : ∀ {e}, result = .error e → e.isShort) :
    Scan.Goes source constants (ofExcept result) := by
  constructor
  · intro s a t run
    obtain ⟨-, rfl⟩ := ofExcept_eq_ok.mp run
    exact evolution_moves.refl s
  · intro s e t failed
    obtain ⟨lost, rfl⟩ := ofExcept_eq_error.mp failed
    exact ⟨s, evolution_moves.refl s, .of_isShort (short lost) s.pool⟩

/-- The offset moves forward, unless it is behind the end already. -/
theorem le_saturate (small : source.size < 2 ^ 32) (offset n : Nat) :
    source.size - saturate (offset + n) ≤ source.size - offset := by
  unfold saturate maxOffset
  omega

theorem Moves.over (s : Scan) (n : Nat) :
    Moves source named s ⟨s.pool, saturate (s.offset + n)⟩ := by
  refine ⟨0, .stay s.pool 0, fun small => ?_⟩
  have moved := le_saturate small s.offset n
  dsimp only
  omega

theorem goes_advance (n : Nat) :
    Scan.Goes source constants (ScanReader.advance .plain source n) := by
  refine ⟨fun {s u t} run => ?_, fun impossible => by cases impossible⟩
  obtain rfl := ScanReader.advance_eq_ok.mp run
  exact .over s n

/-- The offset has moved over the header and the payload of an attribute. -/
theorem Moves.of_payload {header : Header} {window payload : Window}
    (opened : source.window s.offset Header.size = .ok window)
    (found : source.window (saturate (s.offset + Header.size)) header.length.toNat = .ok payload)
    {pool : Pool} (trail : Pool.Trail named s.pool (Header.size + payload.remaining) pool) :
    Moves source named s
      ⟨pool, saturate (saturate (s.offset + Header.size) + header.length.toNat)⟩ := by
  refine ⟨_, trail, fun small => ?_⟩
  obtain ⟨-, inside, -⟩ := Source.window_eq_ok opened
  obtain ⟨len, fits, -⟩ := Source.window_eq_ok found
  rw [Window.length_rest] at len
  have header : saturate (s.offset + Header.size) = s.offset + Header.size :=
    saturate_of_lt (by omega)
  rw [header] at fits ⊢
  rw [saturate_of_lt (by omega)]
  dsimp only
  omega

/-- A payload in the source, which has less than four gigabytes by its header. -/
theorem goes_found (header : Header) {window : Window} {offset : Nat}
    (found : source.window offset header.length.toNat = .ok window) :
    ClassFormat.Goes
      (fun s t => Pool.Trail (Named constants) s (Header.size + window.remaining) t)
      (Pool.Stops constants)
      (readPayload constants (nestedList constants maxNesting) header window) :=
  Payload.goes_readPayload (nestedList_readsTrees constants maxNesting)
    (Payload.goes_nestedList constants maxNesting) header
    ((Source.window_eq_ok found).1 ▸ header.length.toNat_lt)

/-- Behind its header, an attribute stops in front of its payload or in it. -/
theorem stops_behind_header {header : Header} {window : Window} {e : DecodingError}
    (opened : source.window s.offset Header.size = .ok window)
    (failed : (do
      let payload ← ofExcept
        (source.window (← ScanReader.currentOffset) header.length.toNat)
      ScanReader.advance .plain source header.length.toNat
      ScanReader.onPool (readPayload constants (nestedList constants maxNesting) header payload))
        ⟨s.pool, saturate (s.offset + Header.size)⟩ = .error e t) :
    ∃ r, Moves source (Named constants) s r ∧ Stops constants e r t := by
  rcases bind_eq_error.mp failed with impossible | ⟨_, _, here, failed⟩
  · cases impossible
  cases here
  rcases bind_eq_error.mp failed with failed | ⟨payload, _, ran, failed⟩
  · obtain ⟨r, moves, stops⟩ := (goes_lift Source.isShort_of_window).error failed
    exact ⟨r, evolution_moves.trans (.over s Header.size) moves, stops⟩
  obtain ⟨found, rfl⟩ := ofExcept_eq_ok.mp ran
  rcases bind_eq_error.mp failed with impossible | ⟨_, _, moved, failed⟩
  · cases impossible
  obtain rfl := ScanReader.advance_eq_ok.mp moved
  obtain ⟨failed, -⟩ := ScanReader.onPool_eq_error.mp failed
  obtain ⟨pool, trail, stops⟩ := (goes_found header found).error failed
  exact ⟨_, .of_payload opened found trail, stops⟩

theorem goes_readAttribute (source : Source) (constants : Constant.Pool) :
    Scan.Goes source constants (readAttribute source constants) := by
  rw [readAttribute_eq]
  constructor
  · intro s reference t run
    simp only [bind_eq_ok, ScanReader.currentOffset_eq_ok, ofExcept_eq_ok,
      ScanReader.advance_eq_ok, ScanReader.onPool_eq_ok] at run
    obtain ⟨_, _, ⟨rfl, rfl⟩, window, _, ⟨opened, rfl⟩, ⟨header, rest⟩, _, ⟨-, rfl⟩, _, _, rfl, _, _,
      ⟨rfl, rfl⟩, content, _, ⟨found, rfl⟩, _, _, rfl, run, moved⟩ := run
    have trail := (goes_found header found).ok run
    obtain ⟨pool, offset⟩ := t
    dsimp only at trail moved
    subst moved
    exact .of_payload opened found trail
  · intro s e t failed
    rcases bind_eq_error.mp failed with impossible | ⟨_, _, here, failed⟩
    · cases impossible
    cases here
    rcases bind_eq_error.mp failed with failed | ⟨window, _, ran, failed⟩
    · exact (goes_lift Source.isShort_of_window).error failed
    obtain ⟨opened, rfl⟩ := ofExcept_eq_ok.mp ran
    rcases bind_eq_error.mp failed with failed | ⟨⟨header, rest⟩, _, ran, failed⟩
    · exact (goes_lift Payload.steady_header.short).error failed
    obtain ⟨-, rfl⟩ := ofExcept_eq_ok.mp ran
    rcases bind_eq_error.mp failed with impossible | ⟨_, _, moved, failed⟩
    · cases impossible
    obtain rfl := ScanReader.advance_eq_ok.mp moved
    exact stops_behind_header opened failed

theorem goes_readAttributes (source : Source) (constants : Constant.Pool) (count : Nat) :
    Scan.Goes source constants (readAttributes source constants count) :=
  .collect evolution_moves (goes_readAttribute source constants) count

end Scan

end Attribute

end ClassFormat
