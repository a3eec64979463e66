import ClassFormat.Proofs.Attribute.Reachable
import ClassFormat.Proofs.Attribute.Scan

/-!
# The rows of trees

Planting a tree adds a row for the tree itself, for every entry record in it
and for every tree nested in it. It succeeds as long as the indexes suffice, and
a row is paid for by at least four bytes of the written form.
-/
namespace ClassFormat.Attribute

open BigEndian

mutual

/-- How many rows a field adds. -/
def Field.rows : Field → Nat
  | .plain _ => 0
  | .entries _ records => records.length
  | .attributes trees => treesRows trees

def fieldsRows : List Field → Nat
  | [] => 0
  | field :: rest => field.rows + fieldsRows rest

def Tree.rows : Tree → Nat
  | .node _ _ fields _ => fieldsRows fields + 1

def treesRows : List Tree → Nat
  | [] => 0
  | tree :: rest => tree.rows + treesRows rest

end

/-- On sound pools, adds this number of rows as soon as there are indexes for
them. -/
structure Planter.Adds {α : Type} (plant : Planter α) (rows : Nat) : Prop where
  exists_ok : ∀ {pool : Pool}, pool.Sound → pool.store.rowCount + rows ≤ 2 ^ 32 →
    ∃ a pool', plant pool = .ok a pool'
  effect : ∀ {pool pool' : Pool} {a : α}, pool.Sound → plant pool = .ok a pool' →
    pool.Evolves pool' ∧ pool'.store.rowCount = pool.store.rowCount + rows

namespace Planter.Adds

variable {α β : Type}

theorem pure (a : α) : Adds (Pure.pure a) 0 := by
  refine ⟨fun _ _ => ⟨a, _, rfl⟩, fun _ run => ?_⟩
  obtain ⟨rfl, rfl⟩ := pure_eq_ok.mp run
  exact ⟨Pool.respected_evolves.refl _, rfl⟩

theorem bind {plant : Planter α} {next : α → Planter β} {m n : Nat}
    (first : Adds plant m) (second : ∀ a, Adds (next a) n) : Adds (plant >>= next) (m + n) := by
  refine ⟨fun {pool} sound room => ?_, fun {pool pool'} b sound run => ?_⟩
  · obtain ⟨a, r, planted⟩ := first.exists_ok sound (by omega)
    obtain ⟨evolved, count⟩ := first.effect sound planted
    obtain ⟨b, t, rest⟩ := (second a).exists_ok (evolved.sound sound) (by omega)
    exact ⟨b, t, bind_eq_ok.mpr ⟨a, r, planted, rest⟩⟩
  · obtain ⟨a, r, planted, rest⟩ := bind_eq_ok.mp run
    obtain ⟨evolved, count⟩ := first.effect sound planted
    obtain ⟨evolved', count'⟩ := (second a).effect (evolved.sound sound) rest
    refine ⟨Pool.respected_evolves.trans evolved evolved', ?_⟩
    rw [count', count, Nat.add_assoc]

theorem mapM {plant : β → Planter α} {rows : Nat} {bs : List β}
    (law : ∀ b ∈ bs, Adds (plant b) rows) : Adds (bs.mapM plant) (bs.length * rows) := by
  induction bs with
  | nil =>
      rw [List.length_nil, Nat.zero_mul]
      exact pure []
  | cons b bs ih =>
      rw [List.mapM_cons, List.length_cons, Nat.succ_mul, Nat.add_comm]
      have rest := ih fun other h => law other (List.mem_cons_of_mem b h)
      exact bind (law b List.mem_cons_self) fun _ => bind (n := 0) rest fun _ => pure _

end Planter.Adds

theorem openTable_adds (name : String) : Planter.Adds (Pool.openTable name) 0 := by
  refine ⟨fun {pool} _ _ => ?_, fun {pool pool'} _ _ run => ?_⟩
  · obtain ⟨log, opened⟩ := exists_openTable name pool
    exact ⟨(), _, opened⟩
  · have evolved := Pool.respected_evolves.opened name pool
    rw [stateAfter_of_ok run] at evolved
    refine ⟨evolved, ?_⟩
    rw [store_of_openTable run, Store.ensureTable]
    split <;> rfl

/-- A row takes an index of its own, behind those of its cells. -/
theorem plantRow_adds {name : String} {cells : Planter (List (Cell String))} {rows : Nat}
    (law : Planter.Adds cells rows)
    (len : ∀ {pool pool' : Pool} {made : List (Cell String)}, cells pool = .ok made pool' →
      made.length = (columnsOf name).length) : Planter.Adds (plantRow name cells) (rows + 1) := by
  refine ⟨fun {pool} sound room => ?_, fun {pool pool'} reference sound run => ?_⟩
  · obtain ⟨log, opened⟩ := exists_openTable name pool
    obtain ⟨evolved, count⟩ := (openTable_adds name).effect sound opened
    obtain ⟨made, u, run⟩ := law.exists_ok (evolved.sound sound) (by omega)
    obtain ⟨evolved', count'⟩ := law.effect (evolved.sound sound) run
    have sound' := evolved'.sound (evolved.sound sound)
    have present := evolved'.grown.tables name
      (Store.containsTable_ensureTable pool.store name (columnsOf name))
    obtain ⟨pool', added⟩ := sound'.exists_addRow present (len run) (by omega)
    exact ⟨_, pool', bind_eq_ok.mpr ⟨(), _, opened, bind_eq_ok.mpr ⟨made, u, run, added⟩⟩⟩
  · obtain ⟨_, r, opened, rest⟩ := bind_eq_ok.mp run
    obtain ⟨made, u, run, last⟩ := bind_eq_ok.mp rest
    obtain ⟨evolved, count⟩ := (openTable_adds name).effect sound opened
    obtain ⟨evolved', count'⟩ := law.effect (evolved.sound sound) run
    have sound' := evolved'.sound (evolved.sound sound)
    obtain ⟨sound'', count''⟩ := sound'.addRow last
    obtain ⟨index, added, -⟩ := addRow_eq_ok.mp last
    refine ⟨⟨?_, fun _ => sound''⟩, by omega⟩
    exact (evolved.grown.trans evolved'.grown).trans (Store.resolve_of_addRow added).1

theorem Record.plant_adds {entry : Entry} {record : Record} (fits : record.Fits (fieldsOf entry)) :
    Planter.Adds (record.plant entry) 1 := by
  refine plantRow_adds (.pure _) fun run => ?_
  obtain ⟨rfl, -⟩ := pure_eq_ok.mp run
  rw [cells, List.length_zipWith, fits.length, Nat.min_self]

theorem noteUnread_adds (name : String) (offset count : Nat) :
    Planter.Adds (noteUnread name offset count) 0 := by
  unfold noteUnread
  split
  · refine ⟨fun _ _ => ⟨(), _, rfl⟩, fun _ run => ?_⟩
    cases run
    exact ⟨.note _ _, rfl⟩
  · exact .pure ()

theorem length_of_plantFields {named : Nat → String → Prop} : ∀ {fields : List Field} {offset : Nat}
    {columns : List (Column String)} {cells : List (Cell String)} {pool pool' : Pool},
    FieldsFit named fields (columns.map Column.type) →
      plantFields offset fields columns pool = .ok cells pool' → cells.length = columns.length
  | [], _, [], _, _, _, _, h => by
      obtain ⟨rfl, -⟩ := pure_eq_ok.mp h
      rfl
  | [], _, _ :: _, _, _, _, fits, _ => fits.elim
  | _ :: _, _, [], _, _, _, fits, _ => fits.elim
  | _ :: fields, _, _ :: columns, _, _, _, ⟨_, _, fits⟩, h => by
      obtain ⟨cell, r, first, h⟩ := bind_eq_ok.mp h
      obtain ⟨cells, u, others, done⟩ := bind_eq_ok.mp h
      obtain ⟨rfl, -⟩ := pure_eq_ok.mp done
      rw [List.length_cons, List.length_cons, length_of_plantFields fits others]

variable {named : Nat → String → Prop}

mutual

theorem Field.plant_adds : ∀ {field : Field} (offset : Nat) (column : Column String),
    field.Fits named → Planter.Adds (field.plant offset column) field.rows
  | .plain field, _, column, _ => .pure (field.cell column)
  | .entries entry records, _, _, fits => by
      have rows := Planter.Adds.mapM fun record h => Record.plant_adds (fits.2 record h)
      rw [Nat.mul_one] at rows
      exact .bind (n := 0) rows fun _ => .pure _
  | .attributes _, offset, _, fits =>
      .bind (n := 0) (plantTrees_adds (saturate (offset + 2)) fits.2) fun _ => .pure _

theorem plantFields_adds : ∀ {fields : List Field} (offset : Nat) (columns : List (Column String)),
    FieldsFit named fields (columns.map Column.type) →
      Planter.Adds (plantFields offset fields columns) (fieldsRows fields)
  | [], _, [], _ => .pure []
  | [], _, _ :: _, fits => fits.elim
  | _ :: _, _, [], fits => fits.elim
  | field :: _, offset, column :: columns, fits =>
      .bind (Field.plant_adds offset column fits.2.1) fun _ =>
        .bind (n := 0)
          (plantFields_adds (saturate (offset + field.encode.length)) columns fits.2.2)
          fun _ => .pure _

theorem Tree.plant_adds : ∀ {tree : Tree} (offset : Nat), tree.Fits named →
    Planter.Adds (tree.plant offset) tree.rows
  | .node _ name fields _, offset, fits => by
      have shape : FieldsFit named fields ((columnsOf name).map Column.type) := by
        rw [columnsOf_structure]
        exact fits.2.1
      have row : Planter.Adds (plantRow name (plantFields offset _ (columnsOf name))) _ :=
        plantRow_adds (plantFields_adds offset (columnsOf name) shape) (length_of_plantFields shape)
      exact .bind (n := 0) row fun _ =>
        .bind (m := 0) (n := 0) (noteUnread_adds _ _ _) fun _ => .pure _

theorem plantTrees_adds : ∀ {trees : List Tree} (offset : Nat), TreesFit named trees →
    Planter.Adds (plantTrees offset trees) (treesRows trees)
  | [], _, _ => .pure []
  | tree :: _, offset, fits =>
      .bind (Tree.plant_adds (saturate (offset + Header.size)) fits.1) fun _ =>
        .bind (n := 0) (plantTrees_adds (saturate (offset + tree.encode.length)) fits.2)
          fun _ => .pure _

end

/-- The least number of bytes of a field of this type. -/
def leastSize : ColumnType → Nat
  | .byte => 1
  | .uint32 | .byteArray => 4
  | .uint16 | .shortArray | .utf8String | .attributes => 2
  | .raw => 0
  | .entries entry => if entry = .methodParameter then 1 else 2

theorem Plain.leastSize_le (field : Plain) : leastSize field.type ≤ field.encode.length := by
  cases field with
  | byte n => exact Nat.le_refl 1
  | short n => exact Nat.le_of_eq (length_digits 2 n.toNat).symm
  | word n => exact Nat.le_of_eq (length_digits 4 n.toNat).symm
  | bytes list =>
      rw [encode, List.length_append, length_digits]
      exact Nat.le_add_right 4 list.length
  | shorts numbers =>
      rw [encode, List.length_append, length_digits]
      exact Nat.le_add_right 2 _
  | raw list => exact Nat.zero_le _

theorem Record.leastSize_le (record : Record) :
    ((record.map Plain.type).map leastSize).sum ≤ record.encode.length := by
  induction record with
  | nil => exact Nat.zero_le _
  | cons field record ih =>
      have here := field.leastSize_le
      rw [List.map_cons, List.map_cons, List.sum_cons, encode, List.flatMap_cons,
        List.length_append]
      exact Nat.add_le_add here ih

theorem Entry.four_le (entry : Entry) : 4 ≤ ((fieldsOf entry).map leastSize).sum := by
  cases entry <;> decide

theorem Record.four_mul_length_le {entry : Entry} {records : List Record}
    (fits : ∀ record ∈ records, record.Fits (fieldsOf entry)) :
    4 * records.length ≤ (records.flatMap Record.encode).length := by
  induction records with
  | nil => exact Nat.zero_le _
  | cons record records ih =>
      have rest := ih fun other h => fits other (List.mem_cons_of_mem _ h)
      have here := record.leastSize_le
      rw [(fits record List.mem_cons_self).1] at here
      have least := Entry.four_le entry
      rw [List.length_cons, List.flatMap_cons, List.length_append]
      omega

mutual

theorem Field.four_mul_rows_le : ∀ {field : Field}, field.Fits named →
    4 * field.rows ≤ field.encode.length
  | .plain _, _ => Nat.zero_le _
  | .entries entry records, fits => by
      have rows := Record.four_mul_length_le fits.2
      rw [Field.rows, Field.encode, List.length_append]
      exact Nat.le_trans rows (Nat.le_add_left _ _)
  | .attributes trees, fits => by
      have rows := four_mul_treesRows_le fits.2
      rw [Field.rows, Field.encode, List.length_append]
      exact Nat.le_trans rows (Nat.le_add_left _ _)

theorem four_mul_fieldsRows_le : ∀ {fields : List Field} {types : List ColumnType},
    FieldsFit named fields types → 4 * fieldsRows fields ≤ (encodeFields fields).length
  | [], _, _ => Nat.zero_le _
  | _ :: _, [], fits => fits.elim
  | _ :: _, _ :: _, fits => by
      have here := Field.four_mul_rows_le fits.2.1
      have rest := four_mul_fieldsRows_le fits.2.2
      rw [fieldsRows, encodeFields, List.length_append]
      omega

theorem Tree.four_mul_rows_le : ∀ {tree : Tree}, tree.Fits named →
    4 * tree.rows ≤ tree.encode.length
  | .node _ _ _ _, fits => by
      have rows := four_mul_fieldsRows_le fits.2.1
      rw [length_encode, Header.size, Tree.rows, Tree.payload, List.length_append]
      omega

theorem four_mul_treesRows_le : ∀ {trees : List Tree}, TreesFit named trees →
    4 * treesRows trees ≤ (encodeTrees trees).length
  | [], _ => Nat.zero_le _
  | tree :: trees, fits => by
      have here := Tree.four_mul_rows_le fits.1
      have rest := four_mul_treesRows_le fits.2
      rw [treesRows, encodeTrees_cons, List.length_append]
      omega

end

end ClassFormat.Attribute
