import ClassFormat.Proofs.Attribute.Stored

/-!
# Planting into two pools

Trees make the same tables and rows wherever they are planted, whatever their
offsets are, which show in the events only. So what is kept when two stores get
the same table, and when they get the same row, is kept by planting.
-/
namespace ClassFormat.Attribute.Planter

variable {α β : Type} {R S T : Store String → Store String → Prop}

/-- What the first planter succeeds in the second one does, too, with the same
result. If the stores are related as in `R` before then as in `S` afterwards. -/
def Carries (R S : Store String → Store String → Prop) (plant plant' : Planter α) : Prop :=
  ∀ ⦃p q p' : Pool⦄ ⦃a : α⦄, R p.store q.store → plant p = .ok a p' →
    ∃ q', plant' q = .ok a q' ∧ S p'.store q'.store

/-- The relation is kept when both stores get the same. -/
structure Fair (R : Store String → Store String → Prop) : Prop where
  opened : ∀ {store other : Store String} (name : String), R store other →
    R (store.ensureTable name (columnsOf name)) (other.ensureTable name (columnsOf name))
  added : ∀ {store other later : Store String} {row : Row String} {index : Nat}, R store other →
    Store.addRow row store = .ok index later →
      ∃ later', Store.addRow row other = .ok index later' ∧ R later later'

theorem fair_eq : Fair Eq where
  opened _ same := by rw [same]
  added same added := ⟨_, same ▸ added, rfl⟩

namespace Carries

theorem pure (a : α) : Carries R R (Pure.pure a) (Pure.pure a) := by
  intro p q p' b related run
  obtain ⟨rfl, rfl⟩ := pure_eq_ok.mp run
  exact ⟨q, rfl, related⟩

theorem bind {x x' : Planter α} {f f' : α → Planter β} (first : Carries R S x x')
    (second : ∀ a, Carries S T (f a) (f' a)) : Carries R T (x >>= f) (x' >>= f') := by
  intro p q p' b related run
  obtain ⟨a, r, run, rest⟩ := bind_eq_ok.mp run
  obtain ⟨r', run', related⟩ := first related run
  obtain ⟨q', rest', related⟩ := second a related rest
  exact ⟨q', bind_eq_ok.mpr ⟨a, r', run', rest'⟩, related⟩

theorem compositional : Compositional fun _ => Carries R R := ⟨pure, bind⟩

end Carries

namespace Fair

section Steps

variable (fair : Fair R)

include fair

theorem openTable (name : String) :
    Carries R R (Pool.openTable name) (Pool.openTable name) := by
  intro p q p' _ related run
  obtain ⟨log, opened⟩ := exists_openTable name q
  refine ⟨_, opened, ?_⟩
  rw [store_of_openTable run]
  exact fair.opened name related

theorem addRow (name : String) (cells : List (Cell String)) :
    Carries R R (Pool.addRow name cells) (Pool.addRow name cells) := by
  intro p q p' reference related run
  obtain ⟨index, added, rfl, -⟩ := addRow_eq_ok.mp run
  obtain ⟨later, added', related⟩ := fair.added related added
  exact ⟨⟨later, _⟩, addRow_eq_ok.mpr ⟨index, added', rfl, rfl⟩, related⟩

theorem plantRow {S : Store String → Store String → Prop} (last : Fair S) (name : String)
    {cells cells' : Planter (List (Cell String))} (made : Carries R S cells cells') :
    Carries R S (plantRow name cells) (plantRow name cells') :=
  .bind (fair.openTable name) fun _ => .bind made fun cells => last.addRow name cells

theorem plantRecords (entry : Entry) (records : List Record) :
    Carries R R (records.mapM (Record.plant entry)) (records.mapM (Record.plant entry)) :=
  Carries.compositional.mapM (fun _ => fair.plantRow fair entry.tableName (.pure _)) records

omit fair in
theorem noteUnread (name : String) (offset offset' count : Nat) :
    Carries R R (noteUnread name offset count) (Attribute.noteUnread name offset' count) := by
  intro p q p' u related run
  have same := store_of_noteUnread run
  unfold Attribute.noteUnread
  split
  · exact ⟨_, rfl, same ▸ related⟩
  · exact ⟨_, rfl, same ▸ related⟩

end Steps

mutual

theorem plantField (fair : Fair R) (offset offset' : Nat) (column : Column String) :
    ∀ field : Field, Carries R R (field.plant offset column) (field.plant offset' column)
  | .plain field => by
      rw [Field.plant, Field.plant]
      exact .pure _
  | .entries entry records => by
      rw [Field.plant, Field.plant]
      exact .bind (fair.plantRecords entry records) fun _ => .pure _
  | .attributes trees => by
      rw [Field.plant, Field.plant]
      exact .bind (plantTrees fair _ _ trees) fun _ => .pure _

theorem plantFields (fair : Fair R) (offset offset' : Nat) :
    ∀ (fields : List Field) (columns : List (Column String)),
      Carries R R (plantFields offset fields columns) (plantFields offset' fields columns)
  | field :: rest, column :: columns => by
      rw [Attribute.plantFields, Attribute.plantFields]
      exact .bind (plantField fair _ _ column field) fun _ =>
        .bind (plantFields fair _ _ rest columns) fun _ => .pure _
  | [], _ => by
      simp only [Attribute.plantFields]
      exact .pure _
  | _ :: _, [] => by
      simp only [Attribute.plantFields]
      exact .pure _

theorem plantTree (fair : Fair R) (offset offset' : Nat) :
    ∀ tree : Tree, Carries R R (tree.plant offset) (tree.plant offset')
  | .node _ name fields unread => by
      rw [Tree.plant, Tree.plant]
      exact .bind (fair.plantRow fair name (plantFields fair _ _ fields (columnsOf name))) fun _ =>
        .bind (Fair.noteUnread name _ _ unread.length) fun _ => .pure _

/-- The same trees are planted, wherever they stood. -/
theorem plantTrees (fair : Fair R) (offset offset' : Nat) :
    ∀ trees : List Tree, Carries R R (plantTrees offset trees) (plantTrees offset' trees)
  | [] => by
      rw [Attribute.plantTrees, Attribute.plantTrees]
      exact .pure _
  | tree :: rest => by
      rw [Attribute.plantTrees, Attribute.plantTrees]
      exact .bind (plantTree fair _ _ tree) fun _ =>
        .bind (plantTrees fair _ _ rest) fun _ => .pure _

end

end Fair

theorem exists_plantTrees {offset : Nat} (offset' : Nat) {trees : List Tree} {pool pool' : Pool}
    {references : List (Reference String)}
    (planted : plantTrees offset trees pool = .ok references pool') :
    ∃ later, plantTrees offset' trees pool = .ok references later ∧
      pool'.store = later.store :=
  fair_eq.plantTrees offset offset' trees rfl planted

end ClassFormat.Attribute.Planter
