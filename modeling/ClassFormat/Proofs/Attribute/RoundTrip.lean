import ClassFormat.Proofs.Attribute.Rows
import ClassFormat.Proofs.Attribute.Unambiguous
import ClassFormat.Proofs.Constant.RoundTrip

/-!
# Attributes and their bytes

Reading the written form of trees stores the trees, and what reading stores are
trees whose written form was there to be read.
-/
namespace ClassFormat.Attribute

variable {source : Source} {constants : Constant.Pool}

/-- The references to trees name their tables. -/
theorem map_table_of_stored {store : Store String} {trees : List Tree}
    {references : List (Reference String)} (h : TreesStored store trees references) :
    references.map Reference.table = trees.map fun tree => some tree.name := by
  induction trees generalizing references with
  | nil =>
      cases references with
      | nil => rfl
      | cons => exact h.elim
  | cons tree trees ih =>
      cases references with
      | nil => exact h.elim
      | cons reference references =>
          obtain ⟨here, rest⟩ := h
          obtain ⟨_, name, _, _⟩ := tree
          rw [List.map_cons, List.map_cons, ih rest, here.1]
          rfl

/-- Trees that stand at an offset are read into a sound pool if it has indexes
for their rows. -/
theorem exists_readAttributes (small : source.size < 2 ^ 32) {pool : Pool} (sound : pool.Sound)
    {trees : List Tree} (fits : TreesFit (Named constants) trees)
    (depth : treesDepth trees ≤ maxNesting) {offset : Nat}
    (holds : source.Holds offset (encodeTrees trees))
    (room : pool.store.rowCount + treesRows trees ≤ 2 ^ 32) :
    ∃ references pool', readAttributes source constants trees.length ⟨pool, offset⟩ =
        .ok references ⟨pool', offset + (encodeTrees trees).length⟩ ∧
      plantTrees offset trees pool = .ok references pool' := by
  obtain ⟨references, pool', planted⟩ := (plantTrees_adds offset fits).exists_ok sound room
  refine ⟨references, pool', (readAttributes_eq_ok small).mpr ?_, planted⟩
  exact ⟨trees, rfl, fits, depth, holds, rfl, planted⟩

/-- What is read where trees stand are these trees, with all that reading them
takes. -/
theorem of_readAttributes_eq_ok (small : source.size < 2 ^ 32) {pool : Pool} (sound : pool.Sound)
    {trees : List Tree} (fits : TreesFit (Named constants) trees) {offset : Nat}
    (holds : source.Holds offset (encodeTrees trees)) {references : List (Reference String)}
    {t : Scan}
    (run : readAttributes source constants trees.length ⟨pool, offset⟩ = .ok references t) :
    treesDepth trees ≤ maxNesting ∧ pool.store.rowCount + treesRows trees ≤ 2 ^ 32 := by
  obtain ⟨others, len, fits', depth, holds', -, planted⟩ := (readAttributes_eq_ok small).mp run
  obtain rfl := trees_unique fits' fits len holds' holds
  obtain ⟨evolved, count⟩ := (plantTrees_adds _ fits').effect sound planted
  refine ⟨depth, ?_⟩
  rw [← count]
  exact (evolved.sound sound).numbered.bound

/-- Wherever the written form of attributes stands, reading them gives a
reference to each, which leads to the attribute and to nothing else, and ends
right behind them. All that it takes are free row indexes. -/
theorem readAttributes_encodeTrees {pool : Pool} (reachable : pool.Reachable) {trees : List Tree}
    (fits : TreesFit (Named constants) trees) (depth : treesDepth trees ≤ maxNesting)
    {before after : List UInt8}
    (bytes : source.bytes.toList = before ++ encodeTrees trees ++ after)
    (small : source.size < 2 ^ 32) :
    (∃ references pool',
        readAttributes source constants trees.length ⟨pool, before.length⟩ =
          .ok references ⟨pool', before.length + (encodeTrees trees).length⟩ ∧
        references.map Reference.table = trees.map (fun tree => some tree.name) ∧
        TreesStored pool'.store trees references ∧
        ∀ others, TreesFit (Named constants) others → TreesStored pool'.store others references →
          bareTrees others = bareTrees trees) ↔
      pool.store.rowCount + treesRows trees ≤ 2 ^ 32 := by
  have holds := Source.holds_of_eq bytes
  constructor
  · intro h
    obtain ⟨references, pool', run, -⟩ := h
    exact (of_readAttributes_eq_ok small reachable.sound fits holds run).2
  · intro room
    obtain ⟨references, pool', run, planted⟩ :=
      exists_readAttributes small reachable.sound fits depth holds room
    obtain ⟨-, stored⟩ := plantTrees_stored fits planted
    refine ⟨references, pool', run, map_table_of_stored stored, stored, ?_⟩
    intro others fits' stored'
    exact stored'.unique fits' fits stored

/-- The names of the attributes of the sample. -/
def sampleNames : List String :=
  ["Code", "LineNumberTable", "LocalVariableTable", "LocalVariableTypeTable", "MethodParameters",
   "InnerClasses", "BootstrapMethods"]

/-- The pool that is read off these names. -/
def sampleConstants : Constant.Pool :=
  Constant.namesPool sampleNames (by decide +kernel) (by decide +kernel)

/-- A method body of one instruction, with an exception handler, three tables and
a byte to spare; two parameters, of which the count is one byte; and lists of
inner classes and of bootstrap methods. So there are entries of every kind. -/
def sampleTrees : List Tree :=
  [.node 1 "Code"
    [.plain (.short 1), .plain (.short 2), .plain (.bytes [0xB1]),
      .entries .exceptionHandler [[.short 0, .short 1, .short 0, .short 0]],
      .attributes
        [.node 2 "LineNumberTable" [.entries .lineNumber [[.short 0, .short 7]]] [],
         .node 3 "LocalVariableTable"
          [.entries .localVariable [[.short 0, .short 1, .short 1, .short 2, .short 0]]] [],
         .node 4 "LocalVariableTypeTable"
          [.entries .localVariableType [[.short 0, .short 1, .short 1, .short 3, .short 0]]] []]]
    [0xFF],
   .node 5 "MethodParameters"
    [.entries .methodParameter [[.short 0, .short 0x9010], [.short 1, .short 0]]] [],
   .node 6 "InnerClasses"
    [.entries .innerClass [[.short 1, .short 0, .short 2, .short 0xFFFF]]] [],
   .node 7 "BootstrapMethods" [.entries .bootstrapMethod [[.short 1, .shorts [2, 3]]]] []]

theorem named_sampleConstants {slot : Nat} {name : String}
    (placed : (slot, .utf8 name) ∈ Constant.withSlots 1 (sampleNames.map .utf8)) :
    Named sampleConstants slot name :=
  Constant.utf8_namesPool _ _ placed

theorem sampleTrees_fit : TreesFit (Named sampleConstants) sampleTrees := by
  have named (slot : Nat) (name : String)
      (placed : (slot, .utf8 name) ∈ Constant.withSlots 1 (sampleNames.map .utf8)) :
      Named sampleConstants slot name := named_sampleConstants placed
  have structures : sampleNames.map structureOf =
      [[.uint16, .uint16, .byteArray, .entries .exceptionHandler, .attributes],
       [.entries .lineNumber], [.entries .localVariable], [.entries .localVariableType],
       [.entries .methodParameter], [.entries .innerClass], [.entries .bootstrapMethod]] := rfl
  simp only [sampleNames, List.map_cons, List.cons.injEq] at structures
  simp [sampleTrees, TreesFit, Tree.Fits, FieldsFit, Field.Fits, Field.type, Plain.type,
    Plain.Fits, Record.Fits, fieldsOf, structures, named 1 "Code" (by decide),
    named 2 "LineNumberTable" (by decide), named 3 "LocalVariableTable" (by decide),
    named 4 "LocalVariableTypeTable" (by decide), named 5 "MethodParameters" (by decide),
    named 6 "InnerClasses" (by decide), named 7 "BootstrapMethods" (by decide), encodeFields,
    Field.encode, encodeTrees, Tree.payload, Record.encode, Plain.encode, BigEndian.length_digits]

/-- The sample between two other bytes, read into a new pool. -/
theorem readAttributes_sampleTrees :
    ∃ references pool',
      readAttributes ⟨([0xCA] ++ encodeTrees sampleTrees ++ [0xFE]).toArray⟩ sampleConstants 4
          ⟨{}, 1⟩ = .ok references ⟨pool', 1 + (encodeTrees sampleTrees).length⟩ ∧
        references.map Reference.table =
          [some "Code", some "MethodParameters", some "InnerClasses", some "BootstrapMethods"] ∧
        TreesStored pool'.store sampleTrees references ∧
        ∀ others, TreesFit (Named sampleConstants) others →
          TreesStored pool'.store others references → bareTrees others = bareTrees sampleTrees := by
  have bytes : (Source.bytes ⟨([0xCA] ++ encodeTrees sampleTrees ++ [0xFE]).toArray⟩).toList =
      [0xCA] ++ encodeTrees sampleTrees ++ [0xFE] := List.toList_toArray
  have shallow : treesDepth sampleTrees ≤ maxNesting := by decide +kernel
  have room : ({} : Pool).store.rowCount + treesRows sampleTrees ≤ 2 ^ 32 := by decide +kernel
  have small : Source.size ⟨([0xCA] ++ encodeTrees sampleTrees ++ [0xFE]).toArray⟩ < 2 ^ 32 := by
    decide +kernel
  have tables : sampleTrees.map (fun tree => some tree.name) =
      [some "Code", some "MethodParameters", some "InnerClasses", some "BootstrapMethods"] := rfl
  have read := (readAttributes_encodeTrees .empty sampleTrees_fit shallow bytes small).mpr room
  rwa [tables, List.length_singleton] at read

/-- Attributes that were read are stored as the trees that the bytes in between
are the written form of. -/
theorem readAttributes_faithful (small : source.size < 2 ^ 32) {count : Nat} {s t : Scan}
    {references : List (Reference String)}
    (run : readAttributes source constants count s = .ok references t) :
    ∃ trees : List Tree, trees.length = count ∧ TreesFit (Named constants) trees ∧
      source.Holds s.offset (encodeTrees trees) ∧
      t.offset = s.offset + (encodeTrees trees).length ∧
      TreesStored t.pool.store trees references := by
  obtain ⟨trees, len, fits, -, holds, moved, planted⟩ := (readAttributes_eq_ok small).mp run
  obtain ⟨-, stored⟩ := plantTrees_stored fits planted
  exact ⟨trees, len, fits, holds, moved, stored⟩

/-- The sample on its own, taken from where it was read. -/
theorem readAttributes_faithful_sampleTrees :
    ∃ references t, readAttributes ⟨(encodeTrees sampleTrees).toArray⟩ sampleConstants 4 ⟨{}, 0⟩ =
        .ok references t ∧
      ∃ trees : List Tree, trees.length = 4 ∧ TreesFit (Named sampleConstants) trees ∧
        Source.Holds ⟨(encodeTrees sampleTrees).toArray⟩ 0 (encodeTrees trees) ∧
        t.offset = 0 + (encodeTrees trees).length ∧ TreesStored t.pool.store trees references := by
  have small : Source.size ⟨(encodeTrees sampleTrees).toArray⟩ < 2 ^ 32 := by decide +kernel
  have bytes : (encodeTrees sampleTrees).toArray.toList = [] ++ encodeTrees sampleTrees ++ [] := by
    rw [List.toList_toArray, List.append_nil, List.nil_append]
  obtain ⟨references, pool, run, -⟩ := exists_readAttributes small Pool.sound_empty sampleTrees_fit
    (by decide +kernel) (Source.holds_of_eq bytes) (by decide +kernel)
  exact ⟨references, _, run, readAttributes_faithful small run⟩

end ClassFormat.Attribute
