import ClassFormat.Proofs.Attribute.RoundTrip
import ClassFormat.Proofs.Attribute.Session
import ClassFormat.Proofs.ClassFile.RoundTrip

/-!
# The attributes of a class file

The attribute lists of a class file are the roots of its attribute pool: every
row is below one entry of one of the lists.
-/
namespace ClassFormat

/-- The attribute lists of the class itself, of its fields and of its
methods. -/
def ClassFile.attributeLists (c : ClassFile) : List (List (Reference String)) :=
  c.attributes :: (c.fields ++ c.methods).map Member.attributes

/-- An entry of an attribute list, by the position of the list and its own. -/
def ClassFile.attributeAt? (c : ClassFile) (place : Nat × Nat) : Option (Reference String) :=
  c.attributeLists[place.1]?.bind fun list => list[place.2]?

namespace Attribute.Ledger.Lawful

open ClassFile

variable {ledger : Ledger} (law : ledger.Lawful)

include law

theorem record {α : Type} (source : Source) (read : WindowReader α) :
    ledger.Silent Scan.pool (Decode.record .plain source read) := by
  rw [record_eq]
  refine law.andThen law.currentOffset fun offset => law.andThen (law.answer _) fun window => ?_
  refine law.andThen (law.answer _) fun result => ?_
  exact law.andThen (law.advance source _) fun _ => law.pure rfl

theorem readCount (source : Source) : ledger.Silent Scan.pool (ClassFile.readCount source) := by
  refine law.andThen law.currentOffset fun offset => law.andThen (law.answer _) fun count => ?_
  exact law.andThen (law.advance source _) fun _ => law.pure rfl

theorem readMember (source : Source) (constants : Constant.Pool) (place : FlagPlace) :
    ledger.Accounts Scan.pool (GivesEach Member.attributes fun _ => True)
      (ClassFile.readMember source constants place) := by
  rw [readMember_eq]
  refine law.andThen law.currentOffset fun start => ?_
  refine law.andThen (law.record source _) fun header => ?_
  refine law.bind (law.readAttributes source constants _) fun attributes given known => ?_
  refine law.andThen law.currentOffset fun stop => law.pure ⟨?_, trivial⟩
  rw [List.append_nil, known]

theorem readBody (source : Source) (constants : Constant.Pool) :
    ledger.Accounts Scan.pool
      (fun body given => given = body.fields.flatMap Member.attributes ++
        body.methods.flatMap Member.attributes ++ body.attributes)
      (ClassFile.readBody source constants) := by
  have members (place : FlagPlace) (count : Nat) :=
    law.collect (law.readMember source constants place) count
  refine law.andThen (law.record source _) fun info => ?_
  refine law.andThen (law.readCount source) fun fieldCount => ?_
  refine law.bind (members .field fieldCount) fun fields first known => ?_
  refine law.andThen (law.readCount source) fun methodCount => ?_
  refine law.bind (members .method methodCount) fun methods second known' => ?_
  refine law.andThen (law.readCount source) fun count => ?_
  refine law.bind (law.readAttributes source constants _) fun attributes third known'' => ?_
  refine law.pure ?_
  rw [known.1, known'.1, known'', List.append_nil, List.append_assoc]

end Attribute.Ledger.Lawful

namespace ClassFile

open Attribute

variable {c : ClassFile} {source : Source}

/-- The attribute lists of a class file are all the roots of its attribute
pool. -/
theorem whole_of_ofSource (run : ofSource source = .ok c)
    (room : c.attributePool.store.rowCount < 2 ^ 32) :
    c.attributePool.Whole c.attributeLists.flatten := by
  obtain ⟨parts, read, rfl⟩ := ofSource_eq_ok.mp run
  obtain ⟨-, -, body⟩ := readParts_eq_ok.mp read
  obtain ⟨given, rfl, gives⟩ := (Ledger.lawful_forest.readBody source parts.constants).ok body
  refine (gives.forest room .empty).whole.of_perm ?_
  rw [attributeLists, List.flatten_cons, ← List.flatMap_def, List.flatMap_append, List.nil_append]
  exact List.perm_append_comm

theorem exists_entry {reference : Reference String}
    (member : reference ∈ c.attributeLists.flatten) :
    ∃ place, c.attributeAt? place = some reference := by
  obtain ⟨list, present, member⟩ := List.mem_flatten.mp member
  obtain ⟨i, bound, rfl⟩ := List.getElem_of_mem present
  obtain ⟨j, bound', rfl⟩ := List.getElem_of_mem member
  refine ⟨(i, j), ?_⟩
  rw [attributeAt?, List.getElem?_eq_getElem bound, Option.bind_some,
    List.getElem?_eq_getElem bound']

theorem mem_of_entry {place : Nat × Nat} {reference : Reference String}
    (found : c.attributeAt? place = some reference) :
    reference ∈ c.attributeLists.flatten := by
  obtain ⟨list, here, found⟩ := Option.bind_eq_some_iff.mp found
  exact List.mem_flatten.mpr ⟨list, List.mem_of_getElem? here, List.mem_of_getElem? found⟩

/-- Different lists of a class file have no row in common. -/
theorem disjoint_lists (h : c.attributePool.PostOrder c.attributeLists.flatten) {i j : Nat}
    {list other : List (Reference String)} (here : c.attributeLists[i]? = some list)
    (there : c.attributeLists[j]? = some other) (less : i < j) :
    (list.map Reference.index).Disjoint (other.map Reference.index) := by
  have once := h.once
  rw [List.map_append, List.nodup_append, List.map_flatten, List.nodup_flatten] at once
  obtain ⟨-, ⟨-, apart⟩, -⟩ := once
  obtain ⟨bound, rfl⟩ := List.getElem?_eq_some_iff.mp here
  obtain ⟨bound', rfl⟩ := List.getElem?_eq_some_iff.mp there
  have disjoint := List.pairwise_iff_getElem.mp apart i j (by simpa using bound)
    (by simpa using bound') less
  simpa only [List.getElem_map] using disjoint

/-- No list of a class file has a row twice. -/
theorem nodup_list (h : c.attributePool.PostOrder c.attributeLists.flatten)
    {list : List (Reference String)} (member : list ∈ c.attributeLists) :
    (list.map Reference.index).Nodup := by
  have once := h.once
  rw [List.map_append, List.nodup_append, List.map_flatten, List.nodup_flatten] at once
  obtain ⟨-, ⟨within, -⟩, -⟩ := once
  exact within _ (List.mem_map_of_mem member)

/-- No row is listed at two places. -/
theorem place_unique (h : c.attributePool.PostOrder c.attributeLists.flatten)
    {place other : Nat × Nat} {reference reference' : Reference String}
    (found : c.attributeAt? place = some reference)
    (found' : c.attributeAt? other = some reference')
    (same : reference.index = reference'.index) : place = other := by
  obtain ⟨i, j⟩ := place
  obtain ⟨i', j'⟩ := other
  obtain ⟨list, here, inside⟩ := Option.bind_eq_some_iff.mp found
  obtain ⟨list', here', inside'⟩ := Option.bind_eq_some_iff.mp found'
  have member := List.mem_map_of_mem (f := Reference.index) (List.mem_of_getElem? inside)
  have member' := List.mem_map_of_mem (f := Reference.index) (List.mem_of_getElem? inside')
  rw [same] at member
  rcases Nat.lt_trichotomy i i' with less | rfl | less
  · exact (disjoint_lists h here here' less member member').elim
  · obtain rfl : list = list' := Option.some.inj (here.symm.trans here')
    have nodup := nodup_list h (List.mem_of_getElem? here)
    have bound := (List.getElem?_eq_some_iff.mp inside).1
    have positions : (list.map Reference.index)[j]? = (list.map Reference.index)[j']? := by
      rw [List.getElem?_map, List.getElem?_map, inside, inside', Option.map_some, Option.map_some,
        same]
    rw [(List.getElem?_inj (by simpa using bound) nodup).mp positions]
  · exact (disjoint_lists h here' here less member' member).elim

/-- Every row is below exactly one entry of an attribute list. -/
theorem existsUnique_entry (h : c.attributePool.Whole c.attributeLists.flatten) {index : Nat}
    (member : index ∈ c.attributePool.store.indexes) :
    ∃! place, ∃ reference, c.attributeAt? place = some reference ∧
      c.attributePool.Reaches reference.index index := by
  obtain ⟨root, known, reached⟩ := h.exists_root member
  obtain ⟨reference, listed, rfl⟩ := List.mem_map.mp known
  obtain ⟨place, found⟩ := exists_entry listed
  refine ⟨place, ⟨reference, found, reached⟩, fun other also => ?_⟩
  obtain ⟨reference', found', reached'⟩ := also
  have known' := List.mem_map_of_mem (f := Reference.index) (mem_of_entry found')
  have same := h.toPostOrder.root_unique known' known reached' reached
  exact place_unique h.toPostOrder found' found same

/-- Calls that read attributes leave a forest in post-order, whose roots are what
they have returned when none of them failed. The roots of the attribute pool of
a class file are the entries of its attribute lists. -/
theorem attributePool_postOrder :
    (∀ calls : List Call, (Session.run calls).pool.store.rowCount < 2 ^ 32 →
      (Session.run calls).pool.PostOrder (Session.run calls).returned ∧
        ((Session.run calls).failed = false →
          (Session.run calls).pool.Whole (Session.run calls).returned)) ∧
    ∀ (source : Source) (c : ClassFile), ofSource source = .ok c →
      c.attributePool.store.rowCount < 2 ^ 32 →
        c.attributePool.Whole c.attributeLists.flatten ∧
          ∀ index ∈ c.attributePool.store.indexes, ∃! place, ∃ reference,
            c.attributeAt? place = some reference ∧
              c.attributePool.Reaches reference.index index := by
  constructor
  · intro calls room
    obtain ⟨lost, forest, complete⟩ := Session.run_tended calls room
    refine ⟨forest.postOrder, fun fine => ?_⟩
    rw [complete fine] at forest
    exact forest.whole
  · intro source c run room
    have whole := whole_of_ofSource run room
    exact ⟨whole, fun index member => existsUnique_entry whole member⟩

/-- A list is read, and then from the same source one attribute more than there
is. -/
def sampleCalls : List Call :=
  [.attributes ⟨(encodeTrees sampleTrees).toArray⟩ sampleConstants 4 0,
    .attributes ⟨(encodeTrees sampleTrees).toArray⟩ sampleConstants 5 0]

theorem attributePool_postOrder_samples :
    (Session.run sampleCalls).pool.store.rowCount = 30 ∧ (Session.run sampleCalls).failed = true ∧
      (Session.run sampleCalls).pool.PostOrder (Session.run sampleCalls).returned ∧
      (Session.run (sampleCalls.take 1)).pool.Whole
        (Session.run (sampleCalls.take 1)).returned ∧
      ∃ c, ofSource ⟨sampleImage.encode.toArray⟩ = .ok c ∧
        c.attributePool.store.rowCount = 4 ∧
        ∀ index ∈ c.attributePool.store.indexes, ∃! place, ∃ reference,
          c.attributeAt? place = some reference ∧
            c.attributePool.Reaches reference.index index := by
  have rows : (Session.run sampleCalls).pool.store.rowCount = 30 := by decide +kernel
  have failed : (Session.run sampleCalls).failed = true := by decide +kernel
  have fine : (Session.run (sampleCalls.take 1)).failed = false := by decide +kernel
  have room : (Session.run (sampleCalls.take 1)).pool.store.rowCount < 2 ^ 32 := by
    decide +kernel
  have classRows : (do
      let c ← ofSource ⟨sampleImage.encode.toArray⟩
      return c.attributePool.store.rowCount : Except DecodingError Nat) = .ok 4 := by
    decide +kernel
  obtain ⟨c, run, two⟩ := Except.map_eq_ok.mp classRows
  refine ⟨rows, failed, (attributePool_postOrder.1 sampleCalls (by rw [rows]; decide)).1, ?_, c,
    run, two, (attributePool_postOrder.2 _ c run (by rw [two]; decide)).2⟩
  exact (attributePool_postOrder.1 (sampleCalls.take 1) room).2 fine

end ClassFile

end ClassFormat
