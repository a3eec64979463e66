import ClassFormat.Proofs.Attribute.Answers
import ClassFormat.Proofs.ClassFile.Roots
import ClassFormat.Proofs.Constant.Answers

/-!
# Views of all that was read

The rows of every pool that bytes can lead to have the cells that the accessors
of their tables ask for, and all references that are handed out lead to rows. So
no accessor and no search by name fails, but for a method handle whose kind is
unknown.
-/
namespace ClassFormat

open Attribute

theorem Attribute.Pool.Typed.answers {pool : Attribute.Pool} (h : pool.Typed) :
    pool.store.Lists pool.Answers :=
  h.listed.imp fun row found => (h.rows row.index row found).2.answers

theorem Constant.Pool.lists_answers {source : Source} {count start : Nat} {pool : Constant.Pool}
    (ok : (Constant.Pool.read source count start).result = .ok pool) :
    pool.store.Lists pool.Answers :=
  (Constant.Pool.lists_of_read ok).imp fun _ => Constant.Pool.answers

namespace ClassFile

variable {source : Source} {c : ClassFile}

/-- All rows of a class file are filled, and the entries of its attribute lists
lead to rows. -/
theorem typed_of_ofSource (run : ofSource source = .ok c) :
    c.attributePool.Typed ∧ ∀ references ∈ c.attributeLists, ∀ reference ∈ references,
      c.attributePool.Leads reference := by
  obtain ⟨parts, read, rfl⟩ := ofSource_eq_ok.mp run
  obtain ⟨-, -, body⟩ := readParts_eq_ok.mp read
  obtain ⟨given, known, leading⟩ := (Ledger.lawful_typing.readBody source parts.constants).ok body
  refine ⟨leading.typed Pool.typed_empty, fun references listed reference member => ?_⟩
  refine leading.leads Pool.typed_empty reference ?_
  have inside : reference ∈ (parts.classFile source).attributeLists.flatten :=
    List.mem_flatten.mpr ⟨references, listed, member⟩
  rw [attributeLists, List.flatten_cons, ← List.flatMap_def, List.flatMap_append] at inside
  rw [known]
  exact (List.mem_append.mp inside).elim (List.mem_append.mpr ∘ .inr) (List.mem_append.mpr ∘ .inl)

/-- Every row of a pool of constants answers, and so does every row of a pool of
attributes after any calls, failed or not. What a call has returned is found by
name at once and ever after, and so are the attribute lists of a class file. -/
theorem views_answer :
    (∀ (source : Source) (count start : Nat) (pool : Constant.Pool),
      (Constant.Pool.read source count start).result = .ok pool →
        pool.store.Lists pool.Answers) ∧
    (∀ calls : List Call,
      (Session.run calls).pool.store.Lists (Session.run calls).pool.Answers) ∧
    (∀ (before later : List Call) (call : Call) (references : List (Reference String))
      (pool : Attribute.Pool), call.run (Session.run before).pool = .ok references pool →
        ∀ name, pool.Finds references name ∧
          (Session.run (before ++ call :: later)).pool.Finds references name) ∧
    ∀ (source : Source) (c : ClassFile), ofSource source = .ok c →
      c.constants.store.Lists c.constants.Answers ∧
        c.attributePool.store.Lists c.attributePool.Answers ∧
        ∀ references ∈ c.attributeLists, ∀ name, c.attributePool.Finds references name := by
  refine ⟨fun source count start pool ok => Constant.Pool.lists_answers ok,
    fun calls => (Session.run_typed calls).answers, ?returned, ?classFile⟩
  case returned =>
    intro before later call references pool returned name
    obtain ⟨given, rfl, leading⟩ := (Ledger.lawful_typing.run call).ok returned
    have now := leading.leads (Session.run_typed before)
    exact ⟨Attribute.Pool.finds_of_leads now name,
      Attribute.Pool.finds_of_leads (Session.leads_of_run returned) name⟩
  case classFile =>
    intro source c run
    obtain ⟨typed, leads⟩ := typed_of_ofSource run
    refine ⟨?_, typed.answers, fun references listed name =>
      Attribute.Pool.finds_of_leads (leads references listed) name⟩
    obtain ⟨parts, read, rfl⟩ := ofSource_eq_ok.mp run
    exact Constant.Pool.lists_answers (readParts_eq_ok.mp read).2.1

theorem exists_of_isSome {ε α : Type} {result : Except ε α} (some : result.toOption.isSome) :
    ∃ a, result = .ok a := by
  cases result with
  | error e => cases some
  | ok a => exact ⟨a, rfl⟩

/-- The sample constants, a call that returns and one that fails, and the sample
of a class file. -/
theorem views_answer_samples :
    (∃ pool, (Constant.Pool.read ⟨(Constant.encodeAll Constant.sampleContents).toArray⟩ 8 0).result =
        .ok pool ∧ pool.store.Lists pool.Answers) ∧
    (Session.run sampleCalls).failed = true ∧
    (Session.run sampleCalls).pool.store.Lists (Session.run sampleCalls).pool.Answers ∧
    (∃ references pool,
      (Call.attributes ⟨(encodeTrees sampleTrees).toArray⟩ sampleConstants 4 0).run
          (Session.run []).pool = .ok references pool ∧
        ∀ name, pool.Finds references name ∧
          (Session.run ([] ++ sampleCalls)).pool.Finds references name) ∧
    ∃ c, ofSource ⟨sampleImage.encode.toArray⟩ = .ok c ∧
      c.constants.store.Lists c.constants.Answers ∧
        c.attributePool.store.Lists c.attributePool.Answers ∧
        ∀ references ∈ c.attributeLists, ∀ name, c.attributePool.Finds references name := by
  have constantsRead : (Constant.Pool.read
      ⟨(Constant.encodeAll Constant.sampleContents).toArray⟩ 8 0).result.toOption.isSome := by
    decide +kernel
  have classRead : (ofSource ⟨sampleImage.encode.toArray⟩).toOption.isSome := by decide +kernel
  have failed : (Session.run sampleCalls).failed = true := by decide +kernel
  have fine : succeeds (Call.attributes ⟨(encodeTrees sampleTrees).toArray⟩ sampleConstants 4 0).run
      (Session.run []).pool = true := by decide +kernel
  obtain ⟨constants, firstRun⟩ := exists_of_isSome constantsRead
  obtain ⟨c, lastRun⟩ := exists_of_isSome classRead
  obtain ⟨references, pool, called⟩ := exists_ok_of_succeeds fine
  refine ⟨⟨constants, firstRun, views_answer.1 _ _ _ constants firstRun⟩, failed,
    views_answer.2.1 sampleCalls, ⟨references, pool, called, ?_⟩,
    ⟨c, lastRun, views_answer.2.2.2 _ c lastRun⟩⟩
  exact views_answer.2.2.1 [] (sampleCalls.drop 1) _ references pool called

end ClassFile

end ClassFormat
