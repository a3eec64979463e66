import ClassFormat.Proofs.Constant.Answers

/-!
# Where method handles lead

The kind of a method handle allows constants of one kind, or of two. A handle
whose kind allows one leads into the table of this one only. No table holds the
constants of two kinds, so the two kinds of handles that allow methods of classes
and of interfaces name no table at all, and lead to whatever stands in their slot.
-/
namespace ClassFormat.Constant

namespace HandleKind

/-- The kinds of constants that a handle of this kind may refer to. -/
def allowed : HandleKind → List Tag
  | .getField | .getStatic | .putField | .putStatic => [.fieldref]
  | .invokeVirtual | .newInvokeSpecial => [.methodref]
  | .invokeStatic | .invokeSpecial => [.methodref, .interfaceMethodref]
  | .invokeInterface => [.interfaceMethodref]

/-- Whether two kinds of constants are allowed, so that the handle names no
table. -/
def isOpen : HandleKind → Bool
  | .invokeStatic | .invokeSpecial => true
  | _ => false

variable {kind : HandleKind}

theorem isOpen_iff : kind.isOpen ↔ kind = .invokeStatic ∨ kind = .invokeSpecial := by
  cases kind <;> decide

theorem target?_of_isOpen (choice : kind.isOpen) : kind.target? = none := by
  rcases isOpen_iff.mp choice with rfl | rfl <;> rfl

/-- A handle that names a table names the only one that is allowed. -/
theorem exists_target (named : ¬kind.isOpen) :
    ∃ tag, kind.target? = some tag ∧ kind.allowed = [tag] := by
  cases kind with
  | invokeStatic => exact absurd (isOpen_iff.mpr (.inl rfl)) named
  | invokeSpecial => exact absurd (isOpen_iff.mpr (.inr rfl)) named
  | _ => exact ⟨_, rfl, rfl⟩

end HandleKind

namespace Pool

variable {source : Source} {count start : Nat} {pool : Pool} {kind : HandleKind}

theorem Slotted.entry_eq_error (slotted : pool.Slotted count) {tag : Tag} {slot : Nat}
    (other : ¬∃ row, pool.get slot = .ok row ∧ row.table = tag) :
    pool.entry tag slot = .error (.rowNotInTable slot tag.name) := by
  have listed : pool.store.containsTable tag := by
    rw [Store.containsTable_iff, slotted.tables]
    cases tag <;> decide
  have absent : ¬∃ row, pool.entry tag slot = .ok row := fun ⟨row, found⟩ =>
    other ⟨row, (slotted.entry tag slot row).mp found⟩
  unfold Pool.entry Store.entry at absent ⊢
  rw [if_pos listed] at absent ⊢
  split
  next row found =>
    rw [found] at absent
    split
    next same => exact absurd ⟨row, if_pos same⟩ absent
    next => rfl
  next => rfl

/-- Where a reference of a handle of this kind leads, when the handle points at
this slot. -/
structure Leads (pool : Pool) (kind : HandleKind) (member : Nat) (reference : Reference Tag) :
    Prop where
  ok : ∀ target, pool.resolve reference = .ok target ↔
    pool.get member = .ok target ∧ (target.table ∈ kind.allowed ∨ kind.isOpen)
  /-- A row that is not allowed is refused, and so is an empty slot. -/
  refused : ¬kind.isOpen →
    (∀ target, pool.get member = .ok target → target.table ∉ kind.allowed) →
      ∃ tag ∈ kind.allowed, pool.resolve reference = .error (.rowNotInTable member tag.name)
  missing : kind.isOpen → (∀ target, pool.get member ≠ .ok target) →
    pool.resolve reference = .error (.rowNotFound member)

theorem Slotted.leads (slotted : pool.Slotted count) (kind : HandleKind) (member : Nat) :
    pool.Leads kind member ⟨kind.target?, member⟩ := by
  by_cases choice : kind.isOpen
  · rw [kind.target?_of_isOpen choice]
    exact
      { ok := fun target => by simp [choice, resolve, Store.resolve, get]
        refused := fun named => absurd choice named
        missing := fun _ empty => get_eq_error (not_exists.mpr empty) }
  · obtain ⟨tag, named, only⟩ := HandleKind.exists_target choice
    rw [named]
    refine { ok := fun target => ?_, refused := fun _ other => ?_, missing := fun isOpen => ?_ }
    · rw [only, List.mem_singleton, or_iff_left choice]
      exact slotted.entry tag member target
    · rw [only] at other ⊢
      refine ⟨tag, List.mem_singleton.mpr rfl, slotted.entry_eq_error ?_⟩
      rintro ⟨row, found, same⟩
      exact other row found (List.mem_singleton.mpr same)
    · exact absurd isOpen choice

/-- A method handle of a pool that was read has a kind and a slot. If the kind is
one of the nine, its member is the row in that slot, which has to be of a kind that
is allowed, unless the kind is one of the two that name no table. -/
theorem leads_of_read {slot : Nat} {row : Row Tag}
    (ok : (read source count start).result = .ok pool) (found : pool.get slot = .ok row)
    (handle : row.table = .methodHandle) :
    ∃ code member, row.byte 0 = .ok code ∧ row.short 1 = .ok member ∧
      (¬(1 ≤ code.toNat ∧ code.toNat ≤ 9) →
        handleTarget row = .error (.invalidReferenceKind code.toNat)) ∧
      ∀ kind : HandleKind, kind.code = code →
        ∃ reference, handleTarget row = .ok reference ∧ pool.Leads kind member.toNat reference := by
  have kinded : KindedRow row := of_get ok (lists_of_read ok) found
  have shape := kinded.shape?_eq
  rw [handle] at shape
  obtain ⟨code, first⟩ := Row.exists_byte (shape 0)
  obtain ⟨member, second⟩ := Row.exists_short (shape 1)
  have target : handleTarget row = do
      return ⟨(← HandleKind.ofCode code).target?, member.toNat⟩ := by
    rw [handleTarget, handleKind_eq first, second]
    rfl
  refine ⟨code, member, first, second, fun unknown => ?_, ?_⟩
  · rw [target, HandleKind.ofCode_eq_error unknown]
    rfl
  · rintro kind rfl
    refine ⟨_, ?_, (slotted_of_read ok).leads kind member.toNat⟩
    rw [target, HandleKind.ofCode_code]
    rfl

/-- A string, and a handle for static invocations that points at it. -/
def strayHandle : Source := ⟨(encodeAll [.utf8 "", .methodHandle 6 1]).toArray⟩

theorem exists_read_strayHandle :
    ∃ pool row, (read strayHandle 3 0).result = .ok pool ∧ pool.get 2 = .ok row ∧
      row.table = .methodHandle ∧ handleKind row = .ok .invokeStatic ∧
      handleTarget row = .ok (.untyped 1) ∧
      ∃ target, pool.get 1 = .ok target ∧ target.table = .utf8 := by
  have answers : (do
      let pool ← (read strayHandle 3 0).result.toOption
      let row ← (pool.get 2).toOption
      let kind ← (handleKind row).toOption
      let reference ← (handleTarget row).toOption
      let target ← (pool.get 1).toOption
      return (row.table, kind, reference, target.table)) =
        some (.methodHandle, .invokeStatic, .untyped 1, .utf8) := by decide +kernel
  simp only [Option.bind_eq_bind, Option.bind_eq_some_iff, Except.toOption_eq_some] at answers
  obtain ⟨pool, ok, row, found, kind, named, reference, leads, target, there, same⟩ := answers
  obtain ⟨handle, rfl, rfl, string⟩ : row.table = .methodHandle ∧ kind = .invokeStatic ∧
      reference = .untyped 1 ∧ target.table = .utf8 := by simpa using same
  exact ⟨pool, row, ok, found, handle, named, leads, target, there, string⟩

theorem leads_of_read_strayHandle :
    ∃ pool row, (read strayHandle 3 0).result = .ok pool ∧ pool.get 2 = .ok row ∧
      row.table = .methodHandle ∧
      ∃ code member, row.byte 0 = .ok code ∧ row.short 1 = .ok member ∧
        (¬(1 ≤ code.toNat ∧ code.toNat ≤ 9) →
          handleTarget row = .error (.invalidReferenceKind code.toNat)) ∧
        ∀ kind : HandleKind, kind.code = code →
          ∃ reference, handleTarget row = .ok reference ∧
            pool.Leads kind member.toNat reference := by
  obtain ⟨pool, row, ok, found, handle, -⟩ := exists_read_strayHandle
  exact ⟨pool, row, ok, found, handle, leads_of_read ok found handle⟩

/-- A handle can lead to a constant that its kind does not allow. -/
theorem exists_leads_astray :
    ∃ pool row reference target, (read strayHandle 3 0).result = .ok pool ∧
      pool.get 2 = .ok row ∧ row.table = .methodHandle ∧ handleKind row = .ok .invokeStatic ∧
      handleTarget row = .ok reference ∧ pool.resolve reference = .ok target ∧
      target.table ∉ HandleKind.invokeStatic.allowed := by
  obtain ⟨pool, row, ok, found, handle, kind, leads, target, there, string⟩ :=
    exists_read_strayHandle
  refine ⟨pool, row, _, target, ok, found, handle, kind, leads, there, ?_⟩
  rw [string]
  decide

end Pool

end ClassFormat.Constant
