import ClassFormat.Constant.View
import ClassFormat.Proofs.Constant.Prefix
import ClassFormat.Proofs.Constant.RoundTrip

/-!
# Constants and their accessors

The written form of constants is read wherever it stands. Each constant is then
found under the slot that the widths of those in front of it add up to, and the
accessors of its kind give back what was written.
-/
namespace ClassFormat.Constant

open BigEndian

theorem toNat_joinWords (high low : UInt32) :
    (joinWords high low).toNat = high.toNat * 2 ^ 32 + low.toNat := by
  have bound := high.toNat_lt
  have fits : high.toNat * 2 ^ 32 < 2 ^ 64 := by omega
  rw [joinWords, UInt64.toNat_or, UInt64.toNat_shiftLeft, UInt32.toNat_toUInt64,
    UInt32.toNat_toUInt64, Nat.shiftLeft_eq]
  change high.toNat * 2 ^ 32 % 2 ^ 64 ||| low.toNat = _
  rw [Nat.mod_eq_of_lt fits, ← Nat.shiftLeft_eq, Nat.shiftLeft_add_eq_or_of_lt low.toNat_lt]

theorem joinWords_halves (bits : UInt64) :
    joinWords (bits >>> 32).toUInt32 bits.toUInt32 = bits := by
  have bound := bits.toNat_lt
  have high : (bits >>> 32).toUInt32.toNat = bits.toNat / 2 ^ 32 := by
    rw [UInt64.toNat_toUInt32, UInt64.toNat_shiftRight, Nat.shiftRight_eq_div_pow]
    simp
    omega
  have low : bits.toUInt32.toNat = bits.toNat % 2 ^ 32 := UInt64.toNat_toUInt32 bits
  apply UInt64.toNat_inj.mp
  rw [toNat_joinWords, high, low]
  omega

/-- Whether an accessor reads the cells of the row and nothing else. -/
def Accessor.readsRowOnly : Accessor → Bool
  | .textAt _ => false
  | _ => true

/-- The accessors of a kind that need no other constant. -/
def Tag.rowAccessors (tag : Tag) : List (String × Accessor) :=
  tag.accessors.filter fun accessor => accessor.2.readsRowOnly

/-- What these accessors answer on a constant. A method handle whose kind is not
one of the nine has a member that cannot be named. -/
def Content.properties : Content → List (String × Except TableError Property)
  | utf8 s => [("value", .ok (.text s))]
  | integer bits =>
    [("bytes", .ok (.number bits.toNat)), ("value", .ok (.int32 bits.toInt32))]
  | float bits => [("bytes", .ok (.number bits.toNat)), ("value", .ok (.float32 bits))]
  | long bits =>
    [("high_bytes", .ok (.number (bits >>> 32).toUInt32.toNat)),
     ("low_bytes", .ok (.number bits.toUInt32.toNat)), ("value", .ok (.int64 bits.toInt64))]
  | double bits =>
    [("high_bytes", .ok (.number (bits >>> 32).toUInt32.toNat)),
     ("low_bytes", .ok (.number bits.toUInt32.toNat)), ("value", .ok (.float64 bits))]
  | classInfo index | moduleInfo index | packageInfo index =>
    [("name_index", .ok (.constant (.typed .utf8 index.toNat)))]
  | string index => [("string_index", .ok (.constant (.typed .utf8 index.toNat)))]
  | fieldref first second | methodref first second | interfaceMethodref first second =>
    [("class_index", .ok (.constant (.typed .classInfo first.toNat))),
     ("name_and_type_index", .ok (.constant (.typed .nameAndType second.toNat)))]
  | nameAndType first second =>
    [("name_index", .ok (.constant (.typed .utf8 first.toNat))),
     ("descriptor_index", .ok (.constant (.typed .utf8 second.toNat)))]
  | methodHandle kind member =>
    [("reference_kind", .handleKind <$> HandleKind.ofCode kind),
     ("reference_index",
       (fun found => .constant ⟨found.target?, member.toNat⟩) <$> HandleKind.ofCode kind)]
  | methodType index => [("descriptor_index", .ok (.constant (.typed .utf8 index.toNat)))]
  | dynamic first second | invokeDynamic first second =>
    [("bootstrap_method_attr_index", .ok (.number first.toNat)),
     ("name_and_type_index", .ok (.constant (.typed .nameAndType second.toNat)))]

/-- The row of a constant answers what the constant says, in any pool. -/
theorem view_row (pool : Pool) (content : Content) (slot : Nat) :
    pool.view content.tag.rowAccessors (content.row slot) = content.properties := by
  cases content with
  | long bits =>
      have read : longBits (Content.row (.long bits) slot) = .ok bits :=
        congrArg Except.ok (joinWords_halves bits)
      simp only [Pool.view, Tag.rowAccessors, Tag.accessors, Content.tag, Content.properties,
        List.filter, Accessor.readsRowOnly, List.map, Accessor.read, read]
      rfl
  | double bits =>
      have read : longBits (Content.row (.double bits) slot) = .ok bits :=
        congrArg Except.ok (joinWords_halves bits)
      simp only [Pool.view, Tag.rowAccessors, Tag.accessors, Content.tag, Content.properties,
        List.filter, Accessor.readsRowOnly, List.map, Accessor.read, read]
      rfl
  | methodHandle kind member =>
      have read : handleKind (Content.row (.methodHandle kind member) slot) =
        HandleKind.ofCode kind := rfl
      simp only [Pool.view, Tag.rowAccessors, Tag.accessors, Content.tag, Content.properties,
        List.filter, Accessor.readsRowOnly, List.map, Accessor.read, handleTarget, read]
      cases HandleKind.ofCode kind with
      | ok handle => rfl
      | error e => rfl
  | _ => rfl

theorem map_value_row (content : Content) (slot : Nat) :
    (content.row slot).cells.map Cell.value = content.values := by
  cases content <;> rfl

/-- A constant stands in the slot that the widths of those in front of it lead
to. -/
theorem mem_withSlots (slot : Nat) (content : Content) (earlier later : List Content) :
    (slot + totalWidth earlier, content) ∈ withSlots slot (earlier ++ content :: later) := by
  induction earlier generalizing slot with
  | nil => exact List.mem_cons_self
  | cons first earlier ih =>
      have total : totalWidth (first :: earlier) = first.width + totalWidth earlier := rfl
      rw [total, ← Nat.add_assoc]
      exact List.mem_cons_of_mem _ (ih (slot + first.width))

/-- Constants are read wherever their written form stands, up to its end. The
bytes of the pool are the written form, and every constant is found in its slot,
with its values, and with accessors that give them back. -/
theorem read_between {source : Source} (small : source.size < 2 ^ 32) {contents : List Content}
    (fits : ∀ content ∈ contents, content.Fits) {before after : List UInt8}
    (bytes : source.bytes.toList = before ++ encodeAll contents ++ after) :
    ∃ pool, (Pool.read source (totalWidth contents + 1) before.length).result = .ok pool ∧
      (Pool.read source (totalWidth contents + 1) before.length).offset =
        before.length + (encodeAll contents).length ∧
      pool.data source = .ok (encodeAll contents) ∧
      ∀ earlier content later, contents = earlier ++ content :: later →
        ∃ row, pool.get (1 + totalWidth earlier) = .ok row ∧ row.table = content.tag ∧
          row.index = 1 + totalWidth earlier ∧ row.cells.map Cell.value = content.values ∧
          pool.view content.tag.rowAccessors row = content.properties := by
  have holds := Source.holds_of_eq bytes
  have inside : before.length + (encodeAll contents).length ≤ source.size := by
    have len := congrArg List.length bytes
    rw [source.length_bytes, List.length_append, List.length_append] at len
    omega
  obtain ⟨pool, ok, moved, placed⟩ := read_encodeAll small fits holds
  refine ⟨pool, ok, moved, ?_, fun earlier content later split => ?_⟩
  · rw [Pool.data_of_read ok, moved, Nat.add_sub_cancel_left]
    exact Source.slice_eq_ok.mpr ⟨rfl, inside, holds⟩
  · have place := mem_withSlots 1 content earlier later
    rw [← split] at place
    have found := placed.get_eq_ok.mpr ⟨content, place, rfl⟩
    exact ⟨_, found, rfl, rfl, map_value_row content _, view_row pool content _⟩

/-- A string with a NUL and a supplementary character, numbers of both widths,
and a method handle. -/
def sampleContents : List Content :=
  [.utf8 "a\x00𝄞", .long 0x8000000000000001, .double 0x7FF8000000000001,
    .integer 0xFFFFFFFF, .methodHandle 6 1]

theorem sampleContents_fit : ∀ content ∈ sampleContents, content.Fits := by
  intro content member
  simp only [sampleContents, List.mem_cons, List.not_mem_nil, or_false] at member
  rcases member with rfl | rfl | rfl | rfl | rfl
  · change (ModifiedUtf8.encode "a\x00𝄞").length < 2 ^ 16
    decide
  all_goals trivial

/-- The sample between two other bytes. -/
theorem read_sampleContents :
    ∃ pool,
      (Pool.read ⟨([0xCA] ++ encodeAll sampleContents ++ [0xFE]).toArray⟩ 8 1).result = .ok pool ∧
      (Pool.read ⟨([0xCA] ++ encodeAll sampleContents ++ [0xFE]).toArray⟩ 8 1).offset =
        1 + (encodeAll sampleContents).length ∧
      pool.data ⟨([0xCA] ++ encodeAll sampleContents ++ [0xFE]).toArray⟩ =
        .ok (encodeAll sampleContents) ∧
      ∀ earlier content later, sampleContents = earlier ++ content :: later →
        ∃ row, pool.get (1 + totalWidth earlier) = .ok row ∧ row.table = content.tag ∧
          row.index = 1 + totalWidth earlier ∧ row.cells.map Cell.value = content.values ∧
          pool.view content.tag.rowAccessors row = content.properties := by
  have bytes : ([0xCA] ++ encodeAll sampleContents ++ [0xFE]).toArray.toList =
      [0xCA] ++ encodeAll sampleContents ++ [0xFE] := List.toList_toArray
  have size : Source.size ⟨([0xCA] ++ encodeAll sampleContents ++ [0xFE]).toArray⟩ < 2 ^ 32 := by
    decide
  have width : totalWidth sampleContents = 7 := by decide
  have read := read_between size sampleContents_fit bytes
  rw [width] at read
  exact read

end ClassFormat.Constant
