import ClassFormat.Proofs.Attribute.Codec
import ClassFormat.Proofs.Bytes.Source

/-!
# The written form of trees is unambiguous

Bytes are the written form of one list of trees only, if it is known how many
trees there are and what the names in the slots are. Counts and lengths stand in
front of what they measure; only a field for all bytes has no length of its own,
and nothing may follow it.
-/
namespace ClassFormat

theorem BigEndian.digits_append_inj {width m n : Nat} {first second : List UInt8}
    (hm : m < 256 ^ width) (hn : n < 256 ^ width)
    (same : digits width m ++ first = digits width n ++ second) : m = n ∧ first = second := by
  obtain ⟨digits, rest⟩ :=
    List.append_inj same ((length_digits width m).trans (length_digits width n).symm)
  refine ⟨?_, rest⟩
  rw [← value_digits_of_lt hm, digits, value_digits_of_lt hn]

theorem UInt16.digits_append_inj {m n : UInt16} {first second : List UInt8}
    (same : BigEndian.digits 2 m.toNat ++ first = BigEndian.digits 2 n.toNat ++ second) :
    m = n ∧ first = second := by
  obtain ⟨numbers, rest⟩ := BigEndian.digits_append_inj m.toNat_lt n.toNat_lt same
  exact ⟨UInt16.toNat_inj.mp numbers, rest⟩

namespace Attribute

open BigEndian

variable {named : Nat → String → Prop} {behind behind' : List UInt8}

theorem shorts_append_inj {numbers others : List UInt16} (len : numbers.length = others.length)
    (same : (numbers.flatMap fun n => digits 2 n.toNat) ++ behind =
      (others.flatMap fun n => digits 2 n.toNat) ++ behind') :
    numbers = others ∧ behind = behind' := by
  induction numbers generalizing others with
  | nil =>
      cases others with
      | nil => exact ⟨rfl, same⟩
      | cons => cases len
  | cons n numbers ih =>
      cases others with
      | nil => cases len
      | cons m others =>
          simp only [List.flatMap_cons, List.append_assoc] at same
          obtain ⟨rfl, tail⟩ := UInt16.digits_append_inj same
          obtain ⟨rfl, rest⟩ := ih (Nat.succ.inj len) tail
          exact ⟨rfl, rest⟩

/-- Fields of one type are told from their bytes. -/
theorem Plain.encode_append_inj {field other : Plain} (types : field.type = other.type)
    (fits : field.Fits) (fits' : other.Fits)
    (last : field.type = .raw → behind = [] ∧ behind' = [])
    (same : field.encode ++ behind = other.encode ++ behind') :
    field = other ∧ behind = behind' := by
  cases field <;> cases other <;> cases types <;> simp only [encode, List.append_assoc] at same
  case byte.byte => simpa using same
  case short.short =>
    obtain ⟨rfl, rest⟩ := UInt16.digits_append_inj same
    exact ⟨rfl, rest⟩
  case word.word m n =>
    obtain ⟨numbers, rest⟩ := digits_append_inj m.toNat_lt n.toNat_lt same
    obtain rfl := UInt32.toNat_inj.mp numbers
    exact ⟨rfl, rest⟩
  case bytes.bytes =>
    obtain ⟨len, same⟩ := digits_append_inj fits fits' same
    obtain ⟨rfl, rest⟩ := List.append_inj same len
    exact ⟨rfl, rest⟩
  case shorts.shorts =>
    obtain ⟨len, same⟩ := digits_append_inj fits fits' same
    obtain ⟨rfl, rest⟩ := shorts_append_inj len same
    exact ⟨rfl, rest⟩
  case raw.raw =>
    obtain ⟨rfl, rfl⟩ := last rfl
    simpa using same

theorem Record.encode_append_inj {types : List ColumnType} (structured : .raw ∉ types)
    {record other : Record} (shape : record.map Plain.type = types)
    (shape' : other.map Plain.type = types) (fits : ∀ field ∈ record, field.Fits)
    (fits' : ∀ field ∈ other, field.Fits)
    (same : record.encode ++ behind = other.encode ++ behind') :
    record = other ∧ behind = behind' := by
  induction types generalizing record other with
  | nil =>
      cases List.map_eq_nil_iff.mp shape
      cases List.map_eq_nil_iff.mp shape'
      exact ⟨rfl, same⟩
  | cons type types ih =>
      rw [List.mem_cons, not_or] at structured
      obtain ⟨field, record, rfl, here, types⟩ := List.map_eq_cons_iff.mp shape
      obtain ⟨field', other, rfl, here', types'⟩ := List.map_eq_cons_iff.mp shape'
      obtain ⟨fit, others⟩ := List.forall_mem_cons.mp fits
      obtain ⟨fit', others'⟩ := List.forall_mem_cons.mp fits'
      simp only [encode, List.flatMap_cons, List.append_assoc] at same
      obtain ⟨rfl, tail⟩ := Plain.encode_append_inj (here.trans here'.symm) fit fit'
        (fun raw => (structured.1 (here.symm.trans raw).symm).elim) same
      obtain ⟨rfl, rest⟩ := ih structured.2 types types' others others' tail
      exact ⟨rfl, rest⟩

theorem Record.encodeAll_append_inj {entry : Entry} {records others : List Record}
    (fits : ∀ record ∈ records, record.Fits (fieldsOf entry))
    (fits' : ∀ record ∈ others, record.Fits (fieldsOf entry)) (len : records.length = others.length)
    (same : records.flatMap Record.encode ++ behind = others.flatMap Record.encode ++ behind') :
    records = others ∧ behind = behind' := by
  induction records generalizing others with
  | nil =>
      cases others with
      | nil => exact ⟨rfl, same⟩
      | cons => cases len
  | cons record records ih =>
      cases others with
      | nil => cases len
      | cons other others =>
          obtain ⟨⟨shape, fit⟩, all⟩ := List.forall_mem_cons.mp fits
          obtain ⟨⟨shape', fit'⟩, all'⟩ := List.forall_mem_cons.mp fits'
          have count := Nat.succ.inj len
          simp only [List.flatMap_cons, List.append_assoc] at same
          obtain ⟨rfl, tail⟩ :=
            encode_append_inj (raw_notMem_fieldsOf entry) shape shape' fit fit' same
          obtain ⟨rfl, rest⟩ := ih all all' count tail
          exact ⟨rfl, rest⟩

theorem Tree.Fits.length_payload {tree : Tree} (fits : tree.Fits named) :
    tree.payload.length < 2 ^ 32 := by
  cases tree
  exact fits.2.2.1

/-- No slot has two names. -/
abbrev Functional (named : Nat → String → Prop) : Prop :=
  ∀ slot name name', named slot name → named slot name' → name = name'

mutual

theorem Field.encode_append_inj (one : Functional named) :
    ∀ {field other : Field} {behind behind' : List UInt8}, field.type = other.type →
      field.Fits named → other.Fits named → (field.type = .raw → behind = [] ∧ behind' = []) →
      field.encode ++ behind = other.encode ++ behind' → field = other ∧ behind = behind'
  | .plain _, .plain _, _, _, types, fits, fits', last, same => by
      obtain ⟨rfl, rest⟩ := Plain.encode_append_inj types fits fits' last same
      exact ⟨rfl, rest⟩
  | .entries _ _, .entries _ _, _, _, types, fits, fits', _, same => by
      cases types
      simp only [Field.encode, List.append_assoc] at same
      obtain ⟨len, same⟩ := digits_append_inj fits.1 fits'.1 same
      obtain ⟨rfl, rest⟩ := Record.encodeAll_append_inj fits.2 fits'.2 len same
      exact ⟨rfl, rest⟩
  | .attributes _, .attributes _, _, _, _, fits, fits', _, same => by
      simp only [Field.encode, List.append_assoc] at same
      obtain ⟨len, same⟩ := digits_append_inj fits.1 fits'.1 same
      obtain ⟨rfl, rest⟩ := encodeTrees_append_inj one fits.2 fits'.2 len same
      exact ⟨rfl, rest⟩
  | .plain field, .entries entry _, _, _, types, _, _, _, _ => (field.type_ne.2 entry types).elim
  | .plain field, .attributes _, _, _, types, _, _, _, _ => (field.type_ne.1 types).elim
  | .entries entry _, .plain field, _, _, types, _, _, _, _ =>
      (field.type_ne.2 entry types.symm).elim
  | .attributes _, .plain field, _, _, types, _, _, _, _ => (field.type_ne.1 types.symm).elim
  | .entries _ _, .attributes _, _, _, types, _, _, _, _ => nomatch types
  | .attributes _, .entries _ _, _, _, types, _, _, _, _ => nomatch types

theorem encodeFields_append_inj (one : Functional named) :
    ∀ {fields others : List Field} {types : List ColumnType} {behind behind' : List UInt8},
      FieldsFit named fields types → FieldsFit named others types → .raw ∉ types.dropLast →
      (.raw ∈ types → behind = [] ∧ behind' = []) →
      encodeFields fields ++ behind = encodeFields others ++ behind' →
        fields = others ∧ behind = behind'
  | [], [], _, _, _, _, _, _, _, same => ⟨rfl, same⟩
  | field :: fields, other :: others, type :: types, behind, behind', ⟨here, fit, fits⟩,
      ⟨here', fit', fits'⟩, rawLast, last, same => by
      simp only [encodeFields, List.append_assoc] at same
      have later : .raw ∉ types.dropLast := by
        intro h
        cases types with
        | nil => cases h
        | cons => exact rawLast (List.mem_cons_of_mem _ h)
      -- A field for all bytes is the last one, so there is nothing behind it.
      have ends (raw : field.type = .raw) :
          encodeFields fields ++ behind = [] ∧ encodeFields others ++ behind' = [] := by
        cases types with
        | cons => exact (rawLast (by simp [← here, raw])).elim
        | nil =>
            obtain ⟨rfl, rfl⟩ := last (by simp [← here, raw])
            cases fields with
            | cons => exact fits.elim
            | nil =>
                cases others with
                | cons => exact fits'.elim
                | nil => exact ⟨rfl, rfl⟩
      obtain ⟨rfl, tail⟩ := Field.encode_append_inj one (here.trans here'.symm) fit fit' ends same
      obtain ⟨rfl, rest⟩ := encodeFields_append_inj one fits fits' later
        (fun raw => last (List.mem_cons_of_mem _ raw)) tail
      exact ⟨rfl, rest⟩
  | [], _ :: _, [], _, _, _, fits', _, _, _ => fits'.elim
  | [], _ :: _, _ :: _, _, _, fits, _, _, _, _ => fits.elim
  | _ :: _, [], [], _, _, fits, _, _, _, _ => fits.elim
  | _ :: _, [], _ :: _, _, _, _, fits', _, _, _ => fits'.elim
  | _ :: _, _ :: _, [], _, _, fits, _, _, _, _ => fits.elim

theorem Tree.payload_inj (one : Functional named) : ∀ {tree other : Tree},
    tree.nameIndex = other.nameIndex → tree.Fits named → other.Fits named →
      tree.payload = other.payload → tree = other
  | .node _ name _ unread, .node _ name' _ unread', index, ⟨known, fits, _, ending⟩,
      ⟨known', fits', _, ending'⟩, same => by
      cases index
      cases one _ _ _ known known'
      obtain ⟨rfl, rfl⟩ := encodeFields_append_inj one fits fits' (raw_notMem_dropLast name)
        (fun raw => ⟨ending raw, ending' raw⟩) same
      rfl

/-- The bytes in front of others are told to be the trees that they are. -/
theorem encodeTrees_append_inj (one : Functional named) :
    ∀ {trees others : List Tree} {behind behind' : List UInt8}, TreesFit named trees →
      TreesFit named others → trees.length = others.length →
      encodeTrees trees ++ behind = encodeTrees others ++ behind' →
        trees = others ∧ behind = behind'
  | [], [], _, _, _, _, _, same => ⟨rfl, same⟩
  | tree :: trees, other :: others, _, _, ⟨fit, fits⟩, ⟨fit', fits'⟩, len, same => by
      have count := Nat.succ.inj len
      simp only [encodeTrees, List.append_assoc] at same
      obtain ⟨index, sized⟩ := UInt16.digits_append_inj same
      obtain ⟨size, content⟩ := digits_append_inj fit.length_payload fit'.length_payload sized
      obtain ⟨payload, tail⟩ := List.append_inj content size
      obtain rfl := Tree.payload_inj one index fit fit' payload
      obtain ⟨rfl, rest⟩ := encodeTrees_append_inj one fits fits' count tail
      exact ⟨rfl, rest⟩
  | [], _ :: _, _, _, _, _, len, _ => nomatch len
  | _ :: _, [], _, _, _, _, len, _ => nomatch len

end

theorem functional_named (constants : Constant.Pool) : Functional (Named constants) := by
  intro slot name name' known known'
  exact Except.ok.inj (known.symm.trans known')

/-- At an offset of a source there are no other trees than these. -/
theorem trees_unique {source : Source} {constants : Constant.Pool} {trees others : List Tree}
    (fits : TreesFit (Named constants) trees) (fits' : TreesFit (Named constants) others)
    (len : trees.length = others.length) {offset : Nat}
    (holds : source.Holds offset (encodeTrees trees))
    (holds' : source.Holds offset (encodeTrees others)) : trees = others := by
  obtain ⟨behind, whole⟩ := holds
  obtain ⟨behind', whole'⟩ := holds'
  have same := whole.trans whole'.symm
  exact (encodeTrees_append_inj (functional_named constants) fits fits' len same).1

end Attribute

end ClassFormat
