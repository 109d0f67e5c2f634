import Mathlib
import Oxana.InstanceKeys
import Oxana.JobProgress
import Oxana.KeyedList
import Oxana.RecordFormat

/-!
JSON values as `serde_json` reads them from a text: objects keep the order of their fields and
the last value of a repeated name, and a value may not be nested too deep.
-/

namespace Oxana

namespace Json

/-! Depth. -/

mutual

def depth : Json → Nat
  | .array items => itemsDepth items + 1
  | .object fields => fieldsDepth fields + 1
  | _ => 0

def itemsDepth : List Json → Nat
  | [] => 0
  | item :: rest => max (depth item) (itemsDepth rest)

def fieldsDepth : List (String × Json) → Nat
  | [] => 0
  | field :: rest => max (fieldDepth field) (fieldsDepth rest)

def fieldDepth : String × Json → Nat
  | (_, value) => depth value

end

/-! Values. -/

/-- A name that is there already keeps its place and gets the new value. -/
def insertField (fields : List (String × Json)) (field : String × Json) : List (String × Json) :=
  KeyedList.upsert Prod.fst field.1 field (fun old => (old.1, field.2)) fields

mutual

def asValue : Json → Json
  | .array items => .array (itemsAsValues items)
  | .object fields => .object ((fieldsAsValues fields).foldl insertField [])
  | .null => .null
  | .bool value => .bool value
  | .number text => .number text
  | .string text => .string text

def itemsAsValues : List Json → List Json
  | [] => []
  | item :: rest => asValue item :: itemsAsValues rest

def fieldsAsValues : List (String × Json) → List (String × Json)
  | [] => []
  | field :: rest => fieldAsValue field :: fieldsAsValues rest

def fieldAsValue : String × Json → String × Json
  | (name, value) => (name, asValue value)

end

mutual

def IsValue : Json → Prop
  | .array items => ItemsAre items
  | .object fields => (fields.map Prod.fst).Nodup ∧ FieldsAre fields
  | _ => True

def ItemsAre : List Json → Prop
  | [] => True
  | item :: rest => IsValue item ∧ ItemsAre rest

def FieldsAre : List (String × Json) → Prop
  | [] => True
  | field :: rest => FieldIs field ∧ FieldsAre rest

def FieldIs : String × Json → Prop
  | (_, value) => IsValue value

end

theorem fieldsAre_iff {fields : List (String × Json)} :
    FieldsAre fields ↔ ∀ field ∈ fields, IsValue field.2 := by
  induction fields with
  | nil => exact iff_of_true trivial (List.forall_mem_nil _)
  | cons field rest ih => rw [FieldsAre, ih, List.forall_mem_cons, FieldIs]

theorem fieldsDepth_le_iff {fields : List (String × Json)} {bound : Nat} :
    fieldsDepth fields ≤ bound ↔ ∀ field ∈ fields, depth field.2 ≤ bound := by
  induction fields with
  | nil => exact iff_of_true (Nat.zero_le _) (List.forall_mem_nil _)
  | cons field rest ih => rw [fieldsDepth, max_le_iff, ih, List.forall_mem_cons, fieldDepth]

theorem insertField_fresh {fields : List (String × Json)} {field : String × Json}
    (fresh : field.1 ∉ fields.map Prod.fst) : insertField fields field = fields ++ [field] := by
  induction fields with
  | nil => rfl
  | cons first rest ih =>
      rw [List.map_cons, List.mem_cons, not_or] at fresh
      change (if first.1 = field.1 then _ else first :: insertField rest field) = _
      rw [if_neg (Ne.symm fresh.1), ih fresh.2]
      rfl

theorem nodup_insertField {fields : List (String × Json)} (field : String × Json)
    (distinct : (fields.map Prod.fst).Nodup) : ((insertField fields field).map Prod.fst).Nodup := by
  have keeps : ∀ old : String × Json, (old.1, field.2).1 = old.1 := fun _ => rfl
  exact KeyedList.nodup_upsert rfl keeps distinct

theorem mem_insertField {fields : List (String × Json)} {field : String × Json}
    (distinct : (fields.map Prod.fst).Nodup) {found : String × Json}
    (member : found ∈ insertField fields field) :
    found ∈ fields ∨ found.2 = field.2 := by
  rcases KeyedList.mem_upsert distinct member with ⟨kept, _⟩ | ⟨old, _, _, same⟩ | ⟨_, same⟩
  · exact .inl kept
  · exact .inr (by rw [same])
  · exact .inr (by rw [same])

theorem foldl_insertField_fresh {past fields : List (String × Json)}
    (distinct : ((past ++ fields).map Prod.fst).Nodup) :
    fields.foldl insertField past = past ++ fields := by
  induction fields generalizing past with
  | nil => rw [List.foldl_nil, List.append_nil]
  | cons field rest ih =>
      have fresh : field.1 ∉ past.map Prod.fst := by
        rw [List.map_append, List.map_cons] at distinct
        intro found
        exact (List.nodup_append.mp distinct).2.2 _ found _ List.mem_cons_self rfl
      rw [List.foldl_cons, insertField_fresh fresh, ih (by simpa using distinct),
        List.append_assoc, List.singleton_append]

theorem nodup_foldl_insertField (fields past : List (String × Json))
    (distinct : (past.map Prod.fst).Nodup) :
    ((fields.foldl insertField past).map Prod.fst).Nodup := by
  induction fields generalizing past with
  | nil => exact distinct
  | cons field rest ih => exact ih _ (nodup_insertField field distinct)

theorem forall_foldl_insertField (Holds : Json → Prop) {fields past : List (String × Json)}
    (distinct : (past.map Prod.fst).Nodup) (before : ∀ field ∈ past, Holds field.2)
    (added : ∀ field ∈ fields, Holds field.2) :
    ∀ field ∈ fields.foldl insertField past, Holds field.2 := by
  induction fields generalizing past with
  | nil => exact before
  | cons field rest ih =>
      rw [List.forall_mem_cons] at added
      refine ih (nodup_insertField field distinct) ?_ added.2
      intro found member
      rcases mem_insertField distinct member with old | same
      · exact before found old
      · rw [same]
        exact added.1

mutual

theorem asValue_of_isValue : (value : Json) → IsValue value → asValue value = value
  | .null, _ => rfl
  | .bool _, _ => rfl
  | .number _, _ => rfl
  | .string _, _ => rfl
  | .array items, own => by rw [asValue, itemsAsValues_of_are items own]
  | .object fields, own => by
      have kept : fields.foldl insertField [] = fields := by
        rw [foldl_insertField_fresh (by rw [List.nil_append]; exact own.1), List.nil_append]
      rw [asValue, fieldsAsValues_of_are fields own.2, kept]

theorem itemsAsValues_of_are : (items : List Json) → ItemsAre items → itemsAsValues items = items
  | [], _ => rfl
  | item :: rest, own => by
      rw [itemsAsValues, asValue_of_isValue item own.1, itemsAsValues_of_are rest own.2]

theorem fieldsAsValues_of_are : (fields : List (String × Json)) → FieldsAre fields →
    fieldsAsValues fields = fields
  | [], _ => rfl
  | (name, value) :: rest, own => by
      rw [fieldsAsValues, fieldAsValue, asValue_of_isValue value own.1,
        fieldsAsValues_of_are rest own.2]

end

mutual

theorem isValue_asValue : (value : Json) → IsValue (asValue value)
  | .null => trivial
  | .bool _ => trivial
  | .number _ => trivial
  | .string _ => trivial
  | .array items => itemsAre_asValues items
  | .object fields => by
      have empty : (([] : List (String × Json)).map Prod.fst).Nodup := List.nodup_nil
      rw [asValue]
      refine ⟨nodup_foldl_insertField _ [] empty, fieldsAre_iff.mpr ?_⟩
      exact forall_foldl_insertField IsValue empty (List.forall_mem_nil _)
        (fieldsAre_iff.mp (fieldsAre_asValues fields))

theorem itemsAre_asValues : (items : List Json) → ItemsAre (itemsAsValues items)
  | [] => trivial
  | item :: rest => ⟨isValue_asValue item, itemsAre_asValues rest⟩

theorem fieldsAre_asValues : (fields : List (String × Json)) → FieldsAre (fieldsAsValues fields)
  | [] => trivial
  | (_, value) :: rest => ⟨isValue_asValue value, fieldsAre_asValues rest⟩

end

mutual

theorem depth_asValue_le : (value : Json) → depth (asValue value) ≤ depth value
  | .null => Nat.le_refl _
  | .bool _ => Nat.le_refl _
  | .number _ => Nat.le_refl _
  | .string _ => Nat.le_refl _
  | .array items => Nat.succ_le_succ (itemsDepth_asValues_le items)
  | .object fields => by
      have empty : (([] : List (String × Json)).map Prod.fst).Nodup := List.nodup_nil
      rw [asValue, depth, depth]
      refine Nat.succ_le_succ (fieldsDepth_le_iff.mpr ?_)
      exact forall_foldl_insertField (fun value => depth value ≤ fieldsDepth fields) empty
        (List.forall_mem_nil _) (fieldsDepth_le_iff.mp (fieldsDepth_asValues_le fields))

theorem itemsDepth_asValues_le : (items : List Json) →
    itemsDepth (itemsAsValues items) ≤ itemsDepth items
  | [] => Nat.le_refl _
  | item :: rest => max_le_max (depth_asValue_le item) (itemsDepth_asValues_le rest)

theorem fieldsDepth_asValues_le : (fields : List (String × Json)) →
    fieldsDepth (fieldsAsValues fields) ≤ fieldsDepth fields
  | [] => Nat.le_refl _
  | (_, value) :: rest => max_le_max (depth_asValue_le value) (fieldsDepth_asValues_le rest)

end

def isNull : Json → Bool
  | .null => true
  | _ => false

def view : Json → Record.View Json
  | .object fields => .object fields
  | .array items => .array items
  | _ => .other

end Json

/-! Numbers. -/

theorem numberI64_intText {number : Int} (low : -2 ^ 63 ≤ number) (high : number < 2 ^ 63) :
    numberI64 (toString number) = some number := by
  cases number with
  | ofNat number =>
      exact numberI64_natText (by
        have fits : (number : Int) < 2 ^ 63 := high
        omega)
  | negSucc number =>
      have text : (toString (Int.negSucc number)).toList =
          '-' :: (toString (number + 1)).toList := by
        change ("-" ++ toString (number + 1)).toList = _
        rw [String.toList_append]
        rfl
      have fits : number + 1 ≤ 2 ^ 63 := by omega
      have read : parseUsize (String.ofList (toString (number + 1)).toList) =
          some (number + 1) := by
        rw [String.ofList_toList]
        exact parseUsize_natText (by omega)
      unfold numberI64
      rw [text]
      simp only [read, Option.bind_eq_bind, Option.bind_some, if_pos fits]
      rfl

theorem numberI64_bounds {text : String} {number : Int} (read : numberI64 text = some number) :
    -2 ^ 63 ≤ number ∧ number < 2 ^ 63 := by
  unfold numberI64 at read
  split at read
  · obtain ⟨value, _, read⟩ := Option.bind_eq_some_iff.mp read
    split at read
    · have same := Option.some.inj read
      omega
    · cases read
  · obtain ⟨value, _, read⟩ := Option.bind_eq_some_iff.mp read
    split at read
    · have same := Option.some.inj read
      omega
    · cases read

/-! Formats of single values. -/

open Record

namespace Json

def textFormat : Format Json String where
  write := .string
  read
    | .string text => some text
    | _ => none
  stored text := text
  Fits _ := True
  read_write _ := rfl
  sound _ := ⟨trivial, rfl⟩

def boolFormat : Format Json Bool where
  write := .bool
  read
    | .bool value => some value
    | _ => none
  stored value := value
  Fits _ := True
  read_write _ := rfl
  sound _ := ⟨trivial, rfl⟩

def i64Format : Format Json Int where
  write number := .number (toString number)
  read := asI64
  stored number := number
  Fits number := -2 ^ 63 ≤ number ∧ number < 2 ^ 63
  read_write fits := numberI64_intText fits.1 fits.2
  sound := by
    intro written number known
    refine ⟨?_, rfl⟩
    cases written with
    | number text => exact numberI64_bounds known
    | _ => cases known

def unsignedFormat (limit : Nat) (wide : limit ≤ 2 ^ 64) : Format Json Nat where
  write number := .number (toString number)
  read
    | .number text => (parseUsize text).filter fun number => decide (number < limit)
    | .null | .bool _ | .string _ | .array _ | .object _ => none
  stored number := number
  Fits number := number < limit
  read_write := by
    intro number fits
    change (parseUsize (toString number)).filter _ = some number
    rw [parseUsize_natText (by omega), Option.filter_some, if_pos (decide_eq_true fits)]
  sound := by
    intro written number known
    refine ⟨?_, rfl⟩
    cases written with
    | number text =>
        obtain ⟨_, below⟩ := Option.filter_eq_some_iff.mp known
        exact of_decide_eq_true below
    | _ => cases known

/-- A `serde_json::Value`, nested at most as deep as the reader still goes. -/
def valueFormat (limit : Nat) : Format Json Json where
  write value := value
  read written := if written.depth ≤ limit then some written.asValue else none
  stored value := value
  Fits value := value.IsValue ∧ value.depth ≤ limit
  read_write fits := by rw [if_pos fits.2, asValue_of_isValue _ fits.1]
  sound := by
    intro written value known
    split at known
    · rename_i shallow
      rw [← Option.some.inj known]
      exact ⟨⟨isValue_asValue written, (depth_asValue_le written).trans shallow⟩, rfl⟩
    · cases known

/-- A variant without data: its name, or an object that gives null for its name. -/
def variantFormat {α : Type} (name : α → String) (all : List α)
    (complete : ∀ variant, variant ∈ all)
    (distinct : ∀ one two, name one = name two → one = two) : Format Json α where
  write variant := .string (name variant)
  read
    | .string text => all.find? fun variant => name variant == text
    | .object [(text, .null)] => all.find? fun variant => name variant == text
    | _ => none
  stored variant := variant
  Fits _ := True
  read_write := by
    intro variant _
    change (all.find? fun other => name other == name variant) = some variant
    cases found : all.find? fun other => name other == name variant with
    | none =>
        have missed := List.find?_eq_none.mp found variant (complete variant)
        exact absurd (beq_self_eq_true _) missed
    | some other =>
        have same := (List.find?_eq_some_iff_append.mp found).1
        rw [distinct other variant (beq_iff_eq.mp same)]
  sound _ := ⟨trivial, rfl⟩

theorem isNull_asValue {value : Json} (other : value.isNull = false) :
    value.asValue.isNull = false := by
  cases value with
  | null => exact other
  | _ => rfl

end Json

end Oxana
