import Oxana.EnvelopeCore

/-!
The keys of the instances of a dynamic queue, from `queue.rs` and the derive macro: what a
key keeps of the fields it is made of.
-/

namespace Oxana

/-! The key. -/

mutual

def valueToQueueKey : Json → String
  | .null => ""
  | .string text => text
  | .number text => text
  | .bool value => toString value
  | .array items => ":".intercalate (itemKeys items)
  | .object fields => ":".intercalate (fieldKeys fields)

def itemKeys : List Json → List String
  | [] => []
  | item :: rest => valueToQueueKey item :: itemKeys rest

def fieldKeys : List (String × Json) → List String
  | [] => []
  | field :: rest => namedKey field :: fieldKeys rest

def namedKey : String × Json → String
  | (name, value) => name ++ "=" ++ valueToQueueKey value

end

theorem itemKeys_eq (items : List Json) : itemKeys items = items.map valueToQueueKey := by
  induction items with
  | nil => rfl
  | cons item rest ih => rw [itemKeys, ih, List.map_cons]

theorem fieldKeys_eq (fields : List (String × Json)) : fieldKeys fields = fields.map namedKey := by
  induction fields with
  | nil => rfl
  | cons field rest ih => rw [fieldKeys, ih, List.map_cons]

theorem valueToQueueKey_array (items : List Json) :
    valueToQueueKey (.array items) = ":".intercalate (items.map valueToQueueKey) := by
  rw [valueToQueueKey, itemKeys_eq]

theorem valueToQueueKey_object (fields : List (String × Json)) :
    valueToQueueKey (.object fields) = ":".intercalate (fields.map namedKey) := by
  rw [valueToQueueKey, fieldKeys_eq]

theorem valueToQueueKey_field (field : String × Json) :
    valueToQueueKey (.object [field]) = namedKey field := by
  rw [valueToQueueKey_object]
  exact String.intercalate_singleton

/-! The instances of a queue. -/

inductive QueueShape
  | named (names : List String)
  | positional (count : Nat)

def QueueShape.size : QueueShape → Nat
  | named names => names.length
  | positional count => count

/-- The value is one a struct of this shape is serialized to. -/
def QueueShape.Serializes : QueueShape → Json → Prop
  | named names, .object fields => fields.map Prod.fst = names
  | positional count, .array items => items.length = count
  | _, _ => False

/-! What a key does not tell apart. -/

inductive SameKey : Json → Json → Prop
  | refl (value) : SameKey value value
  | symm {first second} : SameKey first second → SameKey second first
  | trans {first second third} : SameKey first second → SameKey second third →
      SameKey first third
  | null : SameKey .null (.string "")
  | bool (value) : SameKey (.bool value) (.string (toString value))
  | number (text) : SameKey (.number text) (.string text)
  | noItems : SameKey (.array []) (.string "")
  | oneItem (value) : SameKey (.array [value]) value
  | colon (front back) :
      SameKey (.string (front ++ ":" ++ back)) (.array [.string front, .string back])
  | nested (front inner back) : inner ≠ [] →
      SameKey (.array (front ++ .array inner :: back)) (.array (front ++ inner ++ back))
  | fields (fields) : SameKey (.object fields) (.array (fields.map fun field => .object [field]))
  | field (name text) : SameKey (.object [(name, .string text)]) (.string (name ++ "=" ++ text))
  | item {first second} (front back) : SameKey first second →
      SameKey (.array (front ++ first :: back)) (.array (front ++ second :: back))
  | value {first second} (name) : SameKey first second →
      SameKey (.object [(name, first)]) (.object [(name, second)])

theorem intercalate_replaced {inner : List String} (nonempty : inner ≠ [])
    (front back : List String) :
    ":".intercalate (front ++ ":".intercalate inner :: back) =
      ":".intercalate (front ++ inner ++ back) := by
  have tail : ":".intercalate (":".intercalate inner :: back) =
      ":".intercalate (inner ++ back) := by
    cases back with
    | nil => rw [String.intercalate_singleton, List.append_nil]
    | cons item rest =>
        rw [String.intercalate_cons_cons,
          String.intercalate_append_of_ne_nil nonempty (List.cons_ne_nil _ _)]
  cases front with
  | nil => exact tail
  | cons item rest =>
      have left : ":".intercalate inner :: back ≠ [] := List.cons_ne_nil _ _
      have right : inner ++ back ≠ [] := fun empty => nonempty (List.append_eq_nil_iff.mp empty).1
      rw [List.append_assoc, String.intercalate_append_of_ne_nil (List.cons_ne_nil _ _) left,
        String.intercalate_append_of_ne_nil (List.cons_ne_nil _ _) right, tail]

theorem SameKey.sound {first second : Json} (same : SameKey first second) :
    valueToQueueKey first = valueToQueueKey second := by
  induction same with
  | refl value => rfl
  | symm _ ih => exact ih.symm
  | trans _ _ one two => exact one.trans two
  | null => rfl
  | bool value => rfl
  | number text => rfl
  | noItems => rfl
  | oneItem value =>
      rw [valueToQueueKey_array]
      exact String.intercalate_singleton
  | colon front back =>
      rw [valueToQueueKey_array, List.map_cons, List.map_cons, List.map_nil,
        String.intercalate_cons_cons, String.intercalate_singleton]
      rfl
  | nested front inner back nonempty =>
      have mapped : inner.map valueToQueueKey ≠ [] := fun empty =>
        nonempty (List.map_eq_nil_iff.mp empty)
      rw [valueToQueueKey_array, valueToQueueKey_array, List.map_append, List.map_cons,
        valueToQueueKey_array, intercalate_replaced mapped, List.map_append, List.map_append]
  | fields fields =>
      rw [valueToQueueKey_array, valueToQueueKey_object, List.map_map]
      exact congrArg _ (List.map_congr_left fun field _ => (valueToQueueKey_field field).symm)
  | field name text =>
      rw [valueToQueueKey_field]
      rfl
  | item front back _ ih =>
      rw [valueToQueueKey_array, valueToQueueKey_array, List.map_append, List.map_append,
        List.map_cons, List.map_cons, ih]
  | value name _ ih =>
      rw [valueToQueueKey_field, valueToQueueKey_field]
      simp only [namedKey, ih]

theorem sameKey_array {items : List Json}
    (each : ∀ item ∈ items, SameKey item (.string (valueToQueueKey item))) :
    SameKey (.array items) (.string (valueToQueueKey (.array items))) := by
  induction items with
  | nil => exact .noItems
  | cons item rest ih =>
      have own := each item List.mem_cons_self
      have later := ih fun other member => each other (List.mem_cons_of_mem _ member)
      cases rest with
      | nil =>
          have key : valueToQueueKey (.array [item]) = valueToQueueKey item :=
            (SameKey.oneItem item).sound
          rw [key]
          exact (SameKey.oneItem item).trans own
      | cons next rest =>
          have key : valueToQueueKey (.array (item :: next :: rest)) =
              valueToQueueKey item ++ ":" ++ valueToQueueKey (.array (next :: rest)) := by
            rw [valueToQueueKey_array, valueToQueueKey_array]
            exact String.intercalate_cons_cons
          rw [key]
          have split : SameKey (.array (item :: next :: rest))
              (.array [item, .array (next :: rest)]) := by
            have merged := SameKey.nested [item] (next :: rest) [] (List.cons_ne_nil _ _)
            rw [List.append_nil] at merged
            exact merged.symm
          have head : SameKey (.array [item, .array (next :: rest)])
              (.array [.string (valueToQueueKey item), .array (next :: rest)]) :=
            .item [] [.array (next :: rest)] own
          have tail : SameKey (.array [.string (valueToQueueKey item), .array (next :: rest)])
              (.array [.string (valueToQueueKey item),
                .string (valueToQueueKey (.array (next :: rest)))]) :=
            .item [.string (valueToQueueKey item)] [] later
          exact ((split.trans head).trans tail).trans (SameKey.colon _ _).symm

theorem sameKey_object {fields : List (String × Json)}
    (each : ∀ field ∈ fields, SameKey field.2 (.string (valueToQueueKey field.2))) :
    SameKey (.object fields) (.string (valueToQueueKey (.object fields))) := by
  have apart := SameKey.fields fields
  rw [apart.sound]
  refine apart.trans (sameKey_array ?_)
  intro item member
  obtain ⟨⟨name, value⟩, inside, rfl⟩ := List.mem_map.mp member
  rw [valueToQueueKey_field]
  exact (SameKey.value name (each (name, value) inside)).trans (.field name _)

mutual

theorem sameKey_string : (value : Json) → SameKey value (.string (valueToQueueKey value))
  | .null => .null
  | .bool value => .bool value
  | .number text => .number text
  | .string text => .refl (.string text)
  | .array items => sameKey_array (sameKey_items items)
  | .object fields => sameKey_object (sameKey_fields fields)

theorem sameKey_items : (items : List Json) →
    ∀ item ∈ items, SameKey item (.string (valueToQueueKey item))
  | [] => List.forall_mem_nil _
  | item :: rest => List.forall_mem_cons.mpr ⟨sameKey_string item, sameKey_items rest⟩

theorem sameKey_fields : (fields : List (String × Json)) →
    ∀ field ∈ fields, SameKey field.2 (.string (valueToQueueKey field.2))
  | [] => List.forall_mem_nil _
  | (_, value) :: rest => List.forall_mem_cons.mpr ⟨sameKey_string value, sameKey_fields rest⟩

end

/-- Two values have the same key exactly when the rules make them the same. -/
theorem valueToQueueKey_eq_iff (first second : Json) :
    valueToQueueKey first = valueToQueueKey second ↔ SameKey first second := by
  constructor
  · intro same
    have texts : SameKey (.string (valueToQueueKey first)) second := by
      rw [same]
      exact (sameKey_string second).symm
    exact (sameKey_string first).trans texts
  · exact SameKey.sound

/-! Every instance with a field shares its key with another one. -/

theorem array_singleton_ne (value : Json) : .array [value] ≠ value := by
  intro same
  have sizes := congrArg sizeOf same
  simp only [Json.array.sizeOf_spec, List.cons.sizeOf_spec, List.nil.sizeOf_spec] at sizes
  omega

theorem QueueShape.exists_sameKey {shape : QueueShape} (fields : shape.size ≠ 0) {value : Json}
    (own : shape.Serializes value) :
    ∃ other, shape.Serializes other ∧ SameKey value other ∧ value ≠ other := by
  match shape, value with
  | .positional _, .array [] => exact absurd own.symm fields
  | .positional _, .array (item :: rest) =>
      refine ⟨.array (.array [item] :: rest), own,
        (SameKey.item [] rest (.oneItem item)).symm, ?_⟩
      intro same
      exact array_singleton_ne item (List.cons.inj (Json.array.inj same)).1.symm
  | .named _, .object [] =>
      subst own
      exact absurd rfl fields
  | .named _, .object ((name, value) :: rest) =>
      refine ⟨.object ((name, .array [value]) :: rest), own, ?_, ?_⟩
      · -- Only the first field differs, and it is the first item of the array of the fields.
        have wrapped : SameKey (.object [(name, value)]) (.object [(name, .array [value])]) :=
          .value name (SameKey.oneItem value).symm
        exact ((SameKey.fields ((name, value) :: rest)).trans
          (SameKey.item [] (rest.map fun field => .object [field]) wrapped)).trans
            (SameKey.fields ((name, .array [value]) :: rest)).symm
      · intro same
        have heads := (List.cons.inj (Json.object.inj same)).1
        exact array_singleton_ne value (Prod.mk.inj heads).2.symm

theorem QueueShape.eq_of_no_fields {shape : QueueShape} (none : shape.size = 0)
    {first second : Json} (one : shape.Serializes first) (two : shape.Serializes second) :
    first = second := by
  match shape, first, second with
  | .named names, .object left, .object right =>
      have empty : names = [] := List.eq_nil_of_length_eq_zero none
      subst empty
      rw [List.map_eq_nil_iff.mp one, List.map_eq_nil_iff.mp two]
  | .positional count, .array left, .array right =>
      have empty : count = 0 := none
      subst empty
      rw [List.eq_nil_of_length_eq_zero one, List.eq_nil_of_length_eq_zero two]

/-- The keys of the instances of a type tell them apart only if it has no fields, and those
of two values do unless the rules make the values the same. -/
theorem queue_key_identifies_iff (shape : QueueShape) (one two : Json) :
    ((∀ first second, shape.Serializes first → shape.Serializes second →
      valueToQueueKey first = valueToQueueKey second → first = second) ↔ shape.size = 0) ∧
    ((valueToQueueKey one = valueToQueueKey two → one = two) ↔
      (one = two ∨ ¬ SameKey one two)) := by
  constructor
  · constructor
    · intro apart
      by_contra fields
      have inhabited : ∃ value, shape.Serializes value := by
        cases shape with
        | named names =>
            refine ⟨.object (names.map fun name => (name, .null)), ?_⟩
            change (names.map fun name => (name, Json.null)).map Prod.fst = names
            rw [List.map_map]
            exact List.map_id _
        | positional count => exact ⟨.array (List.replicate count .null), List.length_replicate⟩
      obtain ⟨value, own⟩ := inhabited
      obtain ⟨other, others, same, different⟩ := QueueShape.exists_sameKey fields own
      exact different (apart value other own others same.sound)
    · intro none first second left right _
      exact QueueShape.eq_of_no_fields none left right
  · rw [valueToQueueKey_eq_iff]
    constructor
    · intro apart
      by_cases same : SameKey one two
      · exact .inl (apart same)
      · exact .inr same
    · rintro (equal | apart) same
      · exact equal
      · exact absurd same apart

/-! Two tenants of one queue: the text of a field goes on as the next field. -/

def firstTenant : Json := .object [("name", .string "a:plan=b"), ("plan", .string "c")]

def secondTenant : Json := .object [("name", .string "a"), ("plan", .string "b:plan=c")]

theorem tenants_share_a_key :
    ¬ ∀ (shape : QueueShape) (first second : Json), shape.Serializes first →
      shape.Serializes second → valueToQueueKey first = valueToQueueKey second →
        first = second := by
  intro claimed
  have same := claimed (.named ["name", "plan"]) firstTenant secondTenant rfl rfl (by decide)
  have heads := (List.cons.inj (Json.object.inj same)).1
  have texts := Json.string.inj (Prod.mk.inj heads).2
  exact absurd texts (by decide)

end Oxana
