import Mathlib.Data.List.Nodup
import Mathlib.Data.List.Perm.Basic

/-!
Records written as objects with named fields and read back by name: what a reader that skips
unknown names makes of an object or of an array, over any type of values.
-/

namespace Record

variable {V α β : Type}

/-- A way to write values and to read them back.  `stored` is what is left of a value that is
written and read, for the values that fit. -/
structure Format (V α : Type) where
  write : α → V
  read : V → Option α
  stored : α → α
  Fits : α → Prop
  read_write : ∀ {value}, Fits value → read (write value) = some (stored value)
  sound : ∀ {written value}, read written = some value → Fits value ∧ stored value = value

def Format.mapped (format : Format V α) (present : α → β) (back : β → α)
    (back_present : ∀ value, back (present value) = value) : Format V β where
  write value := format.write (back value)
  read written := (format.read written).map present
  stored value := present (format.stored (back value))
  Fits value := format.Fits (back value)
  read_write fits := by rw [format.read_write fits, Option.map_some]
  sound := by
    intro written value known
    obtain ⟨found, read, rfl⟩ := Option.map_eq_some_iff.mp known
    obtain ⟨fits, same⟩ := format.sound read
    rw [back_present]
    exact ⟨fits, by rw [same]⟩

/-! A field of a record. -/

/-- `absent` is what an object without the name gives, `short` what an array that ends before
the field gives. -/
structure Field (V α : Type) where
  name : String
  write : α → Option V
  read : V → Option α
  absent : Option α
  short : Option α
  stored : α → α
  Fits : α → Prop
  read_write : ∀ {value written}, Fits value → write value = some written →
    read written = some (stored value)
  absent_write : ∀ {value}, Fits value → write value = none → absent = some (stored value)
  sound : ∀ {written value}, read written = some value → Fits value ∧ stored value = value
  absent_sound : ∀ {value}, absent = some value → Fits value ∧ stored value = value
  short_sound : ∀ {value}, short = some value → Fits value ∧ stored value = value

namespace Field

def required (name : String) (format : Format V α) : Field V α where
  name := name
  write value := some (format.write value)
  read := format.read
  absent := none
  short := none
  stored := format.stored
  Fits := format.Fits
  read_write fits written := by
    rw [← Option.some.inj written]
    exact format.read_write fits
  absent_write _ impossible := nomatch impossible
  sound := format.sound
  absent_sound impossible := nomatch impossible
  short_sound impossible := nomatch impossible

def defaulted (name : String) (format : Format V α) (default : α) (fits : format.Fits default)
    (same : format.stored default = default) : Field V α :=
  { required name format with
    absent := some default
    short := some default
    absent_write := fun _ impossible => nomatch impossible
    absent_sound := fun known => by
      rw [← Option.some.inj known]
      exact ⟨fits, same⟩
    short_sound := fun known => by
      rw [← Option.some.inj known]
      exact ⟨fits, same⟩ }

/-- A field that is left out when there is no value; a null stands for no value as well. -/
def optional (isNull : V → Bool) (name : String) (format : Format V α)
    (plain : ∀ {written value}, isNull written = false → format.read written = some value →
      isNull (format.write value) = false) : Field V (Option α) where
  name := name
  write value? := value?.map format.write
  read written := if isNull written then some none else (format.read written).map some
  absent := some none
  short := none
  stored value? := value?.bind fun value =>
    if isNull (format.write value) then none else some (format.stored value)
  Fits value? := ∀ value, value? = some value → format.Fits value
  read_write := by
    intro value? written fits wrote
    obtain ⟨value, rfl, rfl⟩ := Option.map_eq_some_iff.mp wrote
    by_cases null : isNull (format.write value) = true
    · simp [null]
    · simp [null, format.read_write (fits value rfl)]
  absent_write := by
    intro value? _ skipped
    rw [Option.map_eq_none_iff.mp skipped]
    rfl
  sound := by
    intro written value? known
    by_cases null : isNull written = true
    · rw [if_pos null] at known
      rw [← Option.some.inj known]
      exact ⟨fun value impossible => (nomatch impossible), rfl⟩
    · rw [if_neg null] at known
      obtain ⟨value, read, rfl⟩ := Option.map_eq_some_iff.mp known
      obtain ⟨fits, same⟩ := format.sound read
      have kept := plain (Bool.not_eq_true _ ▸ null) read
      refine ⟨fun other found => by rwa [← Option.some.inj found], ?_⟩
      simp [kept, same]
  absent_sound := by
    intro value? known
    rw [← Option.some.inj known]
    exact ⟨fun value impossible => (nomatch impossible), rfl⟩
  short_sound impossible := nomatch impossible

def orShort (field : Field V α) : Field V α :=
  { field with
    short := field.absent
    short_sound := field.absent_sound }

def value (field : Field V α) (named : Bool) : Option V → Option α
  | some written => field.read written
  | none => if named then field.absent else field.short

theorem value_write (field : Field V α) {value : α} (fits : field.Fits value) :
    field.value true (field.write value) = some (field.stored value) := by
  cases wrote : field.write value with
  | none => exact field.absent_write fits wrote
  | some written => exact field.read_write fits wrote

theorem value_sound (field : Field V α) {named : Bool} {found : Option V} {value : α}
    (known : field.value named found = some value) :
    field.Fits value ∧ field.stored value = value := by
  match found, named with
  | some written, _ => exact field.sound known
  | none, true => exact field.absent_sound known
  | none, false => exact field.short_sound known

end Field

/-! The fields of a record, in the order they are declared. -/

structure Slots (V : Type) where
  named : Bool
  get : String → Option V

structure Fields (V α : Type) where
  names : List String
  entries : α → List (String × Option V)
  value : Slots V → Option α
  stored : α → α
  Fits : α → Prop
  Same : String → Option V → Option V → Prop
  names_entries : ∀ record, (entries record).map Prod.fst = names
  value_entries : ∀ {record slots}, Fits record → slots.named = true →
    (∀ entry ∈ entries record, slots.get entry.1 = entry.2) → value slots = some (stored record)
  sound : ∀ {slots record}, value slots = some record → Fits record ∧ stored record = record
  value_same : ∀ {one two : Slots V}, one.named = true → two.named = true →
    (∀ name ∈ names, Same name (one.get name) (two.get name)) → value one = value two
  same_refl : ∀ name found, Same name found found
  same_of_notMem : ∀ {name} (one two), name ∉ names → Same name one two

namespace Fields

def last (field : Field V α) : Fields V α where
  names := [field.name]
  entries value := [(field.name, field.write value)]
  value slots := field.value slots.named (slots.get field.name)
  stored := field.stored
  Fits := field.Fits
  Same name one two := field.name = name → field.value true one = field.value true two
  names_entries _ := rfl
  value_entries := by
    intro record slots fits named held
    have found : slots.get field.name = field.write record := held _ List.mem_cons_self
    rw [found, named]
    exact field.value_write fits
  sound := field.value_sound
  value_same := by
    intro one two first second same
    rw [first, second]
    exact same field.name List.mem_cons_self rfl
  same_refl _ _ _ := rfl
  same_of_notMem _ _ absent here := absurd (List.mem_singleton.mpr here.symm) absent

def cons (field : Field V α) (rest : Fields V β) : Fields V (α × β) where
  names := field.name :: rest.names
  entries record := (field.name, field.write record.1) :: rest.entries record.2
  value slots := do
    let first ← field.value slots.named (slots.get field.name)
    let others ← rest.value slots
    some (first, others)
  stored record := (field.stored record.1, rest.stored record.2)
  Fits record := field.Fits record.1 ∧ rest.Fits record.2
  Same name one two :=
    (field.name = name → field.value true one = field.value true two) ∧ rest.Same name one two
  names_entries record := by rw [List.map_cons, rest.names_entries]
  value_entries := by
    intro record slots fits named held
    have found : slots.get field.name = field.write record.1 := held _ List.mem_cons_self
    have first : field.value slots.named (slots.get field.name) = some (field.stored record.1) := by
      rw [found, named]
      exact field.value_write fits.1
    have others := rest.value_entries fits.2 named fun entry member =>
      held entry (List.mem_cons_of_mem _ member)
    rw [first, others]
    rfl
  sound := by
    intro slots record known
    obtain ⟨first, read, known⟩ := Option.bind_eq_some_iff.mp known
    obtain ⟨others, later, known⟩ := Option.bind_eq_some_iff.mp known
    obtain rfl := Option.some.inj known
    obtain ⟨fits, same⟩ := field.value_sound read
    obtain ⟨laterFits, laterSame⟩ := rest.sound later
    exact ⟨⟨fits, laterFits⟩, Prod.ext same laterSame⟩
  value_same := by
    intro one two first second same
    have here := (same field.name List.mem_cons_self).1 rfl
    have others := rest.value_same first second fun name member =>
      (same name (List.mem_cons_of_mem _ member)).2
    rw [others, first, second, here]
  same_refl name found := ⟨fun _ => rfl, rest.same_refl name found⟩
  same_of_notMem one two absent :=
    ⟨fun here => absurd (here ▸ List.mem_cons_self) absent,
      rest.same_of_notMem one two fun member => absent (List.mem_cons_of_mem _ member)⟩

theorem same_here {field : Field V α} {rest : Fields V β} {one two : Option V}
    (same : field.value true one = field.value true two) (once : field.name ∉ rest.names) :
    (cons field rest).Same field.name one two :=
  ⟨fun _ => same, rest.same_of_notMem one two once⟩

theorem same_later {field : Field V α} {rest : Fields V β} {name : String} {one two : Option V}
    (other : field.name ≠ name) (same : rest.Same name one two) :
    (cons field rest).Same name one two :=
  ⟨fun here => absurd here other, same⟩

end Fields

/-! Objects and arrays. -/

def written (entries : List (String × Option V)) : List (String × V) :=
  entries.filterMap fun entry => entry.2.map fun value => (entry.1, value)

def Distinct (known : List String) (fields : List (String × V)) : Prop :=
  ((fields.map Prod.fst).filter fun name => decide (name ∈ known)).Nodup

instance (known : List String) (fields : List (String × V)) : Decidable (Distinct known fields) :=
  inferInstanceAs (Decidable (List.Nodup _))

def ofObject (known : List String) (fields : List (String × V)) : Option (Slots V) :=
  if Distinct known fields then some { named := true, get := fun name => fields.lookup name }
  else none

def ofArray (known : List String) (items : List V) : Option (Slots V) :=
  if items.length ≤ known.length then
    some { named := false, get := fun name => (known.zip items).lookup name }
  else none

theorem names_written (entries : List (String × Option V)) :
    ((written entries).map Prod.fst).Sublist (entries.map Prod.fst) := by
  induction entries with
  | nil => exact List.Sublist.slnil
  | cons entry rest ih =>
      obtain ⟨name, value?⟩ := entry
      cases value? with
      | none => exact ih.cons _
      | some value => exact ih.cons_cons _

theorem lookup_eq_none {fields : List (String × V)} {name : String}
    (absent : name ∉ fields.map Prod.fst) : fields.lookup name = none := by
  rw [List.lookup_eq_none_iff]
  intro field member
  have other : name ≠ field.1 := fun same => absent (same ▸ List.mem_map_of_mem member)
  simpa using other

theorem lookup_written {entries : List (String × Option V)}
    (distinct : (entries.map Prod.fst).Nodup) {entry : String × Option V}
    (member : entry ∈ entries) : (written entries).lookup entry.1 = entry.2 := by
  induction entries with
  | nil => cases member
  | cons first rest ih =>
      obtain ⟨name, value?⟩ := first
      rw [List.map_cons, List.nodup_cons] at distinct
      rcases List.mem_cons.mp member with rfl | later
      · cases value? with
        | none =>
            exact lookup_eq_none fun found => distinct.1 ((names_written rest).subset found)
        | some value => exact List.lookup_cons_self
      · have other : (entry.1 == name) = false := by
          rw [beq_eq_false_iff_ne]
          intro same
          have inside : entry.1 ∈ rest.map Prod.fst := List.mem_map_of_mem later
          exact distinct.1 (same ▸ inside)
        have found := ih distinct.2 later
        cases value? with
        | none => exact found
        | some value =>
            change List.lookup entry.1 ((name, value) :: written rest) = entry.2
            rw [List.lookup_cons, other]
            exact found

theorem distinct_written {entries : List (String × Option V)}
    (distinct : (entries.map Prod.fst).Nodup) (known : List String) :
    Distinct known (written entries) :=
  (distinct.sublist (names_written entries)).filter _

/-! Formats of records. -/

inductive View (V : Type)
  | object (fields : List (String × V))
  | array (items : List V)
  | other

section Format

variable (view : V → View V) (object : List (String × V) → V)

def Fields.read (fields : Fields V α) (value : V) : Option α :=
  match view value with
  | .object found => (ofObject fields.names found).bind fields.value
  | .array items => (ofArray fields.names items).bind fields.value
  | .other => none

def Fields.format (fields : Fields V α) (distinct : fields.names.Nodup)
    (view_object : ∀ found, view (object found) = .object found) : Format V α where
  write record := object (written (fields.entries record))
  read := fields.read view
  stored := fields.stored
  Fits := fields.Fits
  read_write := by
    intro record fits
    have names : ((fields.entries record).map Prod.fst).Nodup := by
      rwa [fields.names_entries]
    unfold Fields.read
    rw [view_object]
    unfold ofObject
    simp only [if_pos (distinct_written names fields.names)]
    exact fields.value_entries fits rfl fun entry member => lookup_written names member
  sound := by
    intro value record known
    unfold Fields.read at known
    split at known
    · obtain ⟨slots, _, known⟩ := Option.bind_eq_some_iff.mp known
      exact fields.sound known
    · obtain ⟨slots, _, known⟩ := Option.bind_eq_some_iff.mp known
      exact fields.sound known
    · cases known

end Format

/-! Records that are written but not read back. -/

namespace Fields

variable {field : Field V α} {rest : Fields V β}

def Refuses (fields : Fields V α) (record : α) : Prop :=
  ∀ slots : Slots V, slots.named = true →
    (∀ entry ∈ fields.entries record, slots.get entry.1 = entry.2) → fields.value slots = none

theorem refuses_last {value : α} (refused : field.value true (field.write value) = none) :
    (last field).Refuses value := by
  intro slots named held
  have found : slots.get field.name = field.write value := held _ List.mem_cons_self
  change field.value slots.named (slots.get field.name) = none
  rw [found, named]
  exact refused

theorem refuses_here {record : α × β} (refused : field.value true (field.write record.1) = none) :
    (cons field rest).Refuses record := by
  intro slots named held
  have found : slots.get field.name = field.write record.1 := held _ List.mem_cons_self
  have first : field.value slots.named (slots.get field.name) = none := by
    rw [found, named]
    exact refused
  exact Option.bind_eq_none_iff.mpr fun value known => by rw [first] at known; cases known

theorem refuses_later {record : α × β} (refused : rest.Refuses record.2) :
    (cons field rest).Refuses record := by
  intro slots named held
  have others : rest.value slots = none :=
    refused slots named fun entry member => held entry (List.mem_cons_of_mem _ member)
  refine Option.bind_eq_none_iff.mpr fun value _ => Option.bind_eq_none_iff.mpr ?_
  intro later known
  rw [others] at known
  cases known

theorem read_of_refuses {view : V → View V} {object : List (String × V) → V}
    {fields : Fields V α} {distinct : fields.names.Nodup}
    {view_object : ∀ found, view (object found) = .object found} {record : α}
    (refused : fields.Refuses record) :
    (fields.format view object distinct view_object).read
      ((fields.format view object distinct view_object).write record) = none := by
  have names : ((fields.entries record).map Prod.fst).Nodup := by
    rwa [fields.names_entries]
  change fields.read view (object (written (fields.entries record))) = none
  unfold Fields.read
  rw [view_object]
  unfold ofObject
  simp only [if_pos (distinct_written names fields.names)]
  exact refused _ rfl fun entry member => lookup_written names member

end Fields

/-! Objects that read the same. -/

/-- What other writers of the same record may do to the fields of an object: put them in any
order, add names the reader does not know, and spell a value, or its absence, in another way. -/
inductive Rewritten (known : List String) (Spelling : String → Option V → Option V → Prop) :
    List (String × V) → List (String × V) → Prop
  | reordered {one two} : one.Perm two → Rewritten known Spelling one two
  | unknown {name} (value rest) : name ∉ known →
      Rewritten known Spelling rest ((name, value) :: rest)
  | respelled {name one two} (rest) : Spelling name (some one) (some two) →
      Rewritten known Spelling ((name, one) :: rest) ((name, two) :: rest)
  | filledIn {name value rest} : name ∉ rest.map Prod.fst → Spelling name none (some value) →
      Rewritten known Spelling rest ((name, value) :: rest)
  | symm {one two} : Rewritten known Spelling one two → Rewritten known Spelling two one
  | trans {one two three} : Rewritten known Spelling one two → Rewritten known Spelling two three →
      Rewritten known Spelling one three

theorem Distinct.perm {known : List String} {one two : List (String × V)} (perm : one.Perm two) :
    Distinct known one ↔ Distinct known two :=
  ((perm.map Prod.fst).filter _).nodup_iff

theorem distinct_unknown {known : List String} {name : String} (strange : name ∉ known) (value : V)
    (rest : List (String × V)) : Distinct known ((name, value) :: rest) ↔ Distinct known rest := by
  unfold Distinct
  rw [List.map_cons, List.filter_cons_of_neg (by simpa using strange)]

theorem distinct_filledIn {known : List String} {name : String} {rest : List (String × V)}
    (fresh : name ∉ rest.map Prod.fst) (value : V) :
    Distinct known ((name, value) :: rest) ↔ Distinct known rest := by
  by_cases member : name ∈ known
  · unfold Distinct
    rw [List.map_cons, List.filter_cons_of_pos (by simpa using member), List.nodup_cons]
    have absent : name ∉ (rest.map Prod.fst).filter fun name => decide (name ∈ known) :=
      fun found => fresh (List.mem_of_mem_filter found)
    exact and_iff_right absent
  · exact distinct_unknown member value rest

theorem Distinct.lookup_perm {known : List String} {one two : List (String × V)}
    (perm : one.Perm two) (distinct : Distinct known one) {name : String} (member : name ∈ known) :
    one.lookup name = two.lookup name := by
  induction perm with
  | nil => rfl
  | cons field rest ih =>
      obtain ⟨other, value⟩ := field
      rw [List.lookup_cons, List.lookup_cons]
      rw [ih (distinct.sublist ((List.sublist_cons_self _ _).map _ |>.filter _))]
  | swap one two rest =>
      obtain ⟨first, value⟩ := one
      obtain ⟨second, other⟩ := two
      rw [List.lookup_cons, List.lookup_cons, List.lookup_cons, List.lookup_cons]
      by_cases atFirst : name = first
      · by_cases atSecond : name = second
        · subst atFirst
          subst atSecond
          unfold Distinct at distinct
          rw [List.map_cons, List.filter_cons_of_pos (by simpa using member), List.map_cons,
            List.filter_cons_of_pos (by simpa using member)] at distinct
          exact absurd List.mem_cons_self (List.nodup_cons.mp distinct).1
        · rw [beq_eq_false_iff_ne.mpr atSecond]
      · rw [beq_eq_false_iff_ne.mpr atFirst]
  | trans first second ih later =>
      rw [ih distinct, later ((Distinct.perm first).mp distinct)]

theorem Rewritten.same {fields : Fields V α} {Spelling : String → Option V → Option V → Prop}
    (allowed : ∀ {name one two}, Spelling name one two → fields.Same name one two)
    {one two : List (String × V)} (rewritten : Rewritten fields.names Spelling one two) :
    (ofObject fields.names one).bind fields.value =
      (ofObject fields.names two).bind fields.value := by
  have agree : ∀ {one two : List (String × V)},
      (Distinct fields.names one ↔ Distinct fields.names two) →
      (Distinct fields.names one → ∀ name ∈ fields.names,
        fields.Same name (one.lookup name) (two.lookup name)) →
      (ofObject fields.names one).bind fields.value =
        (ofObject fields.names two).bind fields.value := by
    intro one two accepted alike
    unfold ofObject
    by_cases distinct : Distinct fields.names one
    · rw [if_pos distinct, if_pos (accepted.mp distinct)]
      exact fields.value_same rfl rfl (alike distinct)
    · rw [if_neg distinct, if_neg fun other => distinct (accepted.mpr other)]
  induction rewritten with
  | reordered perm =>
      refine agree (Distinct.perm perm) fun distinct name member => ?_
      rw [distinct.lookup_perm perm member]
      exact fields.same_refl name _
  | @unknown name value rest strange =>
      refine agree (distinct_unknown strange value rest).symm fun _ other member => ?_
      have apart : (other == name) = false := by
        rw [beq_eq_false_iff_ne]
        rintro rfl
        exact strange member
      rw [List.lookup_cons, apart]
      exact fields.same_refl other _
  | @respelled name one two rest spelled =>
      have same := allowed spelled
      refine agree Iff.rfl fun _ other _ => ?_
      rw [List.lookup_cons, List.lookup_cons]
      by_cases here : other = name
      · subst here
        simpa using same
      · simp only [beq_eq_false_iff_ne.mpr here]
        exact fields.same_refl other _
  | @filledIn name value rest fresh spelled =>
      have same := allowed spelled
      refine agree (distinct_filledIn fresh value).symm fun _ other _ => ?_
      rw [List.lookup_cons]
      by_cases here : other = name
      · subst here
        rw [lookup_eq_none fresh]
        simpa using same
      · simp only [beq_eq_false_iff_ne.mpr here]
        exact fields.same_refl other _
  | symm _ ih => exact ih.symm
  | trans _ _ first second => exact first.trans second

end Record
