import Mathlib.Data.List.Basic
import Mathlib.Data.List.Nodup
import Mathlib.Data.List.Sort

/-!
Lists of records that carry their key.  An update changes the record of its key in place, or
adds a fresh one at the end; what a run of updates leaves at a key depends on the updates of
that key alone.
-/

namespace KeyedList

variable {κ ν ω : Type} {keyOf : ν → κ}

/-! Sorting by the key. -/

section Sorting

variable [LinearOrder κ]

def sortBy (keyOf : ν → κ) (values : List ν) : List ν :=
  values.insertionSort fun first second => keyOf first ≤ keyOf second

theorem sortBy_perm (values : List ν) : (sortBy keyOf values).Perm values :=
  List.perm_insertionSort _ values

theorem mem_sortBy {values : List ν} {value : ν} :
    value ∈ sortBy keyOf values ↔ value ∈ values :=
  (sortBy_perm values).mem_iff

theorem sortBy_pairwise {values : List ν} (distinct : (values.map keyOf).Nodup) :
    (sortBy keyOf values).Pairwise fun first second => keyOf first < keyOf second := by
  have total : Std.Total fun first second : ν => keyOf first ≤ keyOf second :=
    ⟨fun first second => le_total (keyOf first) (keyOf second)⟩
  have transitive : IsTrans ν fun first second => keyOf first ≤ keyOf second :=
    ⟨fun _ _ _ => le_trans⟩
  have ordered := List.pairwise_insertionSort
    (fun first second => keyOf first ≤ keyOf second) values
  have apart : (sortBy keyOf values).Pairwise fun first second =>
      keyOf first ≠ keyOf second :=
    List.pairwise_map.mp (((sortBy_perm values).map keyOf).nodup_iff.mpr distinct)
  exact (ordered.and apart).imp fun both => lt_of_le_of_ne both.1 both.2

theorem eq_of_sorted {first second : List ν}
    (ordered : first.Pairwise fun one two => keyOf one < keyOf two)
    (other : second.Pairwise fun one two => keyOf one < keyOf two)
    (keys : ∀ key, key ∈ first.map keyOf ↔ key ∈ second.map keyOf)
    (records : ∀ one ∈ first, ∀ two ∈ second, keyOf one = keyOf two → one = two) :
    first = second := by
  have irreflexive : Std.Irrefl fun one two : ν => keyOf one < keyOf two :=
    ⟨fun one => lt_irrefl (keyOf one)⟩
  refine ordered.eq_of_mem_iff other fun value => ⟨?_, ?_⟩
  · intro member
    obtain ⟨found, inside, same⟩ :=
      List.mem_map.mp ((keys (keyOf value)).mp (List.mem_map_of_mem member))
    rw [records value member found inside same.symm]
    exact inside
  · intro member
    obtain ⟨found, inside, same⟩ :=
      List.mem_map.mp ((keys (keyOf value)).mpr (List.mem_map_of_mem member))
    rw [← records found inside value member same]
    exact inside

end Sorting

/-! One update. -/

variable [DecidableEq κ]

def upsert (keyOf : ν → κ) (key : κ) (fresh : ν) (change : ν → ν) : List ν → List ν
  | [] => [change fresh]
  | value :: rest =>
      if keyOf value = key then change value :: rest
      else value :: upsert keyOf key fresh change rest

section Upsert

variable {key : κ} {fresh : ν} {change : ν → ν}

theorem map_upsert (made : keyOf fresh = key) (keeps : ∀ value, keyOf (change value) = keyOf value)
    (values : List ν) :
    (upsert keyOf key fresh change values).map keyOf =
      if key ∈ values.map keyOf then values.map keyOf else values.map keyOf ++ [key] := by
  induction values with
  | nil => simp [upsert, keeps, made]
  | cons value rest ih =>
      unfold upsert
      by_cases same : keyOf value = key
      · rw [if_pos same, List.map_cons, keeps]
        rw [if_pos (by rw [List.map_cons, same]; exact List.mem_cons_self)]
        rfl
      · rw [if_neg same, List.map_cons, ih, List.map_cons]
        by_cases later : key ∈ rest.map keyOf
        · rw [if_pos later, if_pos (List.mem_cons_of_mem _ later)]
        · have absent : key ∉ keyOf value :: rest.map keyOf := by
            rw [List.mem_cons, not_or]
            exact ⟨Ne.symm same, later⟩
          rw [if_neg later, if_neg absent]
          rfl

theorem nodup_upsert (made : keyOf fresh = key)
    (keeps : ∀ value, keyOf (change value) = keyOf value) {values : List ν}
    (distinct : (values.map keyOf).Nodup) :
    ((upsert keyOf key fresh change values).map keyOf).Nodup := by
  rw [map_upsert made keeps]
  split
  · exact distinct
  · rename_i absent
    refine List.Nodup.append distinct (List.nodup_singleton key) ?_
    intro other member same
    rw [List.mem_singleton.mp same] at member
    exact absent member

theorem mem_upsert {values : List ν} (distinct : (values.map keyOf).Nodup) {value : ν}
    (member : value ∈ upsert keyOf key fresh change values) :
    (value ∈ values ∧ keyOf value ≠ key) ∨
    (∃ old ∈ values, keyOf old = key ∧ value = change old) ∨
    (key ∉ values.map keyOf ∧ value = change fresh) := by
  induction values with
  | nil =>
      rw [upsert, List.mem_singleton] at member
      exact Or.inr (Or.inr ⟨List.not_mem_nil, member⟩)
  | cons first rest ih =>
      rw [List.map_cons, List.nodup_cons] at distinct
      unfold upsert at member
      by_cases same : keyOf first = key
      · rw [if_pos same] at member
        rcases List.mem_cons.mp member with rfl | later
        · exact Or.inr (Or.inl ⟨first, List.mem_cons_self, same, rfl⟩)
        · refine Or.inl ⟨List.mem_cons_of_mem _ later, ?_⟩
          rintro again
          rw [same, ← again] at distinct
          exact distinct.1 (List.mem_map_of_mem later)
      · rw [if_neg same] at member
        rcases List.mem_cons.mp member with rfl | later
        · exact Or.inl ⟨List.mem_cons_self, same⟩
        · rcases ih distinct.2 later with ⟨kept, other⟩ | ⟨old, inside, found, changed⟩ |
            ⟨absent, added⟩
          · exact Or.inl ⟨List.mem_cons_of_mem _ kept, other⟩
          · exact Or.inr (Or.inl ⟨old, List.mem_cons_of_mem _ inside, found, changed⟩)
          · refine Or.inr (Or.inr ⟨?_, added⟩)
            rw [List.map_cons, List.mem_cons, not_or]
            exact ⟨Ne.symm same, absent⟩

theorem upsert_of_unchanged (unchanged : ∀ value, change value = value) (values : List ν) :
    upsert keyOf key fresh change values =
      if key ∈ values.map keyOf then values else values ++ [fresh] := by
  induction values with
  | nil => simp [upsert, unchanged]
  | cons value rest ih =>
      unfold upsert
      by_cases same : keyOf value = key
      · rw [if_pos same, unchanged, if_pos (by rw [List.map_cons, same]; exact List.mem_cons_self)]
      · rw [if_neg same, ih, List.map_cons]
        by_cases later : key ∈ rest.map keyOf
        · rw [if_pos later, if_pos (List.mem_cons_of_mem _ later)]
        · have absent : key ∉ keyOf value :: rest.map keyOf := by
            rw [List.mem_cons, not_or]
            exact ⟨Ne.symm same, later⟩
          rw [if_neg later, if_neg absent]
          rfl

end Upsert

/-! Runs of updates. -/

/-- Which key an update is about, the record it starts from and how it changes the record. -/
structure Scheme (keyOf : ν → κ) (ω : Type) where
  target : ω → κ
  fresh : κ → ν
  change : ω → ν → ν
  made : ∀ key, keyOf (fresh key) = key
  keeps : ∀ update value, keyOf (change update value) = keyOf value

namespace Scheme

variable (scheme : Scheme keyOf ω)

def apply (values : List ν) (update : ω) : List ν :=
  upsert keyOf (scheme.target update) (scheme.fresh (scheme.target update))
    (scheme.change update) values

def record (updates : List ω) (key : κ) : ν :=
  (updates.filter fun update => scheme.target update = key).foldl
    (fun value update => scheme.change update value) (scheme.fresh key)

structure Collected (past : List ω) (values : List ν) : Prop where
  distinct : (values.map keyOf).Nodup
  keys : ∀ key, key ∈ values.map keyOf ↔ ∃ update ∈ past, scheme.target update = key
  records : ∀ value ∈ values, value = scheme.record past (keyOf value)

variable {scheme} {past : List ω} {values : List ν}

theorem record_append_self (update : ω) :
    scheme.record (past ++ [update]) (scheme.target update) =
      scheme.change update (scheme.record past (scheme.target update)) := by
  simp [record]

theorem record_append_of_ne {update : ω} {key : κ} (other : scheme.target update ≠ key) :
    scheme.record (past ++ [update]) key = scheme.record past key := by
  simp [record, other]

theorem record_fresh {key : κ} (absent : ∀ update ∈ past, scheme.target update ≠ key) :
    scheme.record past key = scheme.fresh key := by
  have none : (past.filter fun update => scheme.target update = key) = [] := by
    rw [List.filter_eq_nil_iff]
    intro update member
    simpa using absent update member
  rw [record, none]
  rfl

/-- What can be seen of a record is computed from what can be seen of the fresh one. -/
theorem view_record {β : Type} (view : ν → β) (step : β → ω → β)
    (moves : ∀ update value, view (scheme.change update value) = step (view value) update)
    (updates : List ω) (key : κ) :
    view (scheme.record updates key) =
      (updates.filter fun update => scheme.target update = key).foldl step
        (view (scheme.fresh key)) := by
  unfold record
  generalize scheme.fresh key = value
  induction updates.filter fun update => scheme.target update = key generalizing value with
  | nil => rfl
  | cons update rest ih => rw [List.foldl_cons, List.foldl_cons, ih, moves]

theorem keyOf_record (updates : List ω) (key : κ) : keyOf (scheme.record updates key) = key := by
  rw [view_record keyOf (fun same _ => same) scheme.keeps, scheme.made, List.foldl_fixed]

theorem Collected.apply (collected : scheme.Collected past values) (update : ω) :
    scheme.Collected (past ++ [update]) (scheme.apply values update) := by
  have made := scheme.made (scheme.target update)
  have keeps := scheme.keeps update
  refine ⟨nodup_upsert made keeps collected.distinct, ?_, ?_⟩
  · intro key
    have grown : key ∈ (scheme.apply values update).map keyOf ↔
        key ∈ values.map keyOf ∨ key = scheme.target update := by
      unfold Scheme.apply
      rw [map_upsert made keeps]
      split
      · rename_i present
        constructor
        · exact Or.inl
        · rintro (inside | rfl)
          · exact inside
          · exact present
      · rw [List.mem_append, List.mem_singleton]
    rw [grown, collected.keys]
    constructor
    · rintro (⟨earlier, member, same⟩ | rfl)
      · exact ⟨earlier, List.mem_append_left _ member, same⟩
      · exact ⟨update, List.mem_append_right _ List.mem_cons_self, rfl⟩
    · rintro ⟨earlier, member, same⟩
      rcases List.mem_append.mp member with before | last
      · exact Or.inl ⟨earlier, before, same⟩
      · rw [List.mem_singleton.mp last] at same
        exact Or.inr same.symm
  · intro value member
    rcases mem_upsert collected.distinct member with ⟨kept, other⟩ | ⟨old, inside, same, rfl⟩ |
      ⟨absent, rfl⟩
    · rw [record_append_of_ne (Ne.symm other)]
      exact collected.records value kept
    · rw [keeps, same, record_append_self]
      have known := collected.records old inside
      rw [same] at known
      rw [← known]
    · rw [keeps, made, record_append_self, record_fresh]
      intro earlier before same
      exact absent ((collected.keys _).mpr ⟨earlier, before, same⟩)

theorem Collected.foldl (collected : scheme.Collected past values) (updates : List ω) :
    scheme.Collected (past ++ updates) (updates.foldl scheme.apply values) := by
  induction updates generalizing past values with
  | nil =>
      rw [List.append_nil]
      exact collected
  | cons update rest ih =>
      have next := ih (collected.apply update)
      rw [List.append_assoc] at next
      exact next

theorem collected_nil : scheme.Collected [] [] :=
  ⟨List.nodup_nil, by simp, by simp⟩

theorem collected (updates : List ω) : scheme.Collected updates (updates.foldl scheme.apply []) :=
  collected_nil.foldl updates

theorem Collected.mem_iff (collected : scheme.Collected past values) {value : ν} :
    value ∈ values ↔ (∃ update ∈ past, scheme.target update = keyOf value) ∧
      value = scheme.record past (keyOf value) := by
  constructor
  · intro member
    exact ⟨(collected.keys _).mp (List.mem_map_of_mem member), collected.records value member⟩
  · rintro ⟨known, same⟩
    obtain ⟨found, member, key⟩ := List.mem_map.mp ((collected.keys _).mpr known)
    have recorded := collected.records found member
    rw [key, ← same] at recorded
    rw [← recorded]
    exact member

end Scheme

end KeyedList
