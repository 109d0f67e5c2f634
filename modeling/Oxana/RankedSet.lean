import Mathlib.Data.List.Sort
import Mathlib.Data.Prod.Lex
import Mathlib.Order.Lex

/-!
Sets whose members carry a score and are kept in ascending order of score, ties
in the order of the members.  The order and the uniqueness of the members are
part of the value, so no operation has to establish them again.
-/

structure RankedSet (κ σ : Type) [LinearOrder κ] [LinearOrder σ] where
  entries : List (σ ×ₗ κ)
  sorted : entries.Pairwise (· ≤ ·)
  unique : (entries.map fun entry => (ofLex entry).2).Nodup

namespace RankedSet

variable {κ σ : Type} [LinearOrder κ] [LinearOrder σ]

def empty : RankedSet κ σ where
  entries := []
  sorted := List.Pairwise.nil
  unique := List.nodup_nil

def members (ranked : RankedSet κ σ) : List κ :=
  ranked.entries.map fun entry => (ofLex entry).2

def withScores (ranked : RankedSet κ σ) : List (κ × σ) :=
  ranked.entries.map fun entry => ((ofLex entry).2, (ofLex entry).1)

/-- The members whose score lies in the closed interval, in order. -/
def within (ranked : RankedSet κ σ) (low high : σ) : List κ :=
  (ranked.entries.filter fun entry =>
    decide (low ≤ (ofLex entry).1 ∧ (ofLex entry).1 ≤ high)).map fun entry => (ofLex entry).2

def Holds (ranked : RankedSet κ σ) (member : κ) (score : σ) : Prop :=
  toLex (score, member) ∈ ranked.entries

def othersThan (ranked : RankedSet κ σ) (member : κ) : List (σ ×ₗ κ) :=
  ranked.entries.filter fun entry => (ofLex entry).2 != member

theorem othersThan_unique (ranked : RankedSet κ σ) (member : κ) :
    ((ranked.othersThan member).map fun entry => (ofLex entry).2).Nodup :=
  ranked.unique.sublist ((List.filter_sublist (l := ranked.entries)).map _)

def erase (ranked : RankedSet κ σ) (member : κ) : RankedSet κ σ where
  entries := ranked.othersThan member
  sorted := ranked.sorted.filter _
  unique := ranked.othersThan_unique member

theorem insert_unique (ranked : RankedSet κ σ) (member : κ) (score : σ) :
    (((ranked.othersThan member).orderedInsert (· ≤ ·) (toLex (score, member))).map
      fun entry => (ofLex entry).2).Nodup := by
  have shuffled := (List.perm_orderedInsert (· ≤ ·) (toLex (score, member))
    (ranked.othersThan member)).map fun entry => (ofLex entry).2
  rw [shuffled.nodup_iff]
  refine List.nodup_cons.mpr ⟨?_, ranked.othersThan_unique member⟩
  simp [othersThan]

def insert (ranked : RankedSet κ σ) (member : κ) (score : σ) : RankedSet κ σ where
  entries := (ranked.othersThan member).orderedInsert (· ≤ ·) (toLex (score, member))
  sorted := (ranked.sorted.filter _).orderedInsert _ _
  unique := ranked.insert_unique member score

@[simp] theorem empty_members : (empty : RankedSet κ σ).members = [] := rfl

theorem members_nodup (ranked : RankedSet κ σ) : ranked.members.Nodup := ranked.unique

theorem mem_members (ranked : RankedSet κ σ) (member : κ) :
    member ∈ ranked.members ↔ ∃ score, ranked.Holds member score := by
  simp only [members, List.mem_map, Holds]
  constructor
  · rintro ⟨entry, inside, rfl⟩
    exact ⟨(ofLex entry).1, inside⟩
  · rintro ⟨score, inside⟩
    exact ⟨_, inside, rfl⟩

theorem mem_withScores (ranked : RankedSet κ σ) (member : κ) (score : σ) :
    (member, score) ∈ ranked.withScores ↔ ranked.Holds member score := by
  simp only [withScores, List.mem_map, Holds, Prod.mk.injEq]
  constructor
  · rintro ⟨entry, inside, rfl, rfl⟩
    exact inside
  · intro inside
    exact ⟨_, inside, rfl, rfl⟩

theorem mem_within (ranked : RankedSet κ σ) (low high : σ) (member : κ) :
    member ∈ ranked.within low high ↔
      ∃ score, ranked.Holds member score ∧ low ≤ score ∧ score ≤ high := by
  simp only [within, List.mem_map, List.mem_filter, decide_eq_true_eq, Holds]
  constructor
  · rintro ⟨entry, ⟨inside, bounds⟩, rfl⟩
    exact ⟨(ofLex entry).1, inside, bounds⟩
  · rintro ⟨score, inside, bounds⟩
    exact ⟨_, ⟨inside, bounds⟩, rfl⟩

theorem within_sublist_members (ranked : RankedSet κ σ) (low high : σ) :
    (ranked.within low high).Sublist ranked.members :=
  (List.filter_sublist (l := ranked.entries)).map _

theorem within_nodup (ranked : RankedSet κ σ) (low high : σ) :
    (ranked.within low high).Nodup :=
  ranked.members_nodup.sublist (ranked.within_sublist_members low high)

theorem holds_erase (ranked : RankedSet κ σ) (member other : κ) (score : σ) :
    (ranked.erase member).Holds other score ↔ ranked.Holds other score ∧ other ≠ member := by
  simp [Holds, erase, othersThan]

theorem holds_insert (ranked : RankedSet κ σ) (member other : κ) (score placed : σ) :
    (ranked.insert member placed).Holds other score ↔
      (other = member ∧ score = placed) ∨ (ranked.Holds other score ∧ other ≠ member) := by
  simp only [Holds, insert, List.mem_orderedInsert, othersThan, List.mem_filter, bne_iff_ne,
    toLex_inj, Prod.mk.injEq, ofLex_toLex]
  tauto

@[simp] theorem mem_members_erase (ranked : RankedSet κ σ) (member other : κ) :
    other ∈ (ranked.erase member).members ↔ other ∈ ranked.members ∧ other ≠ member := by
  simp [mem_members, holds_erase]

@[simp] theorem mem_members_insert (ranked : RankedSet κ σ) (member other : κ) (score : σ) :
    other ∈ (ranked.insert member score).members ↔ other = member ∨ other ∈ ranked.members := by
  simp only [mem_members, holds_insert]
  constructor
  · rintro ⟨found, ⟨same, _⟩ | ⟨inside, _⟩⟩
    · exact Or.inl same
    · exact Or.inr ⟨found, inside⟩
  · rintro (same | ⟨found, inside⟩)
    · exact ⟨score, Or.inl ⟨same, rfl⟩⟩
    · by_cases same : other = member
      · exact ⟨score, Or.inl ⟨same, rfl⟩⟩
      · exact ⟨found, Or.inr ⟨inside, same⟩⟩

theorem holds_unique (ranked : RankedSet κ σ) {member : κ} {first second : σ}
    (left : ranked.Holds member first) (right : ranked.Holds member second) : first = second := by
  have same := List.inj_on_of_nodup_map ranked.unique left right rfl
  simpa using congrArg (fun entry => (ofLex entry).1) same

end RankedSet
