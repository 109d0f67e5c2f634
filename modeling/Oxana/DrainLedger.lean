import Oxana.ClusterCore
import Oxana.ExecutorCore
import Mathlib.Data.List.Count
import Mathlib.Data.List.Nodup

/-!
What draining a queue does to the jobs that are taken from it, one after the other.
-/

namespace Oxana

open StorageInternal (DrainStats)

/-! Lists from which some items are erased while others are put in front. -/

section Erasing

variable {α : Type} [DecidableEq α]

theorem diff_front (front rest : List α) : (front ++ rest).diff front = rest := by
  induction front with
  | nil => rfl
  | cons item front ih => rw [List.cons_append, List.diff_cons, List.erase_cons_head, ih]

theorem diff_of_disjoint {items erased : List α} (apart : ∀ item ∈ erased, item ∉ items) :
    items.diff erased = items := by
  induction erased with
  | nil => rfl
  | cons item erased ih =>
      rw [List.diff_cons, List.erase_of_not_mem (apart item List.mem_cons_self)]
      exact ih fun other member => apart other (List.mem_cons_of_mem item member)

/-- The list is as before when exactly what was erased is back, in its old place. -/
theorem restored_iff {items erased added : List α} (once : erased.Nodup) :
    added.reverse ++ items.diff erased = items ↔
      added.Nodup ∧ added.reverse <+: items ∧
        ∀ item, item ∈ added ↔ item ∈ erased ∧ item ∈ items := by
  have single : ∀ item, erased.count item ≤ 1 := List.nodup_iff_count_le_one.mp once
  constructor
  · intro same
    have counts : ∀ item,
        added.count item + (items.count item - erased.count item) = items.count item := by
      intro item
      have count := congrArg (List.count item) same
      rwa [List.count_append, List.count_reverse, List.count_diff] at count
    refine ⟨?_, ⟨_, same⟩, ?_⟩
    · rw [List.nodup_iff_count_le_one]
      intro item
      have balance := counts item
      have bound := single item
      omega
    · intro item
      have balance := counts item
      have bound := single item
      rw [← List.count_pos_iff, ← List.count_pos_iff, ← List.count_pos_iff]
      omega
  · rintro ⟨fresh, ⟨rest, split⟩, both⟩
    have within : ∀ item ∈ added.reverse, added.reverse.count item ≤ erased.count item := by
      intro item member
      have inside := ((both item).mp (List.mem_reverse.mp member)).1
      have bound := List.nodup_iff_count_le_one.mp fresh item
      have present := List.count_pos_iff.mpr inside
      rw [List.count_reverse]
      omega
    have parts := List.subperm_append_diff_self_of_count_le within
    have apart : ∀ item ∈ erased.diff added.reverse, item ∉ rest := by
      intro item member inside
      have left := List.count_pos_iff.mpr member
      rw [List.count_diff, List.count_reverse] at left
      have bound := single item
      have absent : item ∉ added := by
        rw [← List.count_pos_iff]
        omega
      have erase : item ∈ erased := by
        rw [← List.count_pos_iff]
        omega
      refine absent ((both item).mpr ⟨erase, ?_⟩)
      rw [← split]
      exact List.mem_append_right _ inside
    rw [← parts.diff_left, List.diff_append]
    conv_lhs => rw [← split]
    rw [diff_front, diff_of_disjoint apart, split]

end Erasing

inductive Prospect
  | missing
  | unfit (error : OxanaError)
  | panics
  | succeeds (handed : JobEnvelope)
  | fails (handed : JobEnvelope) (message : String)

def Prospect.Fit : Prospect → Prop
  | .unfit _ => False
  | .panics => False
  | _ => True

theorem Prospect.Fit.cases {prospect : Prospect} (fit : prospect.Fit) :
    prospect = .missing ∨ (∃ handed, prospect = .succeeds handed) ∨
      ∃ handed message, prospect = .fails handed message := by
  cases prospect with
  | missing => exact Or.inl rfl
  | unfit error => exact fit.elim
  | panics => exact fit.elim
  | succeeds handed => exact Or.inr (Or.inl ⟨handed, rfl⟩)
  | fails handed message => exact Or.inr (Or.inr ⟨handed, message, rfl⟩)

structure DrainLedger where
  prospects : JobId → Prospect
  processing : List JobId
  dead : List Payload
  executed : List JobEnvelope
  stats : DrainStats

namespace DrainLedger

def bury (dead : List Payload) (text : Payload) : List Payload :=
  (text :: dead).take 1000

/-- One job is taken. A job that fails leaves the processing list twice. -/
def settle (ledger : DrainLedger) (id : JobId) : DrainLedger :=
  match ledger.prospects id with
  | .missing =>
      { ledger with
        processing := id :: ledger.processing
        stats := ledger.stats.add .missing }
  | .succeeds handed =>
      { ledger with
        prospects := Function.update ledger.prospects id .missing
        executed := ledger.executed ++ [handed]
        stats := ledger.stats.add .success }
  | .fails handed message =>
      { prospects := Function.update ledger.prospects id .missing
        processing := ledger.processing.erase id
        dead := bury ledger.dead (toText (handed.withError message))
        executed := ledger.executed ++ [handed]
        stats := ledger.stats.add .failed }
  | .unfit _ => { ledger with processing := id :: ledger.processing }
  | .panics => { ledger with processing := id :: ledger.processing }

def missed (prospects : JobId → Prospect) : List JobId → List JobId
  | [] => []
  | id :: rest =>
      let others := missed (Function.update prospects id .missing) rest
      match prospects id with
      | .missing => id :: others
      | _ => others

def failures (prospects : JobId → Prospect) : List JobId → List (JobId × Payload)
  | [] => []
  | id :: rest =>
      let others := failures (Function.update prospects id .missing) rest
      match prospects id with
      | .fails handed message => (id, toText (handed.withError message)) :: others
      | _ => others

def failing (prospects : JobId → Prospect) (ids : List JobId) : List JobId :=
  (failures prospects ids).map Prod.fst

section Lists

variable {prospects : JobId → Prospect} {id : JobId} {ids : List JobId}

theorem mem_missed (missing : id ∈ missed prospects ids) : id ∈ ids := by
  induction ids generalizing prospects with
  | nil => exact missing
  | cons head rest ih =>
      unfold missed at missing
      dsimp only at missing
      split at missing
      · rcases List.mem_cons.mp missing with rfl | later
        · exact List.mem_cons_self
        · exact List.mem_cons_of_mem _ (ih later)
      · exact List.mem_cons_of_mem _ (ih missing)

theorem mem_failures {text : Payload} :
    (id, text) ∈ failures prospects ids ↔
      id ∈ ids ∧ ∃ handed message, prospects id = .fails handed message ∧
        text = toText (handed.withError message) := by
  induction ids generalizing prospects with
  | nil => simp [failures]
  | cons head rest ih =>
      have later : (id, text) ∈ failures (Function.update prospects head .missing) rest ↔
          id ≠ head ∧ id ∈ rest ∧ ∃ handed message, prospects id = .fails handed message ∧
            text = toText (handed.withError message) := by
        rw [ih]
        by_cases same : id = head
        · simp [same]
        · simp [same]
      unfold failures
      dsimp only
      split
      · rename_i handed message fails
        rw [List.mem_cons, later, Prod.mk.injEq]
        by_cases same : id = head
        · subst same
          simp [fails]
        · simp [same]
      · rename_i spared
        rw [later]
        by_cases same : id = head
        · subst same
          constructor
          · intro both
            exact absurd rfl both.1
          · rintro ⟨_, handed, message, fails, _⟩
            exact absurd fails (spared handed message)
        · simp [same]

theorem mem_failing :
    id ∈ failing prospects ids ↔
      id ∈ ids ∧ ∃ handed message, prospects id = .fails handed message := by
  unfold failing
  constructor
  · intro member
    obtain ⟨⟨_, text⟩, inside, rfl⟩ := List.mem_map.mp member
    obtain ⟨taken, handed, message, fails, _⟩ := mem_failures.mp inside
    exact ⟨taken, handed, message, fails⟩
  · rintro ⟨taken, handed, message, fails⟩
    exact List.mem_map.mpr ⟨(id, _), mem_failures.mpr ⟨taken, handed, message, fails, rfl⟩, rfl⟩

theorem failing_cons (prospects : JobId → Prospect) (id : JobId) (rest : List JobId) :
    failing prospects (id :: rest) = match prospects id with
      | .fails _ _ => id :: failing (Function.update prospects id .missing) rest
      | _ => failing (Function.update prospects id .missing) rest := by
  unfold failing
  rw [failures]
  cases prospects id <;> rfl

theorem not_failing_again (prospects : JobId → Prospect) (id : JobId) (rest : List JobId) :
    id ∉ failing (Function.update prospects id .missing) rest := by
  intro again
  obtain ⟨_, handed, message, fails⟩ := mem_failing.mp again
  rw [Function.update_self] at fails
  cases fails

theorem failing_nodup (prospects : JobId → Prospect) (ids : List JobId) :
    (failing prospects ids).Nodup := by
  induction ids generalizing prospects with
  | nil => exact List.nodup_nil
  | cons id rest ih =>
      rw [failing_cons]
      split
      · exact List.nodup_cons.mpr ⟨not_failing_again prospects id rest, ih _⟩
      · exact ih _

end Lists

/-! The ledger after jobs that do not stop the drain. -/

section Settled

variable {ledger : DrainLedger} {id : JobId} {ids : List JobId}

theorem settle_missing (missing : ledger.prospects id = .missing) :
    ledger.settle id = { ledger with
      processing := id :: ledger.processing
      stats := ledger.stats.add .missing } := by
  rw [settle, missing]

theorem settle_succeeds {handed : JobEnvelope}
    (succeeds : ledger.prospects id = .succeeds handed) :
    ledger.settle id = { ledger with
      prospects := Function.update ledger.prospects id .missing
      executed := ledger.executed ++ [handed]
      stats := ledger.stats.add .success } := by
  rw [settle, succeeds]

theorem settle_fails {handed : JobEnvelope} {message : String}
    (fails : ledger.prospects id = .fails handed message) :
    ledger.settle id =
      { prospects := Function.update ledger.prospects id .missing
        processing := ledger.processing.erase id
        dead := bury ledger.dead (toText (handed.withError message))
        executed := ledger.executed ++ [handed]
        stats := ledger.stats.add .failed } := by
  rw [settle, fails]

theorem settle_prospects (fit : (ledger.prospects id).Fit) :
    (ledger.settle id).prospects = Function.update ledger.prospects id .missing := by
  rcases fit.cases with missing | ⟨handed, succeeds⟩ | ⟨handed, message, fails⟩
  · rw [settle_missing missing]
    exact (Function.update_eq_self_iff.mpr missing.symm).symm
  · rw [settle_succeeds succeeds]
  · rw [settle_fails fails]

theorem fit_settle (fit : (ledger.prospects id).Fit)
    (others : ∀ other ∈ ids, (ledger.prospects other).Fit) :
    ∀ other ∈ ids, ((ledger.settle id).prospects other).Fit := by
  intro other member
  rw [settle_prospects fit]
  by_cases same : other = id
  · rw [same, Function.update_self]
    trivial
  · rw [Function.update_of_ne same]
    exact others other member

/-- What holds of the ledger after any jobs that do not stop the drain. -/
@[elab_as_elim]
theorem settle_induction {motive : List JobId → DrainLedger → Prop}
    (none : ∀ ledger, motive [] ledger)
    (more : ∀ id rest ledger, (ledger.prospects id).Fit → motive rest (ledger.settle id) →
      motive (id :: rest) ledger) (ids : List JobId) (ledger : DrainLedger)
    (fit : ∀ id ∈ ids, (ledger.prospects id).Fit) : motive ids ledger := by
  induction ids generalizing ledger with
  | nil => exact none ledger
  | cons id rest ih =>
      have first := fit id List.mem_cons_self
      have later := fun other member => fit other (List.mem_cons_of_mem id member)
      exact more id rest ledger first (ih _ (fit_settle first later))

theorem settled_prospects (ids : List JobId) (ledger : DrainLedger)
    (fit : ∀ id ∈ ids, (ledger.prospects id).Fit) (id : JobId) :
    (ids.foldl settle ledger).prospects id =
      if id ∈ ids then .missing else ledger.prospects id := by
  refine settle_induction (fun _ => rfl) ?_ ids ledger fit
  intro head rest ledger first ih
  rw [List.foldl_cons, ih, settle_prospects first]
  by_cases taken : id ∈ rest
  · rw [if_pos taken, if_pos (List.mem_cons_of_mem _ taken)]
  · by_cases same : id = head
    · subst same
      rw [if_neg taken, if_pos List.mem_cons_self, Function.update_self]
    · rw [if_neg taken, if_neg (by simp [same, taken]), Function.update_of_ne same]

theorem settled_processing (ids : List JobId) (ledger : DrainLedger)
    (fit : ∀ id ∈ ids, (ledger.prospects id).Fit) :
    (ids.foldl settle ledger).processing =
      (missed ledger.prospects ids).reverse ++
        ledger.processing.diff (failing ledger.prospects ids) := by
  refine settle_induction (fun _ => rfl) ?_ ids ledger fit
  intro id rest ledger first ih
  rw [List.foldl_cons, ih, settle_prospects first, failing_cons, missed]
  have again := not_failing_again ledger.prospects id rest
  rcases first.cases with missing | ⟨handed, succeeds⟩ | ⟨handed, message, fails⟩
  · rw [settle_missing missing, missing]
    dsimp only
    rw [List.cons_diff_of_not_mem again, List.reverse_cons, List.append_assoc]
    rfl
  · rw [settle_succeeds succeeds, succeeds]
  · rw [settle_fails fails, fails, List.diff_cons]

theorem settled_dead (ids : List JobId) (ledger : DrainLedger)
    (fit : ∀ id ∈ ids, (ledger.prospects id).Fit) :
    (ids.foldl settle ledger).dead =
      ((failures ledger.prospects ids).map Prod.snd).foldl bury ledger.dead := by
  refine settle_induction (fun _ => rfl) ?_ ids ledger fit
  intro id rest ledger first ih
  rw [List.foldl_cons, ih, settle_prospects first, failures]
  rcases first.cases with missing | ⟨handed, succeeds⟩ | ⟨handed, message, fails⟩
  · rw [settle_missing missing, missing]
  · rw [settle_succeeds succeeds, succeeds]
  · rw [settle_fails fails, fails]
    rfl

theorem settled_executed (ids : List JobId) (ledger : DrainLedger)
    (fit : ∀ id ∈ ids, (ledger.prospects id).Fit) :
    ∃ ran, (ids.foldl settle ledger).executed = ledger.executed ++ ran ∧
      ∀ id ∈ ids, ∀ handed, ledger.prospects id = .succeeds handed → handed ∈ ran := by
  refine settle_induction ?_ ?_ ids ledger fit
  · exact fun _ => ⟨[], (List.append_nil _).symm, fun _ member => nomatch member⟩
  · rintro head rest ledger first ⟨ran, executed, covers⟩
    have begun : ∃ own, (ledger.settle head).executed = ledger.executed ++ own ∧
        ∀ handed, ledger.prospects head = .succeeds handed → handed ∈ own := by
      rcases first.cases with missing | ⟨handed, succeeds⟩ | ⟨handed, message, fails⟩
      · rw [settle_missing missing, missing]
        exact ⟨[], (List.append_nil _).symm, fun _ same => nomatch same⟩
      · rw [settle_succeeds succeeds, succeeds]
        refine ⟨[handed], rfl, ?_⟩
        rintro _ ⟨⟩
        exact List.mem_singleton_self _
      · rw [settle_fails fails, fails]
        exact ⟨[handed], rfl, fun _ same => nomatch same⟩
    obtain ⟨own, started, covered⟩ := begun
    refine ⟨own ++ ran, ?_, ?_⟩
    · rw [List.foldl_cons, executed, started, List.append_assoc]
    · intro id member handed succeeds
      by_cases same : id = head
      · subst same
        exact List.mem_append_left _ (covered handed succeeds)
      · have inside := (List.mem_cons.mp member).resolve_left same
        refine List.mem_append_right _ (covers id inside handed ?_)
        rw [settle_prospects first, Function.update_of_ne same]
        exact succeeds

def Balanced (stats : DrainStats) : Prop :=
  stats.processed = stats.succeeded + stats.failed + stats.missing

theorem balanced_add {stats : DrainStats} (balanced : Balanced stats)
    (result : StorageInternal.ProcessJobResult) :
    (stats.add result).processed = stats.processed + 1 ∧ Balanced (stats.add result) := by
  unfold Balanced at balanced ⊢
  cases result with
  | success =>
      dsimp only [DrainStats.add]
      omega
  | failed =>
      dsimp only [DrainStats.add]
      omega
  | missing =>
      dsimp only [DrainStats.add]
      omega

theorem settle_stats (fit : (ledger.prospects id).Fit) :
    ∃ result, (ledger.settle id).stats = ledger.stats.add result := by
  rcases fit.cases with missing | ⟨handed, succeeds⟩ | ⟨handed, message, fails⟩
  · exact ⟨.missing, by rw [settle_missing missing]⟩
  · exact ⟨.success, by rw [settle_succeeds succeeds]⟩
  · exact ⟨.failed, by rw [settle_fails fails]⟩

theorem settled_stats (ids : List JobId) (ledger : DrainLedger)
    (fit : ∀ id ∈ ids, (ledger.prospects id).Fit) (balanced : Balanced ledger.stats) :
    (ids.foldl settle ledger).stats.processed = ledger.stats.processed + ids.length ∧
      Balanced (ids.foldl settle ledger).stats := by
  revert balanced
  refine settle_induction ?_ ?_ ids ledger fit
  · exact fun _ balanced => ⟨rfl, balanced⟩
  · intro id rest ledger first ih balanced
    obtain ⟨result, added⟩ := settle_stats first
    obtain ⟨counted, one⟩ := balanced_add balanced result
    rw [← added] at counted one
    obtain ⟨processed, still⟩ := ih one
    refine ⟨?_, still⟩
    rw [List.foldl_cons, processed, counted, List.length_cons]
    omega

end Settled

/-! The dead list. -/

theorem buried_eq (dead : List Payload) {texts : List Payload} (some : texts ≠ []) :
    texts.foldl bury dead = (texts.reverse ++ dead).take 1000 := by
  induction texts using List.reverseRecOn with
  | nil => exact absurd rfl some
  | append_singleton earlier text ih =>
      rw [List.foldl_append, List.reverse_append]
      simp only [List.foldl_cons, List.foldl_nil, bury, List.reverse_singleton, List.cons_append,
        List.nil_append]
      by_cases first : earlier = []
      · rw [first]
        rfl
      · rw [ih first, List.take_succ_cons, List.take_succ_cons, List.take_take]
        rfl

theorem mem_buried (dead : List Payload) {texts : List Payload} (few : texts.length ≤ 1000)
    {text : Payload} (member : text ∈ texts) : text ∈ texts.foldl bury dead := by
  rw [buried_eq dead (List.ne_nil_of_mem member), List.take_append,
    List.take_of_length_le (by rwa [List.length_reverse])]
  exact List.mem_append_left _ (List.mem_reverse.mpr member)

theorem mem_of_mem_buried (dead : List Payload) (first : Payload) {texts : List Payload}
    (many : 1000 ≤ texts.length) {text : Payload}
    (member : text ∈ (first :: texts).foldl bury dead) : text ∈ texts := by
  rw [buried_eq dead (List.cons_ne_nil _ _), List.reverse_cons, List.append_assoc,
    List.take_append_of_le_length (by rwa [List.length_reverse])] at member
  exact List.mem_reverse.mp (List.mem_of_mem_take member)

/-- What a queue, the jobs in it and the processing list must be like for a drain to account
for every job. -/
structure Drainable (prospects : JobId → Prospect) (ids processing : List JobId) : Prop where
  fit : ∀ id ∈ ids, (prospects id).Fit
  few : (failing prospects ids).length ≤ 1000
  once : (missed prospects ids).Nodup
  ahead : (missed prospects ids).reverse <+: processing
  again : ∀ id, id ∈ missed prospects ids ↔ id ∈ failing prospects ids ∧ id ∈ processing

theorem failing_length (prospects : JobId → Prospect) (ids : List JobId) :
    (failing prospects ids).length ≤ ids.length := by
  induction ids generalizing prospects with
  | nil => exact Nat.le_refl 0
  | cons id rest ih =>
      have later := ih (Function.update prospects id .missing)
      rw [failing_cons, List.length_cons]
      split
      · rw [List.length_cons]
        omega
      · omega

theorem missed_of_distinct {prospects : JobId → Prospect} {ids : List JobId}
    (distinct : ids.Nodup) (present : ∀ id ∈ ids, prospects id ≠ .missing) :
    missed prospects ids = [] := by
  induction ids generalizing prospects with
  | nil => rfl
  | cons id rest ih =>
      obtain ⟨fresh, others⟩ := List.nodup_cons.mp distinct
      have later : missed (Function.update prospects id .missing) rest = [] := by
        refine ih others ?_
        intro other member
        have different : other ≠ id := by
          rintro rfl
          exact fresh member
        rw [Function.update_of_ne different]
        exact present other (List.mem_cons_of_mem _ member)
      rw [missed, later]
      cases prospect : prospects id with
      | missing => exact absurd prospect (present id List.mem_cons_self)
      | unfit error => rfl
      | panics => rfl
      | succeeds handed => rfl
      | fails handed message => rfl

theorem drainable_of_distinct {prospects : JobId → Prospect} {ids processing : List JobId}
    (distinct : ids.Nodup) (few : ids.length ≤ 1000)
    (runs : ∀ id ∈ ids, (∃ handed, prospects id = .succeeds handed) ∨
      ∃ handed message, prospects id = .fails handed message ∧ id ∉ processing) :
    Drainable prospects ids processing := by
  have none : missed prospects ids = [] := by
    refine missed_of_distinct distinct ?_
    intro id member absent
    rcases runs id member with ⟨handed, run⟩ | ⟨handed, message, run, _⟩
    · rw [absent] at run
      cases run
    · rw [absent] at run
      cases run
  refine ⟨?_, (failing_length _ _).trans few, ?_, ?_, ?_⟩
  · intro id member
    rcases runs id member with ⟨handed, run⟩ | ⟨handed, message, run, _⟩
    · rw [run]
      trivial
    · rw [run]
      trivial
  · rw [none]
    exact List.nodup_nil
  · rw [none]
    exact List.nil_prefix
  · intro id
    rw [none]
    constructor
    · intro member
      cases member
    · rintro ⟨failed, held⟩
      obtain ⟨member, handed, message, fails⟩ := mem_failing.mp failed
      rcases runs id member with ⟨other, run⟩ | ⟨other, text, run, clear⟩
      · rw [fails] at run
        cases run
      · exact absurd held clear

end DrainLedger

end Oxana
