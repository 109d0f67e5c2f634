import Oxana.CommandProgram

/-! Runs of one program in which commands are refused, lose their reply or are cut off. -/

namespace Program

variable {Command : Type} {Reply : Command → Type} {Error α β σ ι : Type}

def Fate.applies : Fate Error → Bool
  | served => true
  | lost _ => true
  | _ => false

def later (fates : Nat → Fate Error) (count : Nat) : Nat → Fate Error :=
  fun index => fates (index + count)

@[simp] theorem later_apply (fates : Nat → Fate Error) (count index : Nat) :
    later fates count index = fates (index + count) := rfl

theorem later_later (fates : Nat → Fate Error) (first second : Nat) :
    later (later fates first) second = later fates (first + second) := by
  funext index
  simp only [later_apply]
  congr 1
  omega

def Uncut (fates : Nat → Fate Error) : Prop := ∀ index, fates index ≠ .crash

theorem Uncut.later {fates : Nat → Fate Error} (uncut : Uncut fates) (count : Nat) :
    Uncut (later fates count) := fun index => uncut (index + count)

def AllServed (fates : Nat → Fate Error) (count : Nat) : Prop :=
  ∀ index, index < count → fates index = .served

theorem allServed_zero (fates : Nat → Fate Error) : AllServed fates 0 := by
  intro index below
  omega

theorem allServed_succ {fates : Nat → Fate Error} {count : Nat} :
    AllServed fates (count + 1) ↔ fates 0 = .served ∧ AllServed (later fates 1) count := by
  constructor
  · intro all
    exact ⟨all 0 (by omega), fun index below => all (index + 1) (by omega)⟩
  · rintro ⟨first, rest⟩ index below
    cases index with
    | zero => exact first
    | succ index => exact rest index (by omega)

theorem allServed_add (fates : Nat → Fate Error) (first second : Nat) :
    AllServed fates (first + second) ↔
      AllServed fates first ∧ AllServed (later fates first) second := by
  constructor
  · intro all
    refine ⟨fun index below => all index (by omega), fun index below => ?_⟩
    exact all (index + first) (by omega)
  · rintro ⟨early, late⟩ index below
    by_cases before : index < first
    · exact early index before
    · have found := late (index - first) (by omega)
      rw [later_apply, Nat.sub_add_cancel (by omega)] at found
      exact found

section Call

variable (serve : (command : Command) → σ → Reply command × σ) {fates : Nat → Fate Error}
  (command : Command) (next : Except Error (Reply command) → Program Reply Error α) (state : σ)

theorem run_served (fate : fates 0 = .served) :
    (call command next).run (faulty serve) (fates, state) =
      (next (.ok (serve command state).1)).run (faulty serve)
        (later fates 1, (serve command state).2) := by
  simp only [run, faulty, fate]
  rfl

theorem run_refused {error : Error} (fate : fates 0 = .refused error) :
    (call command next).run (faulty serve) (fates, state) =
      (next (.error error)).run (faulty serve) (later fates 1, state) := by
  simp only [run, faulty, fate]
  rfl

theorem run_lost {error : Error} (fate : fates 0 = .lost error) :
    (call command next).run (faulty serve) (fates, state) =
      (next (.error error)).run (faulty serve) (later fates 1, (serve command state).2) := by
  simp only [run, faulty, fate]
  rfl

theorem run_crash (fate : fates 0 = .crash) :
    (call command next).run (faulty serve) (fates, state) = (none, later fates 1, state) := by
  simp only [run, faulty, fate]
  rfl

theorem run_request_faulty :
    (request command : Program Reply Error _).run (faulty serve) (fates, state) =
      match fates 0 with
      | .served => (some (.ok (serve command state).1), later fates 1, (serve command state).2)
      | .refused error => (some (.error error), later fates 1, state)
      | .lost error => (some (.error error), later fates 1, (serve command state).2)
      | .crash => (none, later fates 1, state) := by
  unfold request
  cases fate : fates 0 with
  | served => exact run_served serve command _ state fate
  | refused error => exact run_refused serve command _ state fate
  | lost error => exact run_lost serve command _ state fate
  | crash => exact run_crash serve command _ state fate

end Call

theorem run_faulty_served (serve : (command : Command) → σ → Reply command × σ)
    (program : Program Reply Error α) (state : σ) :
    program.run (faulty serve) (fun _ => .served, state) =
      ((program.run (reliable serve) state).1, fun _ => .served,
        (program.run (reliable serve) state).2) := by
  induction program generalizing state with
  | done value => rfl
  | fail error => rfl
  | halt => rfl
  | call command next ih =>
      rw [run_served serve command next state rfl]
      exact ih (.ok (serve command state).1) (serve command state).2

/-- The state after commands that are all sent unless the sender is cut off. -/
def deliver (serve : (command : Command) → σ → Reply command × σ) :
    (Nat → Fate Error) → List Command → σ → σ
  | _, [], state => state
  | fates, command :: rest, state =>
      match fates 0 with
      | .served => deliver serve (later fates 1) rest (serve command state).2
      | .refused _ => deliver serve (later fates 1) rest state
      | .lost _ => deliver serve (later fates 1) rest (serve command state).2
      | .crash => state

section Batch

variable (serve : (command : Command) → σ → Reply command × σ)

theorem run_batchFrom_state (failed : Option Error) (commands : List Command)
    (fates : Nat → Fate Error) (state : σ) :
    ((batchFrom failed commands : Program Reply Error Unit).run (faulty serve) (fates, state)).2.2 =
      deliver serve fates commands state := by
  induction commands generalizing failed fates state with
  | nil => cases failed <;> rfl
  | cons command rest ih =>
      simp only [batchFrom, deliver]
      cases fate : fates 0 with
      | served => rw [run_served serve command _ state fate]; exact ih _ _ _
      | refused error => rw [run_refused serve command _ state fate]; exact ih _ _ _
      | lost error => rw [run_lost serve command _ state fate]; exact ih _ _ _
      | crash => rw [run_crash serve command _ state fate]

theorem run_batch_state (commands : List Command) (fates : Nat → Fate Error) (state : σ) :
    ((batch commands : Program Reply Error Unit).run (faulty serve) (fates, state)).2.2 =
      deliver serve fates commands state :=
  run_batchFrom_state serve none commands fates state

theorem run_batchFrom_uncut (failed : Option Error) (commands : List Command)
    {fates : Nat → Fate Error} (uncut : Uncut fates) (state : σ) :
    ∃ result, (batchFrom failed commands : Program Reply Error Unit).run (faulty serve)
        (fates, state) =
          (some result, later fates commands.length, deliver serve fates commands state) ∧
      (result = .ok () ↔ failed = none ∧ AllServed fates commands.length) := by
  induction commands generalizing failed fates state with
  | nil =>
      cases failed with
      | none => exact ⟨.ok (), rfl, by simp [allServed_zero]⟩
      | some error => exact ⟨.error error, rfl, by simp⟩
  | cons command rest ih =>
      simp only [batchFrom, deliver, List.length_cons, allServed_succ]
      cases fate : fates 0 with
      | served =>
          obtain ⟨result, ended, ok⟩ := ih failed (uncut.later 1) (serve command state).2
          refine ⟨result, ?_, by simpa using ok⟩
          rw [run_served serve command _ state fate, ended, later_later, Nat.add_comm]
      | refused error =>
          obtain ⟨result, ended, ok⟩ :=
            ih (failed.or (some error)) (uncut.later 1) state
          refine ⟨result, ?_, ?_⟩
          · rw [run_refused serve command _ state fate, ended, later_later, Nat.add_comm]
          · simpa using ok
      | lost error =>
          obtain ⟨result, ended, ok⟩ :=
            ih (failed.or (some error)) (uncut.later 1) (serve command state).2
          refine ⟨result, ?_, ?_⟩
          · rw [run_lost serve command _ state fate, ended, later_later, Nat.add_comm]
          · simpa using ok
      | crash => exact absurd fate (uncut 0)

theorem run_collectFrom_uncut (command : ι → Command)
    (read : (item : ι) → Reply (command item) → β) (failed : Option Error) (items : List ι)
    {fates : Nat → Fate Error} (uncut : Uncut fates) (state : σ) :
    ∃ result, (collectFrom command read failed items : Program Reply Error (List β)).run
        (faulty serve) (fates, state) =
          (some result, later fates items.length,
            deliver serve fates (items.map command) state) ∧
      (failed = none ∧ AllServed fates items.length →
        result = .ok (gathered serve command read items state).1) ∧
      (¬(failed = none ∧ AllServed fates items.length) → ∃ error, result = .error error) := by
  induction items generalizing failed fates state with
  | nil =>
      cases failed with
      | none => exact ⟨.ok [], rfl, by simp [gathered], by simp [allServed_zero]⟩
      | some error => exact ⟨.error error, rfl, by simp, by simp⟩
  | cons item rest ih =>
      simp only [collectFrom, deliver, List.map_cons, List.length_cons, allServed_succ]
      cases fate : fates 0 with
      | served =>
          obtain ⟨result, ended, ok, bad⟩ :=
            ih failed (uncut.later 1) (serve (command item) state).2
          rw [run_served serve (command item) _ state fate]
          simp only [run_bind, ended]
          cases result with
          | ok tail =>
              refine ⟨.ok (read item (serve (command item) state).1 :: tail), ?_, ?_, ?_⟩
              · simp only [resume_ok, run_done, later_later]
                rw [Nat.add_comm]
              · rintro ⟨none, _, others⟩
                have same := ok ⟨none, others⟩
                cases same
                rfl
              · intro unserved
                obtain ⟨error, same⟩ := bad fun all => unserved ⟨all.1, trivial, all.2⟩
                cases same
          | error error =>
              refine ⟨.error error, ?_, ?_, fun _ => ⟨error, rfl⟩⟩
              · simp only [resume_error, later_later]
                rw [Nat.add_comm]
              · rintro ⟨none, _, others⟩
                have same := ok ⟨none, others⟩
                cases same
      | refused error =>
          obtain ⟨result, ended, _, bad⟩ := ih (failed.or (some error)) (uncut.later 1) state
          refine ⟨result, ?_, by simp, fun _ => bad (by simp)⟩
          rw [run_refused serve (command item) _ state fate, ended, later_later, Nat.add_comm]
      | lost error =>
          obtain ⟨result, ended, _, bad⟩ :=
            ih (failed.or (some error)) (uncut.later 1) (serve (command item) state).2
          refine ⟨result, ?_, by simp, fun _ => bad (by simp)⟩
          rw [run_lost serve (command item) _ state fate, ended, later_later, Nat.add_comm]
      | crash => exact absurd fate (uncut 0)

theorem deliver_keeps (keeps : σ → Prop) (commands : List Command) (fates : Nat → Fate Error)
    (step : ∀ command ∈ commands, ∀ current, keeps current → keeps (serve command current).2)
    {state : σ} (start : keeps state) : keeps (deliver serve fates commands state) := by
  induction commands generalizing fates state with
  | nil => exact start
  | cons command rest ih =>
      have later := fun other member => step other (List.mem_cons_of_mem _ member)
      have after := step command List.mem_cons_self state start
      simp only [deliver]
      cases fates 0 with
      | served => exact ih _ later after
      | refused error => exact ih _ later start
      | lost error => exact ih _ later after
      | crash => exact start

/-- A reading of the state that each delivered command moves in one direction only. -/
theorem deliver_iff (reading : σ → Prop) (moves : Command → Prop)
    (commands : List Command) {fates : Nat → Fate Error} (uncut : Uncut fates) (state : σ)
    (step : ∀ command ∈ commands, ∀ current,
      reading (serve command current).2 ↔ reading current ∨ moves command) :
    reading (deliver serve fates commands state) ↔
      reading state ∨
        ∃ index command, commands[index]? = some command ∧ moves command ∧
          (fates index).applies = true := by
  induction commands generalizing fates state with
  | nil => simp [deliver]
  | cons command rest ih =>
      have tail := fun current => ih (uncut.later 1) current fun other member =>
        step other (List.mem_cons_of_mem _ member)
      have first := step command List.mem_cons_self state
      have split : (∃ index other, (command :: rest)[index]? = some other ∧ moves other ∧
          (fates index).applies = true) ↔
            (moves command ∧ (fates 0).applies = true) ∨
              ∃ index other, rest[index]? = some other ∧ moves other ∧
                (later fates 1 index).applies = true := by
        constructor
        · rintro ⟨index, other, found, moved, applied⟩
          cases index with
          | zero =>
              simp only [List.getElem?_cons_zero, Option.some.injEq] at found
              subst found
              exact Or.inl ⟨moved, applied⟩
          | succ index => exact Or.inr ⟨index, other, by simpa using found, moved, applied⟩
        · rintro (⟨moved, applied⟩ | ⟨index, other, found, moved, applied⟩)
          · exact ⟨0, command, rfl, moved, applied⟩
          · exact ⟨index + 1, other, by simpa using found, moved, applied⟩
      rw [split]
      simp only [deliver]
      cases fate : fates 0 with
      | served =>
          simp only
          rw [tail, first]
          simp only [Fate.applies, and_true, or_assoc]
      | refused error =>
          simp only
          rw [tail]
          simp [Fate.applies]
      | lost error =>
          simp only
          rw [tail, first]
          simp only [Fate.applies, and_true, or_assoc]
      | crash => exact absurd fate (uncut 0)

end Batch

end Program
