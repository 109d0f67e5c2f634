import Mathlib.Data.List.Nodup
import Mathlib.Logic.Function.Basic

/-!
A cell that clients update by reading it and writing it back later.  A write is stale when the
cell was written since its client read it; without stale writes the updates are serial.
-/

/-- `order` are the writers so far, `seen` counts the writes before the read of a client. -/
structure SharedCell (ι σ : Type) where
  value : σ
  order : List ι
  seen : ι → Nat
  stale : List ι

namespace SharedCell

variable {ι σ : Type}

inductive Turn (σ : Type)
  | ready
  | holding (found : σ)
  | wrote

def read [DecidableEq ι] (cell : SharedCell ι σ) (client : ι) : SharedCell ι σ :=
  { cell with seen := Function.update cell.seen client cell.order.length }

def write (cell : SharedCell ι σ) (client : ι) (value : σ) : SharedCell ι σ :=
  { cell with
    value := value
    order := cell.order ++ [client]
    stale := if cell.seen client = cell.order.length then cell.stale else client :: cell.stale }

def replay (update : ι → σ → Option σ) (order : List ι) (start : σ) : σ :=
  order.foldl (fun value client => (update client value).getD value) start

structure Sound (update : ι → σ → Option σ) (start : σ) (cell : SharedCell ι σ)
    (turns : ι → Turn σ) : Prop where
  wrote : ∀ client, client ∈ cell.order ↔ turns client = .wrote
  once : cell.order.Nodup
  bound : ∀ client found, turns client = .holding found → cell.seen client ≤ cell.order.length
  current : ∀ client found, turns client = .holding found →
    cell.seen client = cell.order.length → found = cell.value
  early : ∀ client found, turns client = .holding found → cell.seen client = 0 → found = start
  serial : cell.stale = [] → cell.value = replay update cell.order start
  fewer : cell.stale.length ≤ cell.order.length - 1
  last : ∀ client rest, cell.stale = client :: rest → cell.order.length = 2 →
    update client start = some cell.value

variable {update : ι → σ → Option σ} {start : σ} {cell : SharedCell ι σ} {turns : ι → Turn σ}

theorem Sound.initial (seen : ι → Nat) :
    Sound update start ⟨start, [], seen, []⟩ fun _ => .ready where
  wrote := by simp
  once := List.nodup_nil
  bound := by simp
  current := by simp
  early := by simp
  serial := fun _ => rfl
  fewer := Nat.le_refl 0
  last := by simp

theorem Sound.start_of_unwritten (sound : Sound update start cell turns)
    (unwritten : cell.order.length = 0) : cell.value = start := by
  have fresh : cell.stale = [] := by
    have fewer := sound.fewer
    rw [unwritten] at fewer
    exact List.length_eq_zero_iff.mp (Nat.le_zero.mp fewer)
  rw [sound.serial fresh, List.length_eq_zero_iff.mp unwritten]
  rfl

variable [DecidableEq ι]

theorem Sound.read (sound : Sound update start cell turns) {client : ι}
    (ready : turns client = .ready) :
    Sound update start (cell.read client)
      (Function.update turns client (.holding cell.value)) := by
  refine ⟨?_, sound.once, ?_, ?_, ?_, sound.serial, sound.fewer, sound.last⟩
  · intro other
    by_cases same : other = client
    · subst same
      rw [Function.update_self]
      refine (sound.wrote other).trans ?_
      simp [ready]
    · rw [Function.update_of_ne same]
      exact sound.wrote other
  · intro other found holds
    by_cases same : other = client
    · subst same
      simp [SharedCell.read]
    · rw [Function.update_of_ne same] at holds
      simp only [SharedCell.read, Function.update_of_ne same]
      exact sound.bound other found holds
  · intro other found holds latest
    by_cases same : other = client
    · subst same
      rw [Function.update_self] at holds
      cases holds
      rfl
    · rw [Function.update_of_ne same] at holds
      simp only [SharedCell.read, Function.update_of_ne same] at latest
      exact sound.current other found holds latest
  · intro other found holds first
    by_cases same : other = client
    · subst same
      rw [Function.update_self] at holds
      cases holds
      simp only [SharedCell.read, Function.update_self] at first
      exact sound.start_of_unwritten first
    · rw [Function.update_of_ne same] at holds
      simp only [SharedCell.read, Function.update_of_ne same] at first
      exact sound.early other found holds first

theorem Sound.write (sound : Sound update start cell turns) {client : ι} {found value : σ}
    (holds : turns client = .holding found) (updated : update client found = some value) :
    Sound update start (cell.write client value) (Function.update turns client .wrote) := by
  have absent : client ∉ cell.order := by
    intro member
    rw [(sound.wrote client).mp member] at holds
    cases holds
  have seen := sound.bound client found holds
  have still : ∀ other found, Function.update turns client .wrote other = .holding found →
      other ≠ client ∧ turns other = .holding found := by
    intro other found holding
    by_cases same : other = client
    · subst same
      rw [Function.update_self] at holding
      cases holding
    · rw [Function.update_of_ne same] at holding
      exact ⟨same, holding⟩
  refine ⟨?_, ?_, ?_, ?_, ?_, ?_, ?_, ?_⟩
  · intro other
    simp only [SharedCell.write, List.mem_append, List.mem_singleton]
    by_cases same : other = client
    · subst same
      simp
    · simp [same, sound.wrote other]
  · simp only [SharedCell.write]
    exact sound.once.append (List.nodup_singleton client) (by simpa using absent)
  · intro other found holding
    have bound := sound.bound other found (still other found holding).2
    simp only [SharedCell.write, List.length_append, List.length_singleton]
    omega
  · intro other found holding latest
    have bound := sound.bound other found (still other found holding).2
    simp only [SharedCell.write, List.length_append, List.length_singleton] at latest
    omega
  · intro other found holding first
    exact sound.early other found (still other found holding).2 first
  · intro fresh
    simp only [SharedCell.write] at fresh
    split at fresh
    · rename_i latest
      have same := sound.current client found holds latest
      simp only [SharedCell.write, replay, List.foldl_append, List.foldl_cons, List.foldl_nil]
      have before := sound.serial fresh
      unfold replay at before
      rw [← before, ← same, updated]
      rfl
    · cases fresh
  · simp only [SharedCell.write, List.length_append, List.length_singleton]
    have fewer := sound.fewer
    split
    · omega
    · rw [List.length_cons]
      omega
  · intro writer rest stale two
    simp only [SharedCell.write, List.length_append, List.length_singleton] at stale two ⊢
    split at stale
    · have fewer := sound.fewer
      rw [stale, List.length_cons] at fewer
      omega
    · rw [List.cons.injEq] at stale
      rw [← stale.1, ← sound.early client found holds (by omega)]
      exact updated

end SharedCell
