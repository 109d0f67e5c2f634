import Oxana.StateCarried

/-!
The entry that a dead job leaves, compared with what was stored for the job when it was
killed.
-/

namespace Oxana

open Program

/-- A store with, for one job, the text removed last and the entries pushed to the dead list,
each with the text removed before it. -/
structure Watched where
  store : Store
  removed : Option Payload
  buried : List (Option Payload × Payload)

def Watched.after (id : JobId) (watched : Watched) (command : Command) : Watched :=
  let served := (serve command watched.store).2
  match command with
  | .hdel ids =>
      if id ∈ ids then
        { watched with store := served, removed := watched.store.jobs.get id }
      else { watched with store := served }
  | .lpushDead text =>
      if buriedAs id text then
        { watched with store := served, buried := watched.buried ++ [(watched.removed, text)] }
      else { watched with store := served }
  | _ => { watched with store := served }

def serveWatched (id : JobId) (command : Command) (watched : Watched) : command.Reply × Watched :=
  ((serve command watched.store).1, watched.after id command)

structure SparesWatched (id : JobId) (before after : Watched) : Prop where
  store : Spares id before.store after.store
  removed : after.removed = before.removed
  buried : after.buried = before.buried

variable {id : JobId} {notes : JobNotes} {state : Option Json} {before after : Watched}
  {envelope : JobEnvelope} {message : String}

/-! The notes of a job and the watched store. -/

structure WatchedNotes (id : JobId) (notes : JobNotes) (watched : Watched) : Prop where
  noted : Noted (fun text => text) id notes watched.store
  removed : watched.removed = notes.removed
  buried : watched.buried = notes.buried

theorem JobNotes.after_removed (id : JobId) (notes : JobNotes) (command : Command) :
    (notes.after id command).removed = match command with
      | .hdel ids => if id ∈ ids then notes.text else notes.removed
      | _ => notes.removed := by
  cases command with
  | hsetMultiple items =>
      have kept : (notes.each id Prod.fst (fun current item => current.write item.2)
          items).removed = notes.removed := by
        refine JobNotes.each_same JobNotes.removed ?_ items
        exact fun _ _ => rfl
      exact kept
  | hset target text => simp only [JobNotes.after]; split <;> rfl
  | hdel ids => simp only [JobNotes.after]; split <;> rfl
  | execute envelope => simp only [JobNotes.after]; split <;> rfl
  | lpushDead text => simp only [JobNotes.after]; split <;> rfl
  | _ => rfl

theorem JobNotes.after_buried (id : JobId) (notes : JobNotes) (command : Command) :
    (notes.after id command).buried = match command with
      | .lpushDead text =>
          if buriedAs id text then notes.buried ++ [(notes.removed, text)] else notes.buried
      | _ => notes.buried := by
  cases command with
  | hsetMultiple items =>
      have kept : (notes.each id Prod.fst (fun current item => current.write item.2)
          items).buried = notes.buried := by
        refine JobNotes.each_same JobNotes.buried ?_ items
        exact fun _ _ => rfl
      exact kept
  | hset target text => simp only [JobNotes.after]; split <;> rfl
  | hdel ids => simp only [JobNotes.after]; split <;> rfl
  | execute envelope => simp only [JobNotes.after]; split <;> rfl
  | lpushDead text => simp only [JobNotes.after]; split <;> rfl
  | _ => rfl

theorem Watched.after_eq (id : JobId) (watched : Watched) (command : Command) :
    watched.after id command =
      { store := (serve command watched.store).2
        removed := match command with
          | .hdel ids => if id ∈ ids then watched.store.jobs.get id else watched.removed
          | _ => watched.removed
        buried := match command with
          | .lpushDead text =>
              if buriedAs id text then watched.buried ++ [(watched.removed, text)]
              else watched.buried
          | _ => watched.buried } := by
  cases command with
  | hdel ids => simp only [Watched.after]; split <;> rfl
  | lpushDead text => simp only [Watched.after]; split <;> rfl
  | _ => rfl

theorem WatchedNotes.served (notes : JobNotes) (command : Command) (watched : Watched)
    (allowed : (jobMonitor id).allows notes command) (sound : WatchedNotes id notes watched) :
    (jobMonitor id).expects notes command (serveWatched id command watched).1 ∧
      WatchedNotes id ((jobMonitor id).records notes command (serveWatched id command watched).1)
        (serveWatched id command watched).2 := by
  have served := Noted.served (fun _ _ own => own) notes command watched.store allowed sound.noted
  rw [serveKept_id] at served
  obtain ⟨expected, noted⟩ := served
  refine ⟨expected, ?_⟩
  change WatchedNotes id (notes.after id command) (watched.after id command)
  rw [Watched.after_eq]
  refine ⟨noted, ?_, ?_⟩
  · rw [JobNotes.after_removed]
    simp only [sound.noted.text, sound.removed]
  · rw [JobNotes.after_buried]
    simp only [sound.removed, sound.buried]

theorem WatchedNotes.spared (notes : JobNotes) (before after : Watched)
    (spares : SparesWatched id before after) (sound : WatchedNotes id notes before) :
    WatchedNotes id notes after :=
  ⟨sound.noted.spared notes _ _ spares.store, spares.removed.trans sound.removed,
    spares.buried.trans sound.buried⟩

def Watched.noted (id : JobId) (watched : Watched) : JobNotes where
  kept := fun text => text
  text := watched.store.jobs.get id
  seen := statesSeen id watched.store
  removed := watched.removed
  buried := watched.buried

end Oxana
