import Mathlib
import Oxana.PathTree
import Oxana.WorkerRegistry

/-!
The tables of cron workers and of jobs on demand: the names of the types are cut into segments,
and the workers are listed under the modules they are in.
-/

namespace Oxana

open PathTree

/-! The segments of a name. -/

def splitSegments : List Char → List (List Char)
  | [] => [[]]
  | [letter] => [[letter]]
  | letter :: next :: rest =>
      if letter = ':' ∧ next = ':' then [] :: splitSegments rest
      else
        match splitSegments (next :: rest) with
        | [] => [[letter]]
        | first :: others => (letter :: first) :: others

def typeSegments (name : String) : List String :=
  (splitSegments name.toList).map String.ofList

def typeTreeParts (name : String) : List String × String :=
  let segments := typeSegments name
  let split := segments.length - 2
  (segments.take split, "::".intercalate (segments.drop split))

theorem splitSegments_ne_nil (text : List Char) : splitSegments text ≠ [] := by
  fun_cases splitSegments text <;> simp_all

theorem intercalate_splitSegments (text : List Char) :
    [':', ':'].intercalate (splitSegments text) = text := by
  fun_induction splitSegments text with
  | case1 => rfl
  | case2 letter => rfl
  | case3 letter next rest colons ih =>
      obtain ⟨rfl, rfl⟩ := colons
      rw [List.intercalate_cons_of_ne_nil (splitSegments_ne_nil rest), ih]
      rfl
  | case4 letter next rest plain none ih => exact absurd none (splitSegments_ne_nil _)
  | case5 letter next rest plain first others found ih =>
      rw [found] at ih
      rw [List.intercalate_cons_cons_left, ih]

theorem intercalate_typeSegments (name : String) :
    "::".intercalate (typeSegments name) = name := by
  apply String.toList_injective
  have texts : (typeSegments name).map String.toList = splitSegments name.toList := by
    rw [typeSegments, List.map_map]
    conv_rhs => rw [← List.map_id (splitSegments name.toList)]
    apply List.map_congr_left
    intro segment _
    exact String.toList_ofList
  rw [String.toList_intercalate, texts]
  exact intercalate_splitSegments name.toList

theorem intercalate_typeTreeParts (name : String) :
    "::".intercalate ((typeTreeParts name).1 ++ [(typeTreeParts name).2]) = name := by
  have some : typeSegments name ≠ [] := by
    intro none
    exact splitSegments_ne_nil name.toList (List.map_eq_nil_iff.mp none)
  have last : (typeSegments name).drop ((typeSegments name).length - 2) ≠ [] := by
    have length := List.length_pos_iff.mpr some
    rw [Ne, List.drop_eq_nil_iff]
    omega
  conv_rhs => rw [← intercalate_typeSegments name,
    ← List.take_append_drop ((typeSegments name).length - 2) (typeSegments name)]
  unfold typeTreeParts
  dsimp only
  by_cases top : (typeSegments name).take ((typeSegments name).length - 2) = []
  · rw [top, List.nil_append, List.nil_append, String.intercalate_singleton]
  · rw [String.intercalate_append_of_ne_nil top (List.cons_ne_nil _ _),
      String.intercalate_append_of_ne_nil top last, String.intercalate_singleton]

/-! The tables. -/

structure CronWorkerView where
  name : String
  shortName : String
  schedule : String
  queueKey : String
  nextRunMicros : Option Int

structure OnDemandJobView where
  name : String
  shortName : String
  argsTemplateJson : String

abbrev TypeTreeNode (View : Type) := Node String View

def insertTypeTreeEntry {View : Type} (root : TypeTreeNode View) (groupSegments : List String)
    (entry : View) : TypeTreeNode View :=
  root.insert entry groupSegments

abbrev CronRow := Row String CronWorkerView

abbrev OnDemandRow := Row String OnDemandJobView

def cronWorkerView (text : (Int → Nat → Option Int) → String) (now : Int)
    (worker : CronWorkerInfo) : CronWorkerView where
  name := worker.name
  shortName := (typeTreeParts worker.name).2
  schedule := text worker.schedule
  queueKey := worker.queueKey
  nextRunMicros := worker.schedule now 0

def buildCronRows (text : (Int → Nat → Option Int) → String)
    (cronWorkers : List CronWorkerInfo) (now : Int) : List CronRow :=
  let root : TypeTreeNode CronWorkerView := cronWorkers.foldl (fun root worker =>
    insertTypeTreeEntry root (typeTreeParts worker.name).1 (cronWorkerView text now worker)) .new
  root.flatten 0

def onDemandJobView (pretty : Json → String) (job : OnDemandJobInfo) : OnDemandJobView where
  name := job.name
  shortName := (typeTreeParts job.name).2
  argsTemplateJson := pretty job.argsTemplate

def buildOnDemandRows (pretty : Json → String) (onDemandJobs : List OnDemandJobInfo) :
    List OnDemandRow :=
  let root : TypeTreeNode OnDemandJobView := onDemandJobs.foldl (fun root job =>
    insertTypeTreeEntry root (typeTreeParts job.name).1 (onDemandJobView pretty job)) .new
  root.flatten 0

/-! What the tables show. -/

/-- Every view is shown once under the modules of its name, the modules and the short name
spell the name, and modules are shown once each, in order, where something is in them. -/
structure ShowsNames {View : Type} (nameOf shortNameOf : View → String) (views : List View)
    (rows : List (Row String View)) : Prop where
  shows : Shows (fun view => (typeTreeParts (nameOf view)).1) views rows
  spelled : ∀ entry ∈ readEntries [] rows,
    "::".intercalate (entry.1 ++ [shortNameOf entry.2]) = nameOf entry.2

theorem showsNames_of_shows {View : Type} {nameOf shortNameOf : View → String}
    {views : List View} {rows : List (Row String View)}
    (shows : Shows (fun view => (typeTreeParts (nameOf view)).1) views rows)
    (short : ∀ view ∈ views, shortNameOf view = (typeTreeParts (nameOf view)).2) :
    ShowsNames nameOf shortNameOf views rows where
  shows := shows
  spelled := by
    rintro ⟨path, view⟩ member
    have listed : view ∈ listedAt path (readEntries [] rows) :=
      List.mem_map.mpr ⟨(path, view), List.mem_filter.mpr ⟨member, decide_eq_true rfl⟩, rfl⟩
    rw [shows.entries path] at listed
    obtain ⟨known, own⟩ := List.mem_filter.mp listed
    have groups := of_decide_eq_true own
    change "::".intercalate (path ++ [shortNameOf view]) = nameOf view
    rw [short view known, ← groups]
    exact intercalate_typeTreeParts (nameOf view)

/-- The tables of a catalog can be read back: they show its cron workers and its jobs on demand
under their full names, in the order of the catalog within a module. -/
theorem catalog_rows_shown (text : (Int → Nat → Option Int) → String) (pretty : Json → String)
    (catalog : WorkerCatalog) (now : Int) :
    ShowsNames CronWorkerView.name CronWorkerView.shortName
        (catalog.cronWorkers.map (cronWorkerView text now))
        (buildCronRows text catalog.cronWorkers now) ∧
      ShowsNames OnDemandJobView.name OnDemandJobView.shortName
        (catalog.onDemandJobs.map (onDemandJobView pretty))
        (buildOnDemandRows pretty catalog.onDemandJobs) := by
  constructor
  · apply showsNames_of_shows
    · have built := build_shows (fun view : CronWorkerView => (typeTreeParts view.name).1)
        (catalog.cronWorkers.map (cronWorkerView text now))
      rw [build, List.foldl_map] at built
      exact built
    · intro view member
      obtain ⟨worker, _, rfl⟩ := List.mem_map.mp member
      rfl
  · apply showsNames_of_shows
    · have built := build_shows (fun view : OnDemandJobView => (typeTreeParts view.name).1)
        (catalog.onDemandJobs.map (onDemandJobView pretty))
      rw [build, List.foldl_map] at built
      exact built
    · intro view member
      obtain ⟨job, _, rfl⟩ := List.mem_map.mp member
      rfl

end Oxana
