import Oxana.MachineArithmetic
import Oxana.Promotion

/-!
The listings of `storage_internal.rs`: `LRANGE` and `ZRANGE` over an inclusive range that is
computed from an offset and a count.
-/

namespace Oxana

structure QueueListOpts where
  count : Nat
  offset : Nat

/-! The ranges of Redis. -/

-- A negative index counts from the end.
def redisIndex (length : Nat) (index : Int) : Int :=
  if index < 0 then length + index else index

def redisRange {α : Type} (items : List α) (start stop : Int) : List α :=
  let first := (max 0 (redisIndex items.length start)).toNat
  (items.drop first).take (redisIndex items.length stop - first + 1).toNat

theorem redisRange_map {α β : Type} (read : α → β) (items : List α) (start stop : Int) :
    (redisRange items start stop).map read = redisRange (items.map read) start stop := by
  unfold redisRange
  rw [List.length_map, List.map_take, List.map_drop]

theorem redisRange_natCast {α : Type} (items : List α) (start stop : Nat) :
    redisRange items start stop = (items.drop start).take (stop + 1 - start) := by
  have first : redisIndex items.length start = start := if_neg (by omega)
  have last : redisIndex items.length stop = stop := if_neg (by omega)
  unfold redisRange
  rw [first, last]
  dsimp only
  have same : (max 0 (start : Int)).toNat = start := by omega
  rw [same]
  congr 1
  omega

/-! The operations. -/

/-- `start` and `stop`; the sum of the two options is a `usize` of 64 bits. -/
def QueueListOpts.range (build : Build) (opts : QueueListOpts) : Option (Int × Int) := do
  let exclusive ← build.unsigned 64 (opts.offset + opts.count)
  pure (asI64 opts.offset, asI64 (exclusive - 1))

def listIds (build : Build) (ids : List JobId) (opts : QueueListOpts) (store : Store) :
    Option (Except OxanaError (List JobEnvelope)) := do
  let (start, stop) ← opts.range build
  let jobIds := redisRange ids start stop
  if jobIds = [] then pure (.ok []) else (runAlone (StorageInternal.getMany jobIds) store).1

inductive JobList
  | queue (name : String)
  | dead
  | retries
  | scheduled
  deriving DecidableEq

namespace StorageInternal

variable (storage : StorageInternal) (build : Build) (opts : QueueListOpts) (store : Store)

def listQueueJobs (queue : String) : Option (Except OxanaError (List JobEnvelope)) :=
  listIds build (store.lists.get (storage.namespaceQueue queue)) opts store

def listDead : Option (Except OxanaError (List JobEnvelope)) := do
  let (start, stop) ← opts.range build
  pure (.ok ((redisRange store.dead start stop).filterMap fun text => (fromText text).toOption))

def listRetries : Option (Except OxanaError (List JobEnvelope)) :=
  listIds build store.retry.members opts store

def listScheduled : Option (Except OxanaError (List JobEnvelope)) :=
  listIds build store.schedule.members opts store

def list : JobList → Option (Except OxanaError (List JobEnvelope))
  | .queue name => storage.listQueueJobs build opts store name
  | .dead => listDead build opts store
  | .retries => listRetries build opts store
  | .scheduled => listScheduled build opts store

end StorageInternal

/-! What a listing decodes. -/

namespace JobList

def texts (storage : StorageInternal) (store : Store) : JobList → List (Option Payload)
  | .queue name => (store.lists.get (storage.namespaceQueue name)).map store.jobs.get
  | .dead => store.dead.map some
  | .retries => store.retry.members.map store.jobs.get
  | .scheduled => store.schedule.members.map store.jobs.get

def decode (list : JobList) (texts : List (Option Payload)) :
    Except OxanaError (List JobEnvelope) :=
  if list = .dead then .ok (texts.filterMap storedEnvelope) else decodeAll texts

/-- Only the listing of the dead jobs skips a text that cannot be decoded. -/
def Passes (list : JobList) (text : Option Payload) : Prop :=
  list = .dead ∨ undecodable text = false

theorem decode_eq_ok_iff (list : JobList) (texts : List (Option Payload)) :
    list.decode texts = .ok (texts.filterMap storedEnvelope) ↔
      ∀ text ∈ texts, list.Passes text := by
  unfold decode
  split
  · rename_i dead
    exact ⟨fun _ _ _ => .inl dead, fun _ => rfl⟩
  · rename_i alive
    rw [decodeAll_eq]
    split
    · rename_i failed
      obtain ⟨text, member, broken⟩ := List.any_eq_true.mp failed
      constructor
      · intro decoded
        cases decoded
      · intro passes
        rcases passes text member with dead | sound
        · exact absurd dead alive
        · rw [sound] at broken
          exact absurd broken Bool.false_ne_true
    · rename_i sound
      refine ⟨fun _ text member => .inr ?_, fun _ => rfl⟩
      rw [List.any_eq_true] at sound
      by_contra broken
      exact sound ⟨text, member, Bool.eq_true_of_not_eq_false broken⟩

theorem decode_of_ok {list : JobList} {texts : List (Option Payload)} {jobs : List JobEnvelope}
    (decoded : list.decode texts = .ok jobs) :
    jobs = texts.filterMap storedEnvelope ∧ ∀ text ∈ texts, list.Passes text := by
  have exact : jobs = texts.filterMap storedEnvelope := by
    unfold decode at decoded
    split at decoded
    · exact (Except.ok.inj decoded).symm
    · rw [decodeAll_eq] at decoded
      split at decoded
      · cases decoded
      · exact (Except.ok.inj decoded).symm
  exact ⟨exact, (list.decode_eq_ok_iff texts).mp (exact ▸ decoded)⟩

end JobList

theorem fromText_toOption (text : Payload) :
    (fromText text).toOption = storedEnvelope (some text) := by
  cases text <;> rfl

theorem listIds_eq (build : Build) (ids : List JobId) (opts : QueueListOpts) (store : Store) :
    listIds build ids opts store = (opts.range build).map fun range =>
      decodeAll (redisRange (ids.map store.jobs.get) range.1 range.2) := by
  unfold listIds
  cases opts.range build with
  | none => rfl
  | some range =>
      obtain ⟨start, stop⟩ := range
      dsimp only [bind, Option.bind, Option.map]
      rw [← redisRange_map]
      split
      · rename_i empty
        rw [empty]
        rfl
      · unfold StorageInternal.getMany
        rw [runAlone_bind, runAlone_ask, Program.resume_ok, runAlone_ofExcept]
        rfl

namespace StorageInternal

variable (storage : StorageInternal) (build : Build) (list : JobList)

theorem list_eq (opts : QueueListOpts) (store : Store) :
    storage.list build opts store list = (opts.range build).map fun range =>
      list.decode (redisRange (list.texts storage store) range.1 range.2) := by
  cases list with
  | queue name => exact listIds_eq build _ opts store
  | retries => exact listIds_eq build _ opts store
  | scheduled => exact listIds_eq build _ opts store
  | dead =>
      change listDead build opts store = _
      unfold listDead
      cases opts.range build with
      | none => rfl
      | some range =>
          obtain ⟨start, stop⟩ := range
          change some (Except.ok _) = some (Except.ok _)
          rw [JobList.texts, ← redisRange_map, List.filterMap_map]
          congr 3
          funext text
          exact fromText_toOption text

end StorageInternal

/-! The range. -/

def QueueListOpts.Fits (opts : QueueListOpts) : Prop :=
  opts.offset < 2 ^ 63 ∧ opts.offset + opts.count ≤ 2 ^ 63

theorem QueueListOpts.range_of_fits {opts : QueueListOpts} (fits : opts.Fits) (build : Build) :
    opts.range build =
      some ((opts.offset : Int), ((opts.offset + opts.count - 1 : Nat) : Int)) := by
  obtain ⟨start, stop⟩ := fits
  unfold range
  rw [build.unsigned_of_lt (by omega), asI64_of_lt start]
  dsimp only [bind, Option.bind, pure]
  rw [asI64_of_lt (by omega)]

theorem QueueListOpts.fits_of_range {opts : QueueListOpts} (sized : opts.offset < 2 ^ 64)
    {start stop : Nat} (range : opts.range .debug = some ((start : Int), (stop : Int))) :
    opts.Fits := by
  have below : opts.offset + opts.count < 2 ^ 64 := by
    refine Build.lt_of_debug fun overflows => ?_
    unfold QueueListOpts.range at range
    rw [overflows] at range
    cases range
  unfold QueueListOpts.range at range
  rw [Build.unsigned_of_lt _ below] at range
  have indices := Prod.mk.inj (Option.some.inj range)
  have first : 0 ≤ asI64 opts.offset := by rw [indices.1]; omega
  have last : 0 ≤ asI64 (opts.offset + opts.count - 1) := by rw [indices.2]; omega
  have small : opts.offset < 2 ^ 63 := by
    have kept := asI64_of_nonneg sized first
    have bounded := asI64_lt opts.offset
    omega
  have top : opts.offset + opts.count - 1 < 2 ^ 63 := by
    have kept := asI64_of_nonneg (by omega) last
    have bounded := asI64_lt (opts.offset + opts.count - 1)
    omega
  refine ⟨small, ?_⟩
  omega

theorem StorageInternal.list_of_fits (storage : StorageInternal) (build : Build) (list : JobList)
    {opts : QueueListOpts} (fits : opts.Fits) (store : Store) :
    storage.list build opts store list = some (list.decode
      (((list.texts storage store).drop opts.offset).take
        (if opts.offset = 0 then max opts.count 1 else opts.count))) := by
  rw [list_eq, opts.range_of_fits fits]
  dsimp only [Option.map]
  rw [redisRange_natCast]
  congr 3
  split <;> omega

/-! The slice. -/

/-- What a listing of the elements at `offset` to `offset + count - 1` returns. -/
structure ReturnsSlice (storage : StorageInternal) (list : JobList) (opts : QueueListOpts)
    (store : Store) : Prop where
  indices : ∀ build, ∃ start stop : Nat, opts.range build = some ((start : Int), (stop : Int))
  slice : ∀ build, storage.list build opts store list =
    some (.ok ((((list.texts storage store).drop opts.offset).take opts.count).filterMap
      storedEnvelope))
  atMost : ∀ build jobs, storage.list build opts store list = some (.ok jobs) →
    jobs.length ≤ opts.count

section Slice

variable {storage : StorageInternal} {list : JobList} {opts : QueueListOpts} {store : Store}

theorem ReturnsSlice.of_slice (fits : opts.Fits)
    (slice : ∀ build, storage.list build opts store list =
      some (.ok ((((list.texts storage store).drop opts.offset).take opts.count).filterMap
        storedEnvelope))) : ReturnsSlice storage list opts store where
  indices build := ⟨_, _, opts.range_of_fits fits build⟩
  slice := slice
  atMost build jobs listed := by
    rw [slice] at listed
    cases listed
    have decoded := List.length_filterMap_le storedEnvelope
      (((list.texts storage store).drop opts.offset).take opts.count)
    have taken := List.length_take_le opts.count ((list.texts storage store).drop opts.offset)
    omega

theorem list_of_nonempty (fits : opts.Fits) (asks : opts.offset = 0 → opts.count ≠ 0)
    (build : Build) : storage.list build opts store list = some (list.decode
      (((list.texts storage store).drop opts.offset).take opts.count)) := by
  rw [storage.list_of_fits build list fits store]
  congr 3
  split
  · rename_i front
    have positive := asks front
    omega
  · rfl

theorem list_of_empty (front : opts.offset = 0) (nothing : opts.count = 0) (build : Build) :
    storage.list build opts store list =
      some (list.decode ((list.texts storage store).take 1)) := by
  have fits : opts.Fits := by
    constructor <;> omega
  rw [storage.list_of_fits build list fits store, front, nothing]
  rfl

/-- A listing returns the slice it was asked for exactly when both indices are within `isize`,
the slice can be decoded, and a listing of no jobs at the offset 0 meets no job there. -/
theorem returnsSlice_iff (sized : opts.offset < 2 ^ 64) :
    ReturnsSlice storage list opts store ↔
      (opts.offset < 2 ^ 63 ∧ opts.offset + opts.count ≤ 2 ^ 63) ∧
      (∀ text ∈ ((list.texts storage store).drop opts.offset).take opts.count,
        list.Passes text) ∧
      (opts.offset = 0 → opts.count = 0 → ∀ text ∈ (list.texts storage store).take 1,
        list.Passes text ∧ storedEnvelope text = none) := by
  constructor
  · intro returns
    obtain ⟨start, stop, range⟩ := returns.indices .debug
    have fits := opts.fits_of_range sized range
    have slice := returns.slice .debug
    refine ⟨fits, ?_, ?_⟩
    · intro text member
      have asks : opts.offset = 0 → opts.count ≠ 0 := by
        intro _ nothing
        rw [nothing, List.take_zero] at member
        cases member
      rw [list_of_nonempty fits asks] at slice
      exact (list.decode_eq_ok_iff _).mp (Option.some.inj slice) text member
    · intro front nothing text member
      rw [list_of_empty front nothing] at slice
      obtain ⟨decoded, passes⟩ := JobList.decode_of_ok (Option.some.inj slice)
      rw [nothing, List.take_zero] at decoded
      exact ⟨passes text member, List.filterMap_eq_nil_iff.mp decoded.symm text member⟩
  · rintro ⟨fits, passes, nobody⟩
    refine .of_slice fits fun build => ?_
    by_cases empty : opts.offset = 0 ∧ opts.count = 0
    · obtain ⟨front, nothing⟩ := empty
      have skipped := nobody front nothing
      have none : ((list.texts storage store).take 1).filterMap storedEnvelope = [] :=
        List.filterMap_eq_nil_iff.mpr fun text member => (skipped text member).2
      rw [list_of_empty front nothing, nothing, List.take_zero,
        (list.decode_eq_ok_iff _).mpr fun text member => (skipped text member).1, none]
      rfl
    · rw [list_of_nonempty fits fun front nothing => empty ⟨front, nothing⟩,
        (list.decode_eq_ok_iff _).mpr passes]

end Slice

/-! A listing of no jobs at the offset 0 returns the first job. -/

def listedStore : Store :=
  { Store.empty with dead := [toText (report .null .skip), .malformed "report"] }

theorem listing_nothing_returns_a_job :
    ¬ ReturnsSlice (workerNode 1) .dead ⟨0, 0⟩ listedStore := by
  intro returns
  have listed : (workerNode 1).list .debug ⟨0, 0⟩ listedStore .dead =
      some (.ok [normalized (report .null .skip)]) := rfl
  have bounded := returns.atMost .debug _ listed
  exact absurd bounded (by decide)

def pagedStore : Store :=
  { heldStore with
    lists := SparseMap.empty.set "oxanus:queue:low" ["broken", "report/7", "missing"]
    jobs := heldStore.jobs.set "broken" (some (.malformed "report"))
    dead := [.malformed "report", toText (report .null .skip)] }

theorem returnsSlice_iff_paged :
    (∀ build, (workerNode 1).list build ⟨2, 1⟩ pagedStore (.queue "low") =
      some (.ok [normalized (report .null .skip)])) ∧
    ReturnsSlice (workerNode 1) .dead ⟨0, 0⟩ pagedStore := by
  have page : ReturnsSlice (workerNode 1) (.queue "low") ⟨2, 1⟩ pagedStore := by
    refine (returnsSlice_iff (by decide)).mpr ⟨⟨by decide, by decide⟩, ?_, ?_⟩
    · intro text member
      have texts : ((JobList.texts (workerNode 1) pagedStore (.queue "low")).drop 1).take 2 =
          [some (toText (report .null .skip)), none] := rfl
      rw [texts] at member
      simp only [List.mem_cons, List.not_mem_nil, or_false] at member
      rcases member with rfl | rfl
      · exact .inr rfl
      · exact .inr rfl
    · intro front
      cases front
  have nobody : ReturnsSlice (workerNode 1) .dead ⟨0, 0⟩ pagedStore := by
    refine (returnsSlice_iff (by decide)).mpr ⟨⟨by decide, by decide⟩, fun _ _ => .inl rfl, ?_⟩
    intro _ _ text member
    have first : (JobList.texts (workerNode 1) pagedStore .dead).take 1 =
        [some (.malformed "report")] := rfl
    rw [first] at member
    rw [List.mem_singleton.mp member]
    exact ⟨.inl rfl, rfl⟩
  exact ⟨page.slice, nobody⟩

end Oxana
