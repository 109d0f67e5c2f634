import Oxana.ListSlices
import Oxana.QueueDashboard

/-!
The job lists of the dashboard (`handlers.rs` of `oxana-web`): the jobs of a queue and the
scheduled, dead and retried jobs, shown in pages.
-/

namespace Oxana

/-! Windows of a list of which some elements are shown. -/

section Windows

variable {α β : Type} (shown : α → Option β)

def unbroken (items : List α) : Nat := (items.takeWhile fun item => (shown item).isSome).length

theorem length_shown_take_iff (items : List α) (count : Nat) :
    ((items.take count).filterMap shown).length = count ↔ count ≤ unbroken shown items := by
  induction items generalizing count with
  | nil => simp [unbroken, eq_comm]
  | cons item rest ih =>
      cases count with
      | zero => simp
      | succ count =>
          unfold unbroken at ih ⊢
          cases found : shown item with
          | none =>
              have bounded := List.length_filterMap_le shown (rest.take count)
              have taken := List.length_take_le count rest
              rw [List.take_succ_cons, List.filterMap_cons_none found,
                List.takeWhile_cons_of_neg (by simp [found]), List.length_nil]
              omega
          | some value =>
              rw [List.take_succ_cons, List.filterMap_cons_some found,
                List.takeWhile_cons_of_pos (by simp [found]), List.length_cons,
                List.length_cons, Nat.add_right_cancel_iff, Nat.add_le_add_iff_right]
              exact ih count

theorem unbroken_drop (items : List α) {count : Nat} (within : count ≤ unbroken shown items) :
    unbroken shown (items.drop count) = unbroken shown items - count := by
  induction items generalizing count with
  | nil => rw [List.drop_nil]; unfold unbroken; simp
  | cons item rest ih =>
      cases count with
      | zero => rfl
      | succ count =>
          unfold unbroken at ih within ⊢
          cases found : shown item with
          | none =>
              rw [List.takeWhile_cons_of_neg (by simp [found]), List.length_nil] at within
              omega
          | some value =>
              rw [List.takeWhile_cons_of_pos (by simp [found]), List.length_cons] at within ⊢
              rw [List.drop_succ_cons, ih (by omega)]
              omega

theorem unbroken_le_length (items : List α) : unbroken shown items ≤ items.length :=
  (List.takeWhile_prefix _).length_le

theorem take_shown (items : List α) {count : Nat} (within : count ≤ unbroken shown items) :
    ((items.take (count + 1)).filterMap shown).take count =
      (items.take count).filterMap shown := by
  have full := (length_shown_take_iff shown items count).mpr within
  rw [List.take_add, List.filterMap_append]
  exact List.take_left' full

end Windows

/-! The handlers. -/

def jobsPerPage : Nat := 50

def listOpts (build : Build) (page : Nat) : Option QueueListOpts := do
  let offset ← build.unsigned 64 ((page - 1) * jobsPerPage)
  pure { count := jobsPerPage + 1, offset := offset }

def Catalog.isDynamicParentQueue (catalog : Catalog) (queueKey : String) : Bool :=
  !queueKey.toList.contains '#' &&
    catalog.queues.any fun queue => queue.key == queueKey && queue.dynamic

structure JobPage where
  jobs : List JobEnvelope
  page : Nat
  total : Nat
  hasNext : Bool

def JobPage.of (jobs : List JobEnvelope) (page total : Nat) : JobPage where
  jobs := jobs.take jobsPerPage
  page := page
  total := total
  hasNext := decide (jobsPerPage < jobs.length)

inductive Response
  | redirect
  | page (shown : JobPage)

section Handlers

variable (storage : StorageInternal) (build : Build) (store : Store)

/-- The body that the handlers share; `total` is what is read before the jobs are listed. -/
def jobPage (list : JobList) (total : Except OxanaError Nat) (page : Nat) :
    Option (Except OxanaError Response) := do
  let opts ← listOpts build page
  match total with
  | .error error => pure (.error error)
  | .ok total => do
      let listed ← storage.list build opts store list
      pure (listed.map fun jobs => .page (.of jobs page total))

def scheduledJobs (page : Nat) : Option (Except OxanaError Response) :=
  jobPage storage build store .scheduled (.ok store.schedule.members.length) (max page 1)

def deadJobs (page : Nat) : Option (Except OxanaError Response) :=
  jobPage storage build store .dead (.ok store.dead.length) (max page 1)

def retryJobs (page : Nat) : Option (Except OxanaError Response) :=
  jobPage storage build store .retries (.ok store.retry.members.length) (max page 1)

def queueDetail (catalog : Catalog) (reads : Except OxanaError Unit) (queueKey : String)
    (page : Nat) : Option (Except OxanaError Response) :=
  if catalog.isDynamicParentQueue queueKey then some (.ok .redirect)
  else
    jobPage storage build store (.queue queueKey)
      (reads.map fun _ => (store.lists.get (storage.namespaceQueue queueKey)).length) (max page 1)

end Handlers

/-- A view that lists jobs; the page of a queue does if the queue is no dynamic parent. -/
inductive JobView (catalog : Catalog)
  | scheduled
  | dead
  | retries
  | queue (key : String) (lists : catalog.isDynamicParentQueue key = false)

namespace JobView

variable {catalog : Catalog}

def list : JobView catalog → JobList
  | .scheduled => .scheduled
  | .dead => .dead
  | .retries => .retries
  | .queue key _ => .queue key

def render (view : JobView catalog) (storage : StorageInternal) (build : Build)
    (reads : Except OxanaError Unit) (store : Store) (page : Nat) :
    Option (Except OxanaError Response) :=
  match view with
  | .scheduled => scheduledJobs storage build store page
  | .dead => deadJobs storage build store page
  | .retries => retryJobs storage build store page
  | .queue key _ => queueDetail storage build store catalog reads key page

def Answers (view : JobView catalog) (reads : Except OxanaError Unit) : Prop :=
  match view with
  | .queue _ _ => reads = .ok ()
  | _ => True

end JobView

inductive Visits (render : Nat → Option (Except OxanaError Response)) : Nat → List JobPage → Prop
  | last {number : Nat} {page : JobPage} (renders : render number = some (.ok (.page page)))
      (ends : page.hasNext = false) : Visits render number [page]
  | more {number : Nat} {page : JobPage} {pages : List JobPage}
      (renders : render number = some (.ok (.page page))) (goesOn : page.hasNext = true)
      (rest : Visits render (number + 1) pages) : Visits render number (page :: pages)

/-- Visiting all pages shows each of the jobs once, in their order. -/
def ShowsOnce (render : Nat → Option (Except OxanaError Response)) (jobs : List JobEnvelope) :
    Prop :=
  ∃ pages, Visits render 1 pages ∧ pages.flatMap JobPage.jobs = jobs ∧
    ∀ page ∈ pages, page.jobs.length ≤ jobsPerPage

/-- The number of elements that the visited pages read: a page is the last one when it does
not decode all of the `jobsPerPage + 1` elements it reads. -/
def reached (texts : List (Option Payload)) : Nat :=
  jobsPerPage * max 1 ((unbroken storedEnvelope texts + (jobsPerPage - 1)) / jobsPerPage) + 1

theorem reached_last {texts : List (Option Payload)}
    (ends : unbroken storedEnvelope texts ≤ jobsPerPage) : reached texts = jobsPerPage + 1 := by
  unfold reached jobsPerPage at *
  omega

theorem reached_more {texts : List (Option Payload)}
    (goesOn : jobsPerPage < unbroken storedEnvelope texts) :
    reached texts = jobsPerPage + reached (texts.drop jobsPerPage) := by
  unfold reached
  rw [unbroken_drop storedEnvelope texts (Nat.le_of_lt goesOn)]
  unfold jobsPerPage at *
  omega

/-! One page. -/

def window (texts : List (Option Payload)) (skipped : Nat) : List (Option Payload) :=
  (texts.drop (skipped * jobsPerPage)).take (jobsPerPage + 1)

theorem hasNext_window (texts : List (Option Payload)) (skipped page total : Nat) :
    (JobPage.of ((window texts skipped).filterMap storedEnvelope) page total).hasNext = true ↔
      jobsPerPage < unbroken storedEnvelope (texts.drop (skipped * jobsPerPage)) := by
  have bounded := List.length_filterMap_le storedEnvelope (window texts skipped)
  have taken : (window texts skipped).length ≤ jobsPerPage + 1 := List.length_take_le _ _
  have full := length_shown_take_iff storedEnvelope (texts.drop (skipped * jobsPerPage))
    (jobsPerPage + 1)
  unfold JobPage.of
  rw [decide_eq_true_iff, Nat.lt_iff_add_one_le, Nat.lt_iff_add_one_le, ← full]
  unfold window at *
  omega

section Views

variable {catalog : Catalog} {view : JobView catalog} {storage : StorageInternal} {store : Store}
variable {reads : Except OxanaError Unit} {build : Build}

theorem JobView.answers_of_render {number : Nat} {response : Response}
    (renders : view.render storage build reads store number = some (.ok response)) :
    view.Answers reads := by
  cases view with
  | scheduled => trivial
  | dead => trivial
  | retries => trivial
  | queue key lists =>
      change queueDetail storage build store catalog reads key number = some (.ok response)
        at renders
      unfold queueDetail at renders
      rw [lists, if_neg Bool.false_ne_true] at renders
      unfold jobPage at renders
      cases reads with
      | ok done => rfl
      | error error =>
          cases found : listOpts build (max number 1) with
          | none => rw [found] at renders; cases renders
          | some opts => rw [found] at renders; cases renders

theorem JobView.render_eq (answers : view.Answers reads)
    (held : (view.list.texts storage store).length < 2 ^ 62) {skipped : Nat}
    (within : skipped * jobsPerPage ≤ (view.list.texts storage store).length) :
    view.render storage build reads store (skipped + 1) =
      some ((view.list.decode (window (view.list.texts storage store) skipped)).map fun jobs =>
        .page (.of jobs (skipped + 1) (view.list.texts storage store).length)) := by
  have shared : view.render storage build reads store (skipped + 1) =
      jobPage storage build store view.list (.ok (view.list.texts storage store).length)
        (skipped + 1) := by
    have first : max (skipped + 1) 1 = skipped + 1 := by omega
    cases view with
    | scheduled =>
        change scheduledJobs storage build store (skipped + 1) = _
        unfold scheduledJobs
        rw [first, JobView.list, JobList.texts, List.length_map]
    | dead =>
        change deadJobs storage build store (skipped + 1) = _
        unfold deadJobs
        rw [first, JobView.list, JobList.texts, List.length_map]
    | retries =>
        change retryJobs storage build store (skipped + 1) = _
        unfold retryJobs
        rw [first, JobView.list, JobList.texts, List.length_map]
    | queue key lists =>
        change queueDetail storage build store catalog reads key (skipped + 1) = _
        have done : reads = .ok () := answers
        unfold queueDetail
        rw [lists, if_neg Bool.false_ne_true, first, done, JobView.list, JobList.texts,
          List.length_map]
        rfl
  have opts : listOpts build (skipped + 1) =
      some { count := jobsPerPage + 1, offset := skipped * jobsPerPage } := by
    unfold listOpts
    rw [Nat.add_sub_cancel, build.unsigned_of_lt (by omega)]
    rfl
  have fits : QueueListOpts.Fits { count := jobsPerPage + 1, offset := skipped * jobsPerPage } := by
    constructor <;> unfold jobsPerPage at * <;> dsimp only <;> omega
  rw [shared]
  unfold jobPage
  rw [opts]
  dsimp only [bind, Option.bind]
  rw [list_of_nonempty fits fun _ => Nat.succ_ne_zero _]
  rfl

/-! All pages. -/

theorem drop_succ_page (texts : List (Option Payload)) (skipped : Nat) :
    texts.drop ((skipped + 1) * jobsPerPage) =
      (texts.drop (skipped * jobsPerPage)).drop jobsPerPage := by
  rw [List.drop_drop, Nat.add_mul, Nat.one_mul]

theorem within_succ {texts : List (Option Payload)} {skipped : Nat}
    (goesOn : jobsPerPage < unbroken storedEnvelope (texts.drop (skipped * jobsPerPage))) :
    (skipped + 1) * jobsPerPage ≤ texts.length := by
  have bounded := unbroken_le_length storedEnvelope (texts.drop (skipped * jobsPerPage))
  rw [List.length_drop] at bounded
  rw [Nat.add_mul, Nat.one_mul]
  omega

def readFrom (texts : List (Option Payload)) (skipped : Nat) : List (Option Payload) :=
  (texts.drop (skipped * jobsPerPage)).take (reached (texts.drop (skipped * jobsPerPage)))

theorem readFrom_last {texts : List (Option Payload)} {skipped : Nat}
    (ends : unbroken storedEnvelope (texts.drop (skipped * jobsPerPage)) ≤ jobsPerPage) :
    readFrom texts skipped = window texts skipped := by
  unfold readFrom window
  rw [reached_last ends]

theorem readFrom_more {texts : List (Option Payload)} {skipped : Nat}
    (goesOn : jobsPerPage < unbroken storedEnvelope (texts.drop (skipped * jobsPerPage))) :
    readFrom texts skipped =
      (texts.drop (skipped * jobsPerPage)).take jobsPerPage ++ readFrom texts (skipped + 1) := by
  unfold readFrom
  rw [reached_more goesOn, List.take_add, ← drop_succ_page]

theorem mem_window {texts : List (Option Payload)} {skipped : Nat} {text : Option Payload}
    (member : text ∈ (texts.drop (skipped * jobsPerPage)).take jobsPerPage) :
    text ∈ window texts skipped :=
  (List.take_sublist_take_left (Nat.le_succ jobsPerPage)).subset member

theorem window_subset_readFrom {texts : List (Option Payload)} {skipped : Nat}
    {text : Option Payload} (member : text ∈ window texts skipped) :
    text ∈ readFrom texts skipped := by
  refine (List.take_sublist_take_left ?_).subset member
  unfold reached jobsPerPage
  omega

variable (build) in
theorem JobView.renders_iff (answers : view.Answers reads)
    (held : (view.list.texts storage store).length < 2 ^ 62) {skipped : Nat}
    (within : skipped * jobsPerPage ≤ (view.list.texts storage store).length) {page : JobPage} :
    view.render storage build reads store (skipped + 1) = some (.ok (.page page)) ↔
      (∀ text ∈ window (view.list.texts storage store) skipped, view.list.Passes text) ∧
      page = .of ((window (view.list.texts storage store) skipped).filterMap storedEnvelope)
        (skipped + 1) (view.list.texts storage store).length := by
  rw [view.render_eq answers held within]
  constructor
  · intro renders
    cases decoded : view.list.decode (window (view.list.texts storage store) skipped) with
    | error error =>
        rw [decoded] at renders
        cases renders
    | ok jobs =>
        rw [decoded] at renders
        cases renders
        obtain ⟨exact, passes⟩ := JobList.decode_of_ok decoded
        exact ⟨passes, by rw [exact]⟩
  · rintro ⟨passes, rfl⟩
    rw [(view.list.decode_eq_ok_iff _).mpr passes]
    rfl

theorem Visits.shows {number : Nat} {pages : List JobPage} (answers : view.Answers reads)
    (held : (view.list.texts storage store).length < 2 ^ 62)
    (visits : Visits (view.render storage build reads store) number pages) :
    ∀ skipped, number = skipped + 1 →
      skipped * jobsPerPage ≤ (view.list.texts storage store).length →
      (∀ text ∈ readFrom (view.list.texts storage store) skipped, view.list.Passes text) ∧
      pages.flatMap JobPage.jobs =
        (readFrom (view.list.texts storage store) skipped).filterMap storedEnvelope ∧
      ∀ page ∈ pages, page.jobs.length ≤ jobsPerPage := by
  induction visits with
  | last renders ends =>
      rintro skipped rfl within
      obtain ⟨passes, rfl⟩ := (view.renders_iff _ answers held within).mp renders
      have whole := Nat.le_of_not_lt (of_decide_eq_false ends)
      rw [← Bool.not_eq_true, hasNext_window] at ends
      rw [readFrom_last (by omega), List.flatMap_singleton]
      refine ⟨passes, List.take_of_length_le whole, ?_⟩
      intro page member
      rw [List.mem_singleton.mp member]
      exact List.length_take_le _ _
  | more renders goesOn rest ih =>
      rintro skipped rfl within
      obtain ⟨passes, rfl⟩ := (view.renders_iff _ answers held within).mp renders
      rw [hasNext_window] at goesOn
      obtain ⟨others, shown, short⟩ := ih (skipped + 1) rfl (within_succ goesOn)
      rw [readFrom_more goesOn, List.filterMap_append, List.flatMap_cons, shown]
      refine ⟨?_, ?_, ?_⟩
      · intro text member
        rcases List.mem_append.mp member with first | later
        · exact passes text (mem_window first)
        · exact others text later
      · congr 1
        exact take_shown storedEnvelope _ (Nat.le_of_lt goesOn)
      · intro page member
        rcases List.mem_cons.mp member with rfl | later
        · exact List.length_take_le _ _
        · exact short page later

variable (build) in
theorem visits_of_passes (answers : view.Answers reads)
    (held : (view.list.texts storage store).length < 2 ^ 62) (skipped : Nat)
    (within : skipped * jobsPerPage ≤ (view.list.texts storage store).length)
    (passes : ∀ text ∈ readFrom (view.list.texts storage store) skipped,
      view.list.Passes text) :
    ∃ pages, Visits (view.render storage build reads store) (skipped + 1) pages := by
  have renders := (view.renders_iff build answers held within).mpr
    ⟨fun text member => passes text (window_subset_readFrom member), rfl⟩
  by_cases goesOn : jobsPerPage < unbroken storedEnvelope
      ((view.list.texts storage store).drop (skipped * jobsPerPage))
  · have next := within_succ goesOn
    rw [readFrom_more goesOn] at passes
    obtain ⟨pages, rest⟩ := visits_of_passes answers held (skipped + 1) next
      fun text member => passes text (List.mem_append_right _ member)
    exact ⟨_, .more renders ((hasNext_window _ _ _ _).mpr goesOn) rest⟩
  · refine ⟨_, .last renders ?_⟩
    rw [← Bool.not_eq_true, hasNext_window]
    exact goesOn
termination_by (view.list.texts storage store).length - skipped * jobsPerPage
decreasing_by
  unfold jobsPerPage at *
  omega

variable (view) in
/-- The pages show every job once exactly when the reads of the view succeed, no job lies
behind the last page, and the elements read up to there can be decoded or are skipped. -/
theorem showsOnce_iff (held : (view.list.texts storage store).length < 2 ^ 62) :
    (∀ build, ShowsOnce (view.render storage build reads store)
      ((view.list.texts storage store).filterMap storedEnvelope)) ↔
      view.Answers reads ∧
      (∀ text ∈ (view.list.texts storage store).take (reached (view.list.texts storage store)),
        view.list.Passes text) ∧
      (∀ text ∈ (view.list.texts storage store).drop (reached (view.list.texts storage store)),
        storedEnvelope text = none) := by
  have first : readFrom (view.list.texts storage store) 0 =
      (view.list.texts storage store).take (reached (view.list.texts storage store)) := by
    unfold readFrom
    rw [Nat.zero_mul, List.drop_zero]
  have within : 0 * jobsPerPage ≤ (view.list.texts storage store).length := by omega
  have split : (view.list.texts storage store).filterMap storedEnvelope =
      ((view.list.texts storage store).take
        (reached (view.list.texts storage store))).filterMap storedEnvelope ++
      ((view.list.texts storage store).drop
        (reached (view.list.texts storage store))).filterMap storedEnvelope := by
    rw [← List.filterMap_append, List.take_append_drop]
  constructor
  · intro shows
    obtain ⟨pages, visits, shown, _⟩ := shows .debug
    have answers : view.Answers reads := by
      cases visits with
      | last renders ends => exact view.answers_of_render renders
      | more renders goesOn rest => exact view.answers_of_render renders
    obtain ⟨passes, seen, _⟩ := visits.shows answers held 0 rfl within
    rw [first] at passes seen
    refine ⟨answers, passes, ?_⟩
    rw [seen, split] at shown
    exact List.filterMap_eq_nil_iff.mp (List.append_right_eq_self.mp shown.symm)
  · rintro ⟨answers, passes, nobody⟩ build
    rw [← first] at passes
    obtain ⟨pages, visits⟩ := visits_of_passes build answers held 0 within passes
    obtain ⟨_, seen, short⟩ := visits.shows answers held 0 rfl within
    refine ⟨pages, visits, ?_, short⟩
    rw [seen, first, split, List.filterMap_eq_nil_iff.mpr nobody, List.append_nil]

def twoPagesStore : Store :=
  { Store.empty with dead := List.replicate 51 (toText (report .null .skip)) }

theorem showsOnce_iff_two_pages :
    ShowsOnce ((.dead : JobView ⟨[]⟩).render (workerNode 1) .release (.ok ()) twoPagesStore)
      ((JobList.dead.texts (workerNode 1) twoPagesStore).filterMap storedEnvelope) := by
  have all : (JobList.dead.texts (workerNode 1) twoPagesStore).length ≤
      reached (JobList.dead.texts (workerNode 1) twoPagesStore) := by decide
  refine (showsOnce_iff (.dead : JobView ⟨[]⟩) (by decide)).mpr
    ⟨trivial, fun _ _ => .inl rfl, fun text member => ?_⟩ .release
  rw [JobView.list, List.drop_of_length_le all] at member
  cases member

end Views

def undecodableStore : Store :=
  { Store.empty with
    dead := .malformed "report" :: List.replicate 51 (toText (report .null .skip)) }

/-- The last of the dead jobs is on no page. -/
theorem hides_a_dead_job :
    ¬ ShowsOnce ((.dead : JobView ⟨[]⟩).render (workerNode 1) .debug (.ok ()) undecodableStore)
      ((JobList.dead.texts (workerNode 1) undecodableStore).filterMap storedEnvelope) := by
  rintro ⟨pages, visits, shown, _⟩
  have answers : (JobView.dead : JobView ⟨[]⟩).Answers (.ok ()) := trivial
  have seen := (visits.shows answers (by decide) 0 rfl (by decide)).2.1
  rw [shown] at seen
  have counts := congrArg List.length seen
  exact absurd counts (by decide)

end Oxana
