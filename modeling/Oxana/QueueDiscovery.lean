import Oxana.StorageRuns
import Oxana.KeyScheme
import Oxana.Occurrences

/-!
How the watcher of a dynamic queue finds its queues: a `SCAN` with the namespaced pattern,
and the queue prefix stripped from every key found.
-/

namespace Oxana

open GlobPattern (Literal glob glob_literal glob_star)

variable {storage : StorageInternal} {store : Store}

def stripPrefix (start text : String) : Option String :=
  if startsWith text start then some (String.ofList (text.toList.drop start.toList.length))
  else none

namespace StorageInternal

def queues (storage : StorageInternal) (pattern : String) : Redis (List String) := do
  let queueKeys : List String ← ask (.scan (storage.namespaceQueue pattern))
  pure ((storage.order.arrange queueKeys.dedup).filterMap
    (stripPrefix (storage.keys.queuePrefix ++ ":")))

end StorageInternal

theorem stripPrefix_eq_some {start text rest : String} :
    stripPrefix start text = some rest ↔ text = start ++ rest := by
  unfold stripPrefix
  constructor
  · intro stripped
    split at stripped
    · rename_i starts
      obtain ⟨tail, rfl⟩ := startsWith_iff.mp starts
      rw [String.toList_append, List.drop_left, String.ofList_toList] at stripped
      rw [Option.some.inj stripped]
    · cases stripped
  · rintro rfl
    rw [if_pos (startsWith_iff.mpr ⟨rest, rfl⟩), String.toList_append, List.drop_left,
      String.ofList_toList]

def StorageInternal.queueKey (storage : StorageInternal) (queue : String) : String :=
  storage.keys.queuePrefix ++ ":" ++ queue

def StorageInternal.discovers (storage : StorageInternal) (pattern queue : String) : Bool :=
  glob (storage.namespaceQueue pattern) (storage.queueKey queue)

theorem runAlone_queues (storage : StorageInternal) (pattern : String) (store : Store) :
    ∃ found, runAlone (storage.queues pattern) store = (some (.ok found), store) ∧
      ∀ queue, queue ∈ found ↔
        store.lists.get (storage.queueKey queue) ≠ [] ∧ storage.discovers pattern queue = true := by
  refine ⟨_, rfl, ?_⟩
  intro queue
  rw [List.mem_filterMap]
  have listed : ∀ key, key ∈ storage.order.arrange
      (store.lists.keys.filter (glob (storage.namespaceQueue pattern))).dedup ↔
        store.lists.get key ≠ [] ∧ glob (storage.namespaceQueue pattern) key = true := by
    intro key
    rw [(storage.order.perm _).mem_iff, List.mem_dedup, List.mem_filter, store.lists.mem_keys]
  constructor
  · rintro ⟨key, member, stripped⟩
    rw [stripPrefix_eq_some] at stripped
    subst stripped
    exact (listed _).mp member
  · intro present
    exact ⟨_, (listed _).mpr present, stripPrefix_eq_some.mpr rfl⟩

/-! Completeness. -/

theorem StorageInternal.namespaceQueue_plain {queue : String}
    (plain : startsWith queue storage.keys.namespaceName = false) :
    storage.namespaceQueue queue = storage.queueKey queue :=
  StorageKeys.namespaceQueue_of_plain _ plain

theorem queueKey_ne_of_starts {queue : String}
    (starts : startsWith queue storage.keys.namespaceName = true) :
    storage.queueKey queue ≠ storage.namespaceQueue queue := by
  have raw : storage.namespaceQueue queue = queue := if_pos starts
  rw [raw]
  intro same
  have lengths := congrArg (fun text : String => text.toList.length) same
  simp only [StorageInternal.queueKey, String.toList_append, List.length_append] at lengths
  have colon : (":" : String).toList.length = 1 := by decide
  omega

theorem queueKey_eq_append (storage : StorageInternal) (queue : String) :
    storage.queueKey queue = storage.keys.namespaceName ++ (":queue" ++ ":" ++ queue) := by
  change storage.keys.namespaceName ++ ":queue" ++ ":" ++ queue = _
  simp only [String.append_assoc]

theorem queueKey_inj {first second : String} :
    storage.queueKey first = storage.queueKey second ↔ first = second := by
  unfold StorageInternal.queueKey
  rw [← String.toList_inj, ← String.toList_inj]
  simp only [String.toList_append, List.append_cancel_left_eq]

theorem startsWith_append {start text rest : String} (starts : startsWith text start = true) :
    startsWith (text ++ rest) start = true := by
  obtain ⟨tail, rfl⟩ := startsWith_iff.mp starts
  exact startsWith_iff.mpr ⟨tail ++ rest, String.append_assoc⟩

theorem startsWith_or {start first rest : String}
    (starts : startsWith (first ++ rest) start = true) :
    startsWith first start = true ∨ startsWith start first = true := by
  have leads := List.isPrefixOf_iff_prefix.mp starts
  have whole : first.toList <+: (first ++ rest).toList := by
    rw [String.toList_append]
    exact List.prefix_append _ _
  rcases List.prefix_or_prefix_of_prefix leads whole with inside | around
  · exact Or.inl (List.isPrefixOf_iff_prefix.mpr inside)
  · exact Or.inr (List.isPrefixOf_iff_prefix.mpr around)

theorem startsWith_of_star {start name : String} (literal : Literal name)
    (starts : startsWith (start ++ "*") name = true) : startsWith start name = true := by
  have leads := List.isPrefixOf_iff_prefix.mp starts
  rw [String.toList_append] at leads
  rcases List.prefix_concat_iff.mp leads with same | shorter
  · have star : '*' ∈ name.toList := by
      rw [same]
      exact List.mem_append_right _ List.mem_cons_self
    exact absurd star literal.star
  · exact List.isPrefixOf_iff_prefix.mpr shorter

/-- In every store that has a job in the queue, the discovery returns the queue and a
dequeue takes the last job of the list that an enqueue pushes to. -/
def Discovered (storage : StorageInternal) (start queue : String) : Prop :=
  (∀ envelope : JobEnvelope, envelope.queue = queue →
    storage.pushToDestination envelope .queue =
      .lpush (storage.namespaceQueue queue) [envelope.id]) ∧
  ∀ (store : Store) (id : JobId),
    (store.lists.get (storage.namespaceQueue queue)).getLast? = some id →
      (∃ found, runAlone (storage.queues (start ++ "*")) store = (some (.ok found), store) ∧
        queue ∈ found) ∧
      (runAlone (storage.dequeue queue) store).1 = some (.ok (some id))

theorem dequeue_last {queue : String} {id : JobId}
    (last : (store.lists.get (storage.namespaceQueue queue)).getLast? = some id) :
    (runAlone (storage.dequeue queue) store).1 = some (.ok (some id)) := by
  rw [StorageInternal.runAlone_dequeue]
  simp [moveLast, last]

theorem discovered_iff_found (storage : StorageInternal) (start queue : String) :
    Discovered storage start queue ↔
      startsWith queue storage.keys.namespaceName = false ∧
        storage.discovers (start ++ "*") queue = true := by
  constructor
  · intro discovered
    -- One job in the list of the queue and nothing else.
    let alone := Store.empty.withList (storage.namespaceQueue queue) ["job"]
    have job : alone.lists.get (storage.namespaceQueue queue) = ["job"] :=
      SparseMap.get_set_self _ _ _
    obtain ⟨⟨found, ran, member⟩, _⟩ := discovered.2 alone "job" (by rw [job]; rfl)
    obtain ⟨queues, listed, found_iff⟩ := runAlone_queues storage (start ++ "*") alone
    rw [ran] at listed
    cases listed
    obtain ⟨filled, matched⟩ := (found_iff queue).mp member
    have same : storage.queueKey queue = storage.namespaceQueue queue := by
      by_contra other
      exact filled (SparseMap.get_set_of_ne _ _ other)
    refine ⟨?_, matched⟩
    by_contra starts
    exact queueKey_ne_of_starts (by simpa using starts) same
  · rintro ⟨plain, found⟩
    refine ⟨fun envelope same => by rw [StorageInternal.pushToDestination, same], ?_⟩
    intro store id last
    obtain ⟨queues, ran, listed⟩ := runAlone_queues storage (start ++ "*") store
    refine ⟨⟨queues, ran, (listed queue).mpr ⟨?_, found⟩⟩, dequeue_last last⟩
    rw [← StorageInternal.namespaceQueue_plain plain]
    intro empty
    rw [empty] at last
    cases last

/-- Every key that the pattern of a prefix matches is the list of the queue that is found when
the queue prefix is stripped from it. -/
def Undone (storage : StorageInternal) (start : String) : Prop :=
  ∀ key, glob (storage.namespaceQueue (start ++ "*")) key = true →
    ∃ queue, stripPrefix (storage.keys.queuePrefix ++ ":") key = some queue ∧
      storage.namespaceQueue queue = key

theorem undone_iff (storage : StorageInternal) (start : String) :
    Undone storage start ↔ ∀ key, glob (storage.namespaceQueue (start ++ "*")) key = true →
      ∃ queue, key = storage.queueKey queue ∧
        startsWith queue storage.keys.namespaceName = false := by
  refine forall₂_congr fun key _ => exists_congr fun queue => ?_
  rw [stripPrefix_eq_some]
  refine and_congr_right fun stripped => ?_
  have same : key = storage.queueKey queue := stripped
  rw [same]
  constructor
  · intro undone
    by_contra starts
    exact queueKey_ne_of_starts (by simpa using starts) undone.symm
  · exact StorageInternal.namespaceQueue_plain

theorem matches_of_literal {start key : String} (literal : Literal storage.keys.namespaceName)
    (plain : startsWith (start ++ "*") storage.keys.namespaceName = false) :
    glob (storage.namespaceQueue (start ++ "*")) key = true ↔
      ∃ other, key = storage.queueKey other ∧ glob (start ++ "*") other = true := by
  have prefixed : Literal (storage.keys.namespaceName ++ (":queue" ++ ":")) := by
    refine ⟨?_, ?_, ?_, ?_⟩ <;> simp only [String.toList_append, List.mem_append, not_or]
    · exact ⟨literal.star, by decide, by decide⟩
    · exact ⟨literal.any, by decide, by decide⟩
    · exact ⟨literal.plain.1, by decide, by decide⟩
    · exact ⟨literal.plain.2, by decide, by decide⟩
  have pattern : storage.namespaceQueue (start ++ "*") =
      storage.keys.namespaceName ++ (":queue" ++ ":") ++ (start ++ "*") := by
    rw [StorageInternal.namespaceQueue_plain plain, queueKey_eq_append]
    simp only [String.append_assoc]
  rw [pattern, glob_literal prefixed]
  refine exists_congr fun other => and_congr_left fun _ => ?_
  rw [queueKey_eq_append]
  simp only [String.append_assoc]

theorem matches_iff_starts {start queue : String} (literal : Literal start) :
    glob (start ++ "*") queue = true ↔ startsWith queue start = true := by
  rw [glob_literal literal, startsWith_iff]
  exact exists_congr fun rest => and_iff_left (glob_star rest)

theorem discovers_iff_starts {start queue : String} (names : Literal storage.keys.namespaceName)
    (literal : Literal start) (plain : startsWith start storage.keys.namespaceName = false) :
    storage.discovers (start ++ "*") queue = true ↔ startsWith queue start = true := by
  have apart : startsWith (start ++ "*") storage.keys.namespaceName = false := by
    by_contra starts
    rw [startsWith_of_star names (by simpa using starts)] at plain
    cases plain
  unfold StorageInternal.discovers
  rw [matches_of_literal names apart]
  constructor
  · rintro ⟨other, same, accepted⟩
    rw [queueKey_inj.mp same]
    exact (matches_iff_starts literal).mp accepted
  · intro starts
    exact ⟨queue, rfl, (matches_iff_starts literal).mpr starts⟩

theorem complete_iff_of_literal {start queue : String}
    (literal : Literal storage.keys.namespaceName) (begins : startsWith queue start = true) :
    (Discovered storage start queue ∧ Undone storage start ↔
      glob (start ++ "*") queue = true ∧ ∀ other, glob (start ++ "*") other = true →
        startsWith other storage.keys.namespaceName = false) := by
  rw [discovered_iff_found, undone_iff]
  constructor
  · rintro ⟨⟨apart, matched⟩, undone⟩
    have plain : startsWith (start ++ "*") storage.keys.namespaceName = false := by
      by_contra starts
      have inside := startsWith_of_star literal (by simpa using starts)
      obtain ⟨rest, rfl⟩ := startsWith_iff.mp begins
      rw [startsWith_append inside] at apart
      cases apart
    obtain ⟨other, same, accepted⟩ := (matches_of_literal literal plain).mp matched
    rw [queueKey_inj.mp same]
    refine ⟨accepted, fun other accepted => ?_⟩
    obtain ⟨stripped, key, free⟩ :=
      undone _ ((matches_of_literal literal plain).mpr ⟨other, rfl, accepted⟩)
    rw [queueKey_inj.mp key]
    exact free
  · rintro ⟨matched, apart⟩
    have plain : startsWith (start ++ "*") storage.keys.namespaceName = false := by
      by_contra starts
      have inside := startsWith_of_star literal (by simpa using starts)
      obtain ⟨rest, rfl⟩ := startsWith_iff.mp begins
      have free := apart _ matched
      rw [startsWith_append inside] at free
      cases free
    refine ⟨⟨apart _ matched, (matches_of_literal literal plain).mpr ⟨_, rfl, matched⟩⟩, ?_⟩
    intro key accepted
    obtain ⟨other, same, inside⟩ := (matches_of_literal literal plain).mp accepted
    exact ⟨other, same, apart other inside⟩

theorem complete_iff_of_literals {start queue : String}
    (names : Literal storage.keys.namespaceName) (literal : Literal start)
    (begins : startsWith queue start = true) :
    (Discovered storage start queue ∧ Undone storage start ↔
      startsWith start storage.keys.namespaceName = false ∧
        startsWith storage.keys.namespaceName start = false) := by
  rw [complete_iff_of_literal names begins, matches_iff_starts literal]
  constructor
  · rintro ⟨_, apart⟩
    constructor
    · have whole : startsWith start start = true := startsWith_iff.mpr ⟨"", String.append_empty.symm⟩
      exact apart start ((matches_iff_starts literal).mpr whole)
    · by_contra around
      have itself : startsWith storage.keys.namespaceName storage.keys.namespaceName = true :=
        startsWith_iff.mpr ⟨"", String.append_empty.symm⟩
      rw [apart _ ((matches_iff_starts literal).mpr (by simpa using around))] at itself
      cases itself
  · rintro ⟨outside, around⟩
    refine ⟨begins, fun other accepted => ?_⟩
    obtain ⟨rest, rfl⟩ := startsWith_iff.mp ((matches_iff_starts literal).mp accepted)
    by_contra starts
    rcases startsWith_or (by simpa using starts) with inside | beyond
    · rw [outside] at inside
      cases inside
    · rw [around] at beyond
      cases beyond

/-- Discovery is complete for a queue, and stripping undoes the namespacing on every key that
the pattern matches, exactly under these conditions on the namespace and the prefix. -/
theorem discovered_iff (storage : StorageInternal) (start suffix : String) :
    (Discovered storage start (start ++ "#" ++ suffix) ∧ Undone storage start ↔
      (startsWith (start ++ "#" ++ suffix) storage.keys.namespaceName = false ∧
        storage.discovers (start ++ "*") (start ++ "#" ++ suffix) = true) ∧
      ∀ key, glob (storage.namespaceQueue (start ++ "*")) key = true →
        ∃ queue, key = storage.queueKey queue ∧
          startsWith queue storage.keys.namespaceName = false) ∧
    (Literal storage.keys.namespaceName →
      (Discovered storage start (start ++ "#" ++ suffix) ∧ Undone storage start ↔
        glob (start ++ "*") (start ++ "#" ++ suffix) = true ∧
          ∀ queue, glob (start ++ "*") queue = true →
            startsWith queue storage.keys.namespaceName = false)) ∧
    (Literal storage.keys.namespaceName → Literal start →
      (Discovered storage start (start ++ "#" ++ suffix) ∧ Undone storage start ↔
        startsWith start storage.keys.namespaceName = false ∧
          startsWith storage.keys.namespaceName start = false)) := by
  have begins : startsWith (start ++ "#" ++ suffix) start = true :=
    startsWith_iff.mpr ⟨"#" ++ suffix, String.append_assoc⟩
  refine ⟨?_, fun names => complete_iff_of_literal names begins,
    fun names literal => complete_iff_of_literals names literal begins⟩
  rw [discovered_iff_found, undone_iff]

theorem discovered_reports :
    Discovered (workerNode 1) "reports" "reports#eu" ∧ Undone (workerNode 1) "reports" := by
  have names : Literal (workerNode 1).keys.namespaceName :=
    ⟨by decide +kernel, by decide +kernel, by decide +kernel, by decide +kernel⟩
  have literal : Literal "reports" := ⟨by decide, by decide, by decide, by decide⟩
  exact ((discovered_iff (workerNode 1) "reports" "eu").2.2 names literal).mpr
    ⟨by decide +kernel, by decide +kernel⟩

def lowNode : StorageInternal where
  given := "low"
  hostname := "worker"
  pid := 1
  startedAt := 0
  order := .insertion

/-- The list of the queue is named like the queue itself, so that the scan finds it and the
queue prefix drops it again. -/
theorem lowlands_undiscovered :
    ¬Discovered lowNode "lowlands" ("lowlands" ++ "#" ++ "1") ∧
      (runAlone (lowNode.queues ("lowlands" ++ "*"))
        (Store.empty.withList (lowNode.namespaceQueue "lowlands#1") ["job"])).1 =
          some (.ok []) := by
  have missed : (runAlone (lowNode.queues ("lowlands" ++ "*"))
      (Store.empty.withList (lowNode.namespaceQueue "lowlands#1") ["job"])).1 =
        some (.ok []) := by decide +kernel
  refine ⟨?_, missed⟩
  intro discovered
  have job : ((Store.empty.withList (lowNode.namespaceQueue "lowlands#1") ["job"]).lists.get
      (lowNode.namespaceQueue ("lowlands" ++ "#" ++ "1"))).getLast? = some "job" := by
    decide +kernel
  obtain ⟨⟨found, ran, member⟩, _⟩ := discovered.2 _ "job" job
  rw [ran] at missed
  cases missed
  cases member

end Oxana
