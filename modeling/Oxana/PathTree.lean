import Mathlib.Data.List.Lex
import Mathlib.Data.List.Nodup
import Mathlib.Data.List.Sort

/-!
Trees of named groups.  Entries are put into the group of their path; the tree is listed row by
row, each row with its depth, and the rows are enough to find the path of every entry again.
-/

namespace PathTree

variable {κ τ : Type}

/-! Trees. -/

/-- The groups below a node, by name; a group has groups and entries of its own. -/
inductive Groups (κ τ : Type)
  | nil
  | cons (name : κ) (children : Groups κ τ) (entries : List τ) (rest : Groups κ τ)

structure Node (κ τ : Type) where
  children : Groups κ τ
  entries : List τ

def Node.new : Node κ τ where
  children := .nil
  entries := []

section Insertion

variable [LinearOrder κ]

def Groups.entry (name : κ) (change : Node κ τ → Node κ τ) : Groups κ τ → Groups κ τ
  | .nil => .cons name (change .new).children (change .new).entries .nil
  | .cons other children entries rest =>
      if name < other then
        .cons name (change .new).children (change .new).entries
          (.cons other children entries rest)
      else if name = other then
        .cons other (change ⟨children, entries⟩).children (change ⟨children, entries⟩).entries rest
      else .cons other children entries (rest.entry name change)

def Node.insert (node : Node κ τ) (item : τ) : List κ → Node κ τ
  | [] => { node with entries := node.entries ++ [item] }
  | name :: path =>
      { node with children := node.children.entry name fun child => child.insert item path }

end Insertion

/-! Rows. -/

inductive Row (κ τ : Type)
  | group (name : κ) (depth : Nat)
  | entry (item : τ) (depth : Nat)

def Groups.flatten (depth : Nat) : Groups κ τ → List (Row κ τ)
  | .nil => []
  | .cons name children entries rest =>
      .group name depth :: (children.flatten (depth + 1) ++
        entries.map (fun item => .entry item (depth + 1)) ++ rest.flatten depth)

def Node.flatten (node : Node κ τ) (depth : Nat) : List (Row κ τ) :=
  node.children.flatten depth ++ node.entries.map fun item => .entry item depth

def readEntries (path : List κ) : List (Row κ τ) → List (List κ × τ)
  | [] => []
  | .group name depth :: rows => readEntries (path.take depth ++ [name]) rows
  | .entry item depth :: rows => (path.take depth, item) :: readEntries path rows

def readGroups (path : List κ) : List (Row κ τ) → List (List κ)
  | [] => []
  | .group name depth :: rows =>
      (path.take depth ++ [name]) :: readGroups (path.take depth ++ [name]) rows
  | .entry _ _ :: rows => readGroups path rows

/-! What a tree lists. -/

def Groups.listing (path : List κ) : Groups κ τ → List (List κ × τ)
  | .nil => []
  | .cons name children entries rest =>
      children.listing (path ++ [name]) ++ entries.map (fun item => (path ++ [name], item)) ++
        rest.listing path

def Groups.paths (path : List κ) : Groups κ τ → List (List κ)
  | .nil => []
  | .cons name children _ rest =>
      (path ++ [name]) :: (children.paths (path ++ [name]) ++ rest.paths path)

theorem readEntries_entries (path : List κ) (depth : Nat) (entries : List τ)
    (rows : List (Row κ τ)) :
    readEntries path (entries.map (fun item => .entry item depth) ++ rows) =
      entries.map (fun item => (path.take depth, item)) ++ readEntries path rows := by
  induction entries with
  | nil => rfl
  | cons item rest ih => exact congrArg ((path.take depth, item) :: ·) ih

theorem readGroups_entries (path : List κ) (depth : Nat) (entries : List τ)
    (rows : List (Row κ τ)) :
    readGroups path (entries.map (fun item => .entry item depth) ++ rows) =
      readGroups path rows := by
  induction entries with
  | nil => rfl
  | cons item rest ih => exact ih

/-- The rows of the groups below a path are read as what the groups list, and what is read
after them is below the same path. -/
theorem Groups.read_flatten (groups : Groups κ τ) {current path : List κ}
    (below : current.take path.length = path) :
    ∃ next, next.take path.length = path ∧ ∀ rows,
      readEntries current (groups.flatten path.length ++ rows) =
          groups.listing path ++ readEntries next rows ∧
        readGroups current (groups.flatten path.length ++ rows) =
          groups.paths path ++ readGroups next rows := by
  induction groups generalizing current path with
  | nil => exact ⟨current, below, fun rows => ⟨rfl, rfl⟩⟩
  | cons name children entries rest own others =>
      have deeper : (path ++ [name]).length = path.length + 1 := List.length_append
      have inside : (path ++ [name]).take (path ++ [name]).length = path ++ [name] :=
        List.take_length
      obtain ⟨middle, kept, read⟩ := own inside
      have back : middle.take path.length = path := by
        have shorter := congrArg (List.take path.length) kept
        rw [List.take_take, List.take_left, deeper] at shorter
        rwa [Nat.min_eq_left (Nat.le_succ _)] at shorter
      obtain ⟨next, stays, readRest⟩ := others back
      refine ⟨next, stays, fun rows => ?_⟩
      rw [deeper] at read kept
      constructor
      · simp only [flatten, listing, List.cons_append, List.append_assoc, readEntries, below]
        rw [(read _).1, readEntries_entries, kept, (readRest rows).1]
      · simp only [flatten, paths, List.cons_append, List.append_assoc, readGroups, below]
        rw [(read _).2, readGroups_entries, (readRest rows).2]

theorem Node.readEntries_flatten (node : Node κ τ) :
    readEntries [] (node.flatten 0) =
      node.children.listing [] ++ node.entries.map fun item => ([], item) := by
  obtain ⟨next, _, read⟩ := node.children.read_flatten
    (show ([] : List κ).take ([] : List κ).length = [] from rfl)
  unfold flatten
  have rows := (read (node.entries.map fun item => .entry item 0)).1
  have last := readEntries_entries next 0 node.entries []
  simp only [List.append_nil, List.take_zero, readEntries] at last
  rw [List.length_nil] at rows
  rw [rows, last]

theorem Node.readGroups_flatten (node : Node κ τ) :
    readGroups [] (node.flatten 0) = node.children.paths [] := by
  obtain ⟨next, _, read⟩ := node.children.read_flatten
    (show ([] : List κ).take ([] : List κ).length = [] from rfl)
  unfold flatten
  have rows := (read (node.entries.map fun item => .entry item 0)).2
  have last := readGroups_entries next 0 node.entries []
  simp only [List.append_nil, readGroups] at last
  rw [List.length_nil] at rows
  rw [rows, last, List.append_nil]

/-! Sorted groups. -/

def Groups.names : Groups κ τ → List κ
  | .nil => []
  | .cons name _ _ rest => name :: rest.names

theorem Groups.below_of_listing {groups : Groups κ τ} {base path : List κ} {item : τ}
    (member : (path, item) ∈ groups.listing base) :
    ∃ name ∈ groups.names, ∃ tail, path = base ++ name :: tail := by
  induction groups generalizing base with
  | nil => cases member
  | cons name children entries rest own others =>
      simp only [listing, List.mem_append, List.mem_map, Prod.mk.injEq] at member
      rcases member with (inside | ⟨_, _, rfl, _⟩) | after
      · obtain ⟨child, _, tail, rfl⟩ := own inside
        exact ⟨name, List.mem_cons_self, child :: tail, List.append_assoc ..⟩
      · exact ⟨name, List.mem_cons_self, [], rfl⟩
      · obtain ⟨other, known, tail, rfl⟩ := others after
        exact ⟨other, List.mem_cons_of_mem _ known, tail, rfl⟩

theorem Groups.below_of_paths {groups : Groups κ τ} {base path : List κ}
    (member : path ∈ groups.paths base) :
    ∃ name ∈ groups.names, ∃ tail, path = base ++ name :: tail := by
  induction groups generalizing base with
  | nil => cases member
  | cons name children entries rest own others =>
      simp only [paths, List.mem_cons, List.mem_append] at member
      rcases member with rfl | inside | after
      · exact ⟨name, List.mem_cons_self, [], rfl⟩
      · obtain ⟨child, _, tail, rfl⟩ := own inside
        exact ⟨name, List.mem_cons_self, child :: tail, List.append_assoc ..⟩
      · obtain ⟨other, known, tail, rfl⟩ := others after
        exact ⟨other, List.mem_cons_of_mem _ known, tail, rfl⟩

section Order

variable [LinearOrder κ]

def Groups.Sorted : Groups κ τ → Prop
  | .nil => True
  | .cons name children _ rest =>
      (∀ other ∈ rest.names, name < other) ∧ children.Sorted ∧ rest.Sorted

theorem Groups.mem_names_entry {groups : Groups κ τ} {name other : κ}
    {change : Node κ τ → Node κ τ} (member : other ∈ (groups.entry name change).names) :
    other = name ∨ other ∈ groups.names := by
  induction groups with
  | nil => exact Or.inl (List.mem_singleton.mp member)
  | cons first children entries rest _ others =>
      unfold Groups.entry at member
      split at member
      · exact List.mem_cons.mp member
      · split at member
        · exact Or.inr member
        · rcases List.mem_cons.mp member with rfl | later
          · exact Or.inr List.mem_cons_self
          · exact (others later).imp_right (List.mem_cons_of_mem _)

theorem Groups.Sorted.entry {groups : Groups κ τ} (sorted : groups.Sorted) (name : κ)
    {change : Node κ τ → Node κ τ}
    (keeps : ∀ child, child.children.Sorted → (change child).children.Sorted) :
    (groups.entry name change).Sorted := by
  have made : (change (.new : Node κ τ)).children.Sorted := keeps _ trivial
  induction groups with
  | nil => exact ⟨fun other member => (by cases member), made, trivial⟩
  | cons first children entries rest _ others =>
      obtain ⟨before, inside, after⟩ := sorted
      unfold Groups.entry
      split
      · rename_i earlier
        refine ⟨?_, made, before, inside, after⟩
        intro other member
        rcases List.mem_cons.mp member with rfl | later
        · exact earlier
        · exact lt_trans earlier (before other later)
      · rename_i notEarlier
        split
        · exact ⟨before, keeps ⟨children, entries⟩ inside, after⟩
        · rename_i different
          refine ⟨?_, inside, others after⟩
          intro other member
          rcases mem_names_entry member with rfl | known
          · exact lt_of_le_of_ne (not_lt.mp notEarlier) (Ne.symm different)
          · exact before other known

theorem Node.sorted_insert {node : Node κ τ} (sorted : node.children.Sorted) (item : τ)
    (path : List κ) : (node.insert item path).children.Sorted := by
  induction path generalizing node with
  | nil => exact sorted
  | cons name rest ih => exact sorted.entry name fun child inside => ih inside

theorem lt_append_cons (path : List κ) (name : κ) (tail : List κ) :
    path < path ++ name :: tail := by
  have longer : path ++ [] < path ++ name :: tail :=
    List.append_left_lt (List.nil_lt_cons name tail)
  rwa [List.append_nil] at longer

theorem append_cons_lt {first second : κ} (less : first < second) (path left right : List κ) :
    path ++ first :: left < path ++ second :: right :=
  List.append_left_lt (List.cons_lt_cons_iff.mpr (Or.inl less))

theorem Groups.Sorted.paths_pairwise {groups : Groups κ τ} (sorted : groups.Sorted)
    (base : List κ) : (groups.paths base).Pairwise (· < ·) := by
  induction groups generalizing base with
  | nil => exact List.Pairwise.nil
  | cons name children entries rest own others =>
      obtain ⟨before, inside, after⟩ := sorted
      refine List.pairwise_cons.mpr ⟨?_, List.pairwise_append.mpr
        ⟨own inside _, others after base, ?_⟩⟩
      · intro path member
        rcases List.mem_append.mp member with child | later
        · obtain ⟨other, _, tail, rfl⟩ := below_of_paths child
          exact lt_append_cons ..
        · obtain ⟨other, known, tail, rfl⟩ := below_of_paths later
          exact append_cons_lt (before other known) base [] tail
      · intro path child other later
        obtain ⟨_, _, left, rfl⟩ := below_of_paths child
        obtain ⟨second, known, right, rfl⟩ := below_of_paths later
        rw [List.append_assoc]
        exact append_cons_lt (before second known) base _ right

/-! What an insertion adds. -/

def listedAt (path : List κ) (entries : List (List κ × τ)) : List τ :=
  (entries.filter fun entry => decide (entry.1 = path)).map Prod.snd

theorem listedAt_append (path : List κ) (first second : List (List κ × τ)) :
    listedAt path (first ++ second) = listedAt path first ++ listedAt path second := by
  unfold listedAt
  rw [List.filter_append, List.map_append]

theorem listedAt_map (path base : List κ) (entries : List τ) :
    listedAt path (entries.map fun item => (base, item)) = if base = path then entries else [] := by
  unfold listedAt
  rw [List.filter_map, List.map_map]
  by_cases same : base = path
  · simp [same, Function.comp_def]
  · simp [same, Function.comp_def]

theorem listedAt_of_absent {path : List κ} {entries : List (List κ × τ)}
    (absent : ∀ item, (path, item) ∉ entries) : listedAt path entries = [] := by
  unfold listedAt
  rw [List.map_eq_nil_iff, List.filter_eq_nil_iff]
  rintro ⟨other, item⟩ member same
  obtain rfl : other = path := of_decide_eq_true same
  exact absent item member

def Node.listing (base : List κ) (node : Node κ τ) : List (List κ × τ) :=
  node.children.listing base ++ node.entries.map fun item => (base, item)

theorem Groups.listedAt_other {groups : Groups κ τ} {name : κ} {base path : List κ}
    (others : ∀ other ∈ groups.names, other ≠ name) (below : ∃ tail, path = base ++ name :: tail) :
    listedAt path (groups.listing base) = [] := by
  obtain ⟨tail, rfl⟩ := below
  apply listedAt_of_absent
  intro item member
  obtain ⟨other, known, rest, same⟩ := below_of_listing member
  have heads := List.append_cancel_left same
  exact others other known (List.cons.inj heads).1.symm

theorem Groups.listedAt_entry {groups : Groups κ τ} (sorted : groups.Sorted) {name : κ}
    {change : Node κ τ → Node κ τ} {base path : List κ} {extra : List τ}
    (adds : ∀ child : Node κ τ, child.children.Sorted →
      listedAt path ((change child).listing (base ++ [name])) =
        listedAt path (child.listing (base ++ [name])) ++ extra)
    (below : extra ≠ [] → ∃ tail, path = base ++ name :: tail) :
    listedAt path ((groups.entry name change).listing base) =
      listedAt path (groups.listing base) ++ extra := by
  have fresh : listedAt path ((change .new).listing (base ++ [name])) = extra :=
    adds .new trivial
  -- What is listed in later groups is not under the path.
  have passes : ∀ later : Groups κ τ, (∀ other ∈ later.names, name < other) →
      extra ++ listedAt path (later.listing base) =
        listedAt path (later.listing base) ++ extra := by
    intro later after
    by_cases nothing : extra = []
    · rw [nothing, List.append_nil, List.nil_append]
    · rw [listedAt_other (fun other known => (after other known).ne') (below nothing),
        List.append_nil, List.nil_append]
  induction groups with
  | nil =>
      change listedAt path ((change .new).listing (base ++ [name]) ++ []) = [] ++ extra
      rw [List.append_nil, List.nil_append, fresh]
  | cons first children entries rest _ others =>
      obtain ⟨before, inside, after⟩ := sorted
      unfold Groups.entry
      split
      · rename_i earlier
        change listedAt path ((change .new).listing (base ++ [name]) ++
          (Groups.cons first children entries rest).listing base) = _
        rw [listedAt_append, fresh]
        apply passes
        intro other member
        rcases List.mem_cons.mp member with rfl | later
        · exact earlier
        · exact lt_trans earlier (before other later)
      · split
        · rename_i same
          subst same
          change listedAt path ((change ⟨children, entries⟩).listing (base ++ [name]) ++
            rest.listing base) = listedAt path
              ((⟨children, entries⟩ : Node κ τ).listing (base ++ [name]) ++ rest.listing base) ++ _
          rw [listedAt_append, listedAt_append, adds _ inside, List.append_assoc,
            passes rest before, List.append_assoc]
        · change listedAt path ((⟨children, entries⟩ : Node κ τ).listing (base ++ [first]) ++
            (rest.entry name change).listing base) = listedAt path
              ((⟨children, entries⟩ : Node κ τ).listing (base ++ [first]) ++ rest.listing base) ++ _
          rw [listedAt_append, listedAt_append, others after, List.append_assoc]

theorem Node.listedAt_insert {node : Node κ τ} (sorted : node.children.Sorted) (item : τ)
    (path base target : List κ) :
    listedAt target ((node.insert item path).listing base) =
      listedAt target (node.listing base) ++ if base ++ path = target then [item] else [] := by
  induction path generalizing node base with
  | nil =>
      unfold Node.listing
      change listedAt target (node.children.listing base ++
        (node.entries ++ [item]).map fun item => (base, item)) = _
      rw [listedAt_append, listedAt_append, listedAt_map, listedAt_map, List.append_nil]
      by_cases same : base = target
      · simp [same]
      · simp [same]
  | cons name rest ih =>
      unfold Node.listing
      rw [listedAt_append, listedAt_append]
      change listedAt target ((node.children.entry name fun child =>
        child.insert item rest).listing base) ++ _ = _
      have joined : base ++ name :: rest = base ++ [name] ++ rest := by
        rw [List.append_assoc]
        rfl
      rw [Groups.listedAt_entry sorted (fun child inside => ih inside (base ++ [name])) ?_, joined]
      · by_cases same : base ++ [name] ++ rest = target
        · -- The entries of the node itself are not under the target.
          have apart : base ≠ target := by
            rintro rfl
            have lengths := congrArg List.length same
            simp only [List.length_append, List.length_singleton] at lengths
            omega
          change _ ++ listedAt target (node.entries.map fun item => (base, item)) = _
          rw [listedAt_map, if_neg apart, List.append_nil, List.append_nil]
        · rw [if_neg same, List.append_nil, List.append_nil]
          rfl
      · intro some
        by_cases same : base ++ [name] ++ rest = target
        · exact ⟨rest, by rw [← same, joined]⟩
        · exact absurd (if_neg same) some

theorem Groups.mem_paths_entry {groups : Groups κ τ} {name : κ} {change : Node κ τ → Node κ τ}
    {base path : List κ} {new : Prop}
    (adds : ∀ child : Node κ τ, path ∈ (change child).children.paths (base ++ [name]) ↔
      path ∈ child.children.paths (base ++ [name]) ∨ new) :
    path ∈ (groups.entry name change).paths base ↔
      path ∈ groups.paths base ∨ path = base ++ [name] ∨ new := by
  have fresh : path ∈ (change .new).children.paths (base ++ [name]) ↔ new :=
    (adds .new).trans (or_iff_right (by rintro ⟨⟩))
  induction groups with
  | nil =>
      simp only [Groups.entry, paths, List.mem_cons, List.mem_append, fresh]
      simp
  | cons first children entries rest _ others =>
      unfold Groups.entry
      split
      · simp only [paths, List.mem_cons, List.mem_append, fresh]
        rw [← or_assoc, or_comm]
      · split
        · rename_i same
          subst same
          have own := adds ⟨children, entries⟩
          simp only [paths, List.mem_cons, List.mem_append, own]
          constructor
          · rintro (rfl | (inside | added) | later)
            · exact Or.inl (Or.inl rfl)
            · exact Or.inl (Or.inr (Or.inl inside))
            · exact Or.inr (Or.inr added)
            · exact Or.inl (Or.inr (Or.inr later))
          · rintro ((rfl | inside | later) | rfl | added)
            · exact Or.inl rfl
            · exact Or.inr (Or.inl (Or.inl inside))
            · exact Or.inr (Or.inr later)
            · exact Or.inl rfl
            · exact Or.inr (Or.inl (Or.inr added))
        · simp only [paths, List.mem_cons, List.mem_append, others]
          rw [or_assoc, or_assoc, ← or_assoc]

theorem Node.mem_paths_insert {node : Node κ τ} (item : τ) (path base target : List κ) :
    target ∈ (node.insert item path).children.paths base ↔
      target ∈ node.children.paths base ∨
        ∃ front, front ≠ [] ∧ front <+: path ∧ target = base ++ front := by
  induction path generalizing node base with
  | nil =>
      refine (or_iff_left ?_).symm
      rintro ⟨front, some, short, _⟩
      exact some (List.prefix_nil.mp short)
  | cons name rest ih =>
      change target ∈ (node.children.entry name fun child => child.insert item rest).paths base ↔ _
      rw [Groups.mem_paths_entry fun child => ih (base ++ [name])]
      apply or_congr_right
      constructor
      · rintro (rfl | ⟨front, _, short, rfl⟩)
        · exact ⟨[name], List.cons_ne_nil _ _, List.prefix_append [name] rest, rfl⟩
        · exact ⟨name :: front, List.cons_ne_nil _ _, (List.prefix_cons_inj name).mpr short,
            List.append_assoc ..⟩
      · rintro ⟨front, some, short, rfl⟩
        cases front with
        | nil => exact absurd rfl some
        | cons first tail =>
            obtain ⟨rfl, shorter⟩ := List.cons_prefix_cons.mp short
            cases tail with
            | nil => exact Or.inl rfl
            | cons second others =>
                refine Or.inr ⟨second :: others, List.cons_ne_nil _ _, shorter, ?_⟩
                rw [List.append_assoc]
                rfl

/-! Trees of many entries. -/

def build (pathOf : τ → List κ) (items : List τ) : Node κ τ :=
  items.foldl (fun node item => node.insert item (pathOf item)) .new

/-- Rows that show every item once, in its own group and behind the earlier items of the group;
the groups are those that are needed, in order. -/
structure Shows (pathOf : τ → List κ) (items : List τ) (rows : List (Row κ τ)) : Prop where
  entries : ∀ path, listedAt path (readEntries [] rows) =
    items.filter fun item => decide (pathOf item = path)
  groups : ∀ path, path ∈ readGroups [] rows ↔
    path ≠ [] ∧ ∃ item ∈ items, path <+: pathOf item
  sorted : (readGroups [] rows).Pairwise (· < ·)

theorem build_shows (pathOf : τ → List κ) (items : List τ) :
    Shows pathOf items ((build pathOf items).flatten 0) := by
  have grows : ∀ (more : List τ) (node : Node κ τ), node.children.Sorted →
      let built := more.foldl (fun node item => node.insert item (pathOf item)) node
      built.children.Sorted ∧
        (∀ path, listedAt path (built.listing []) = listedAt path (node.listing []) ++
          more.filter fun item => decide (pathOf item = path)) ∧
        ∀ path, path ∈ built.children.paths [] ↔ path ∈ node.children.paths [] ∨
          path ≠ [] ∧ ∃ item ∈ more, path <+: pathOf item := by
    intro more
    induction more with
    | nil =>
        intro node sorted
        exact ⟨sorted, fun path => (List.append_nil _).symm, fun path => by simp⟩
    | cons item rest ih =>
        intro node sorted
        obtain ⟨ordered, listed, found⟩ := ih _ (node.sorted_insert sorted item (pathOf item))
        refine ⟨ordered, ?_, ?_⟩
        · intro path
          refine (listed path).trans ?_
          rw [node.listedAt_insert sorted, List.append_assoc, List.nil_append, List.filter_cons]
          by_cases same : pathOf item = path
          · simp [same]
          · simp [same]
        · intro path
          refine (found path).trans ?_
          rw [node.mem_paths_insert, or_assoc]
          apply or_congr_right
          rw [List.exists_mem_cons_iff]
          constructor
          · rintro (⟨front, some, short, rfl⟩ | ⟨some, later⟩)
            · exact ⟨some, Or.inl short⟩
            · exact ⟨some, Or.inr later⟩
          · rintro ⟨some, short | later⟩
            · exact Or.inl ⟨path, some, short, rfl⟩
            · exact Or.inr ⟨some, later⟩
  obtain ⟨ordered, listed, found⟩ := grows items .new trivial
  refine ⟨?_, ?_, ?_⟩
  · intro path
    rw [Node.readEntries_flatten]
    exact (listed path).trans (List.nil_append _)
  · intro path
    rw [Node.readGroups_flatten]
    exact (found path).trans (or_iff_right (by rintro ⟨⟩))
  · rw [Node.readGroups_flatten]
    exact ordered.paths_pairwise []

end Order

end PathTree
