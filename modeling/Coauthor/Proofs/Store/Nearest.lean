import Coauthor.Proofs.Store.Ancestry
import Mathlib

/-!
# The nearest common ancestor

The walk takes one commit from its queue at a time.  A commit that was visited before is dropped;
any other is visited, and its parents wait at the end of the queue.  So the queue is used up after
as many steps as there are links to follow, one for the start and one for each parent of a visited
commit, whatever the table holds: links back, parents that are not stored and parents named twice
cost a step each.  As the walk visits the generations one after the other, the first ancestor of
`a` that it meets on the way back from `b` is one with a shortest way from `b`.
-/

namespace Coauthor

namespace Commits

variable {commits : Commits} {a b hash found : CommitHash} {seen queue : List CommitHash} {n : Nat}

/-! ## Ways of parent links -/

/-- A way of so many parent links from a commit to another. -/
inductive Path (commits : Commits) : Nat → CommitHash → CommitHash → Prop where
  | here (hash : CommitHash) : Path commits 0 hash hash
  | up {n : Nat} {child parent hash : CommitHash} (hlink : parent ∈ commits.parentsOf child)
      (hpath : Path commits n parent hash) : Path commits (n + 1) child hash

theorem mem_generation_iff :
    hash ∈ commits.generation queue n ↔ ∃ start ∈ queue, commits.Path n start hash := by
  induction n generalizing queue with
  | zero =>
      constructor
      · intro hmem
        exact ⟨hash, hmem, .here hash⟩
      · rintro ⟨start, hstart, hpath⟩
        cases hpath
        exact hstart
  | succ n ih =>
      rw [generation, ih]
      constructor
      · rintro ⟨parent, hparent, hpath⟩
        obtain ⟨child, hchild, hlink⟩ := List.mem_flatMap.mp hparent
        exact ⟨child, hchild, .up hlink hpath⟩
      · rintro ⟨child, hchild, hpath⟩
        cases hpath with
        | up hlink hpath => exact ⟨_, List.mem_flatMap.mpr ⟨child, hchild, hlink⟩, hpath⟩

theorem mem_generation_singleton_iff :
    hash ∈ commits.generation [b] n ↔ commits.Path n b hash := by
  simp [mem_generation_iff]

/-- A hash that both commits reach, with a way from the second that is not longer than that to any
other. -/
structure Nearest (commits : Commits) (a b found : CommitHash) : Prop where
  reaches : commits.Reaches a found
  shortest : ∃ n, commits.Path n b found ∧
    ∀ hash m, commits.Reaches a hash → commits.Path m b hash → n ≤ m

theorem nearest_of_commonAncestor? (hfound : commits.commonAncestor? a b = some found) :
    commits.Nearest a b found := by
  obtain ⟨n, hbefore, hfirst⟩ := commonAncestor?_eq_some_iff.mp hfound
  refine ⟨(reaches_of_commonAncestor? hfound).1, n,
    mem_generation_singleton_iff.mp (List.mem_of_find?_eq_some hfirst), fun hash m hreaches hpath =>
      not_lt.mp fun hless => ?_⟩
  have hmissed := List.find?_eq_none.mp (hbefore m hless) hash
    (mem_generation_singleton_iff.mpr hpath)
  exact hmissed (decide_eq_true (mem_ancestry.mpr hreaches))

theorem commonAncestor?_eq_none_iff :
    commits.commonAncestor? a b = none ↔
      ∀ hash, commits.Reaches a hash → ¬ commits.Reaches b hash := by
  constructor
  · intro hnone hash ha hb
    obtain ⟨found, hfound⟩ := exists_commonAncestor? ha hb
    cases hnone.symm.trans hfound
  · intro hapart
    cases hfound : commits.commonAncestor? a b with
    | none => rfl
    | some found =>
        obtain ⟨ha, hb⟩ := reaches_of_commonAncestor? hfound
        exact absurd hb (hapart found ha)

/-! ## Nothing is visited twice -/

theorem not_mem_walk_of_mem (hmem : hash ∈ seen) : hash ∉ commits.walk seen queue := by
  fun_induction walk commits seen queue with
  | case1 => exact List.not_mem_nil
  | case2 seen first rest hfirst ih => exact ih hmem
  | case3 seen first rest hfirst ih =>
      rw [List.mem_cons, not_or]
      exact ⟨fun hsame => hfirst (hsame ▸ hmem), ih (.tail _ hmem)⟩

theorem nodup_walk (commits : Commits) (seen queue : List CommitHash) :
    (commits.walk seen queue).Nodup := by
  fun_induction walk commits seen queue with
  | case1 => exact List.nodup_nil
  | case2 seen first rest hfirst ih => exact ih
  | case3 seen first rest hfirst ih =>
      exact List.nodup_cons.mpr ⟨not_mem_walk_of_mem List.mem_cons_self, ih⟩

/-! ## One step after the other -/

/-- A walk on its way: what it has visited, latest first, and what waits. -/
structure Walk where
  visited : List CommitHash
  queue : List CommitHash

namespace Walk

def start (hash : CommitHash) : Walk := ⟨[], [hash]⟩

/-- Takes what waits first. -/
def step (commits : Commits) (walk : Walk) : Walk :=
  match walk.queue with
  | [] => walk
  | hash :: rest =>
      if hash ∈ walk.visited then { walk with queue := rest }
      else { visited := hash :: walk.visited, queue := rest ++ commits.parentsOf hash }

/-- What is still to be visited. -/
def remaining (commits : Commits) (walk : Walk) : List CommitHash :=
  commits.walk walk.visited walk.queue

/-- What will have been visited in the end, first to last. -/
def order (commits : Commits) (walk : Walk) : List CommitHash :=
  walk.visited.reverse ++ walk.remaining commits

/-- What waits, and the parents of what is still to be visited. -/
def links (commits : Commits) (walk : Walk) : Nat :=
  walk.queue.length + ((walk.remaining commits).flatMap commits.parentsOf).length

variable (commits) (walk : Walk)

/-- A step takes one link, and leaves the rest of the walk as it was. -/
theorem step_cases :
    walk.queue = [] ∧ walk.step commits = walk ∨
      (walk.step commits).order commits = walk.order commits ∧
        (walk.step commits).links commits + 1 = walk.links commits := by
  obtain ⟨visited, queue⟩ := walk
  cases queue with
  | nil => exact .inl ⟨rfl, rfl⟩
  | cons hash rest =>
      right
      simp only [step, order, links, remaining]
      split_ifs with hmem
      · rw [Commits.walk.eq_def commits visited (hash :: rest)]
        simp only [hmem, if_true, List.length_cons, true_and]
        omega
      · rw [Commits.walk.eq_def commits visited (hash :: rest)]
        simp only [hmem, if_false, List.reverse_cons, List.append_assoc, List.singleton_append,
          List.flatMap_cons, List.length_append, List.length_cons, true_and]
        omega

theorem links_eq_zero_iff : walk.links commits = 0 ↔ walk.queue = [] := by
  obtain ⟨visited, queue⟩ := walk
  cases queue with
  | nil => simp [links, remaining, Commits.walk]
  | cons hash rest => simp [links]

theorem order_iterate (n : Nat) :
    ((step commits)^[n] walk).order commits = walk.order commits := by
  induction n generalizing walk with
  | zero => rfl
  | succ n ih =>
      rw [Function.iterate_succ_apply, ih]
      rcases walk.step_cases commits with ⟨-, hsame⟩ | ⟨horder, -⟩
      · rw [hsame]
      · exact horder

theorem links_iterate (n : Nat) :
    ((step commits)^[n] walk).links commits = walk.links commits - n := by
  induction n generalizing walk with
  | zero => rfl
  | succ n ih =>
      rw [Function.iterate_succ_apply, ih]
      rcases walk.step_cases commits with ⟨hempty, hsame⟩ | ⟨-, hlinks⟩
      · rw [hsame, (walk.links_eq_zero_iff commits).mpr hempty]
        omega
      · omega

/-- The queue is used up after as many steps as there are links, and not before. -/
theorem queue_iterate_eq_nil_iff (n : Nat) :
    ((step commits)^[n] walk).queue = [] ↔ walk.links commits ≤ n := by
  rw [← links_eq_zero_iff commits, links_iterate]
  omega

end Walk

/-- The walk from a commit ends after so many steps, and has then visited the listed hashes, which
are those that can be reached, each once and in this order. -/
structure Visits (commits : Commits) (hash : CommitHash) (order : List CommitHash) (steps : Nat) :
    Prop where
  nodup : order.Nodup
  mem_iff : ∀ other, other ∈ order ↔ commits.Reaches hash other
  ends : ∀ n, ((Walk.step commits)^[n] (.start hash)).queue = [] ↔ steps ≤ n
  visited : ∀ n ≥ steps, ((Walk.step commits)^[n] (.start hash)).visited.reverse = order

theorem visits_ancestry (commits : Commits) (hash : CommitHash) :
    commits.Visits hash (commits.ancestry hash)
      (1 + ((commits.ancestry hash).flatMap commits.parentsOf).length) where
  nodup := commits.nodup_walk [] [hash]
  mem_iff _ := mem_ancestry
  ends n := Walk.queue_iterate_eq_nil_iff commits (.start hash) n
  visited n hn := by
    have hempty := (Walk.queue_iterate_eq_nil_iff commits (.start hash) n).mpr hn
    have horder := Walk.order_iterate commits (.start hash) n
    rwa [Walk.order, Walk.remaining, hempty, Commits.walk, List.append_nil] at horder

end Commits

namespace Store

variable {store : Store} {id : ProjectId} {project : Project} {a b : CommitHash}

/-- In every table of commits, two stored commits have a common ancestor unless no hash can be
reached from both; the one that is found is a nearest one to the second.  The walk visits whatever
can be reached, once each, and ends. -/
theorem commonAncestor_nearest (hproject : store.projects.get? id = some project)
    (a b : CommitHash) :
    ((∃ what, store.commonAncestor id a b = .error (.notFound what)) ↔
      project.commits.contains a = false ∨ project.commits.contains b = false ∨
        ∀ hash, project.commits.Reaches a hash → ¬ project.commits.Reaches b hash) ∧
    ((¬ ∃ what, store.commonAncestor id a b = .error (.notFound what)) →
      ∃ found, store.commonAncestor id a b = .ok found ∧ project.commits.Nearest a b found) ∧
    ∀ hash, project.commits.Visits hash (project.commits.ancestry hash)
      (1 + ((project.commits.ancestry hash).flatMap project.commits.parentsOf).length) := by
  rw [← Commits.commonAncestor?_eq_none_iff]
  refine ⟨?_, ?_, project.commits.visits_ancestry⟩
  · rcases commonAncestor_cases hproject a b with ⟨what, hrefused, hwhy⟩ |
      ⟨found, hok, ha, hb, hfound⟩
    · exact iff_of_true ⟨what, hrefused⟩ hwhy
    · refine iff_of_false ?_ (by simp [ha, hb, hfound])
      rintro ⟨what, hrefused⟩
      cases hok.symm.trans hrefused
  · intro hanswered
    rcases commonAncestor_cases hproject a b with ⟨what, hrefused, -⟩ |
      ⟨found, hok, -, -, hfound⟩
    · exact absurd ⟨what, hrefused⟩ hanswered
    · exact ⟨found, hok, Commits.nearest_of_commonAncestor? hfound⟩

/-- Two roots, one of which links back to `#b`, and two commits with a parent that is not stored,
one of which names another parent twice. -/
def tangled : Store :=
  [("#r", ["#b"]), ("#s", []), ("#m", ["#r", "#gone", "#r"]), ("#a", ["#gone"]),
    ("#b", ["#m", "#s"])].foldl (fun store (hash, parents) =>
      let commit : Commit :=
        { id := hash, root := "", parents, updater := [], time := 0, message := ""
          branchName := none }
      store.createProject "p" "b"
        { projectId := "p", branchName := none, commit, coreObjects := ∅, oldHash := none })
    (.start .never)

/-- The parent that is not stored is the common ancestor, and the walk to it passes seven links. -/
theorem commonAncestor_nearest_tangled :
    ∃ project, tangled.projects.get? "p" = some project ∧
      tangled.commonAncestor "p" "#a" "#b" = .ok "#gone" ∧
      project.commits.Nearest "#a" "#b" "#gone" ∧
      project.commits.Visits "#b" ["#b", "#m", "#s", "#r", "#gone"] 7 := by
  have hanswer : tangled.commonAncestor "p" "#a" "#b" = .ok "#gone" := by cbv
  have hwalk : (tangled.projects.get? "p").map (fun project =>
      (project.commits.ancestry "#b",
        ((project.commits.ancestry "#b").flatMap project.commits.parentsOf).length)) =
      some (["#b", "#m", "#s", "#r", "#gone"], 6) := by cbv
  obtain ⟨project, hproject, hvisited⟩ := Option.map_eq_some_iff.mp hwalk
  obtain ⟨horder, hlinks⟩ := Prod.mk.inj hvisited
  obtain ⟨-, hnearest, hvisits⟩ := commonAncestor_nearest hproject "#a" "#b"
  have hanswered : ¬ ∃ what, tangled.commonAncestor "p" "#a" "#b" = .error (.notFound what) := by
    rw [hanswer]
    rintro ⟨what, hrefused⟩
    cases hrefused
  obtain ⟨found, hfound, hnear⟩ := hnearest hanswered
  obtain rfl : "#gone" = found := Except.ok.inj (hanswer.symm.trans hfound)
  have hb := hvisits "#b"
  rw [hlinks, horder] at hb
  exact ⟨project, hproject, hanswer, hnear, hb⟩

end Store

end Coauthor
