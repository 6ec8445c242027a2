import Coauthor.Store.Store
import Mathlib.Data.Nat.Find
import Mathlib.Logic.Relation
import Mathlib.Tactic.Common

/-!
# Ancestors, generation by generation

The breadth-first walk from a commit takes its generations one after the other: first the
commit, then its parents, then theirs.  It leaves out what it has seen, and nothing is lost by
that, since whatever a second visit would lead to was found from the first.  So the common
ancestor of `a` and `b` is the first ancestor of `a` that is met on the way back from `b`,
which need not be `a` itself where `b` descends from `a`: a merge may lead past `a`, by a
shorter way, to a commit that `a` descends from.
-/

namespace Coauthor

namespace Commits

variable {commits : Commits} {a b hash found : CommitHash} {seen queue : List CommitHash}
  {test : CommitHash → Bool}

/-- The second commit is the first or one of its ancestors. -/
def Reaches (commits : Commits) : CommitHash → CommitHash → Prop :=
  Relation.ReflTransGen fun child parent => parent ∈ commits.parentsOf child

/-- What is so many parent links away from a list of commits, in the order of the links. -/
def generation (commits : Commits) (queue : List CommitHash) : Nat → List CommitHash
  | 0 => queue
  | n + 1 => commits.generation (queue.flatMap commits.parentsOf) n

theorem exists_reaches_of_mem_generation {n : Nat} (hmem : hash ∈ commits.generation queue n) :
    ∃ start ∈ queue, commits.Reaches start hash := by
  induction n generalizing queue with
  | zero => exact ⟨hash, hmem, .refl⟩
  | succ n ih =>
      obtain ⟨parent, hparent, hreaches⟩ := ih hmem
      obtain ⟨start, hstart, hlink⟩ := List.mem_flatMap.mp hparent
      exact ⟨start, hstart, .head hlink hreaches⟩

theorem exists_mem_generation_of_reaches (hreaches : commits.Reaches b a) (hmem : b ∈ queue) :
    ∃ n, a ∈ commits.generation queue n := by
  induction hreaches using Relation.ReflTransGen.head_induction_on generalizing queue with
  | refl => exact ⟨0, hmem⟩
  | head hlink _ ih =>
      obtain ⟨n, hn⟩ := ih (List.mem_flatMap.mpr ⟨_, hmem, hlink⟩)
      exact ⟨n + 1, hn⟩

theorem reaches_iff_exists_mem_generation :
    commits.Reaches b a ↔ ∃ n, a ∈ commits.generation [b] n := by
  constructor
  · intro hreaches
    exact exists_mem_generation_of_reaches hreaches (List.mem_singleton.mpr rfl)
  · rintro ⟨n, hn⟩
    obtain ⟨start, hstart, hreaches⟩ := exists_reaches_of_mem_generation hn
    exact List.mem_singleton.mp hstart ▸ hreaches

/-! ## What a walk has not seen -/

/-- The members of a list that have not been seen, each where it first stands. -/
def fresh (seen : List CommitHash) : List CommitHash → List CommitHash
  | [] => []
  | hash :: rest => if hash ∈ seen then fresh seen rest else hash :: fresh (hash :: seen) rest

/-- What has been seen once a list was visited. -/
def visited (seen queue : List CommitHash) : List CommitHash := (fresh seen queue).reverse ++ seen

theorem visited_cons_of_mem (hmem : hash ∈ seen) :
    visited seen (hash :: queue) = visited seen queue := by
  rw [visited, fresh, if_pos hmem, visited]

theorem visited_cons_of_not_mem (hnew : hash ∉ seen) :
    visited seen (hash :: queue) = visited (hash :: seen) queue := by
  rw [visited, fresh, if_neg hnew, List.reverse_cons, List.append_assoc, visited,
    List.singleton_append]

@[simp]
theorem mem_visited : hash ∈ visited seen queue ↔ hash ∈ queue ∨ hash ∈ seen := by
  induction queue generalizing seen with
  | nil => simp [visited, fresh]
  | cons first rest ih =>
      by_cases hfirst : first ∈ seen
      · rw [visited_cons_of_mem hfirst, ih]
        constructor
        · rintro (hrest | hseen)
          · exact .inl (.tail _ hrest)
          · exact .inr hseen
        · rintro (hqueue | hseen)
          · rcases List.mem_cons.mp hqueue with rfl | hrest
            · exact .inr hfirst
            · exact .inl hrest
          · exact .inr hseen
      · rw [visited_cons_of_not_mem hfirst, ih, List.mem_cons, List.mem_cons]
        tauto

theorem fresh_append (seen queue later : List CommitHash) :
    fresh seen (queue ++ later) = fresh seen queue ++ fresh (visited seen queue) later := by
  induction queue generalizing seen with
  | nil => rfl
  | cons first rest ih =>
      by_cases hfirst : first ∈ seen
      · rw [visited_cons_of_mem hfirst, List.cons_append, fresh, if_pos hfirst, fresh,
          if_pos hfirst, ih]
      · rw [visited_cons_of_not_mem hfirst, List.cons_append, fresh, if_neg hfirst, fresh,
          if_neg hfirst, ih, List.cons_append]

theorem fresh_of_subset (hsubset : queue ⊆ seen) : fresh seen queue = [] := by
  induction queue with
  | nil => rfl
  | cons first rest ih =>
      rw [fresh, if_pos (hsubset List.mem_cons_self)]
      exact ih fun _ hmem => hsubset (.tail _ hmem)

/-- What a second visit of a commit leads to has been seen. -/
theorem fresh_flatMap {next : CommitHash → List CommitHash} {known : List CommitHash}
    (hknown : ∀ hash ∈ known, next hash ⊆ seen) :
    fresh seen ((fresh known queue).flatMap next) = fresh seen (queue.flatMap next) := by
  induction queue generalizing seen known with
  | nil => rfl
  | cons first rest ih =>
      by_cases hfirst : first ∈ known
      · have hseen := fresh_of_subset (hknown first hfirst)
        have hsame : visited seen (next first) = seen := by
          rw [visited, hseen, List.reverse_nil, List.nil_append]
        rw [fresh, if_pos hfirst, List.flatMap_cons, fresh_append, hseen, hsame,
          List.nil_append]
        exact ih hknown
      · rw [fresh, if_neg hfirst, List.flatMap_cons, List.flatMap_cons, fresh_append,
          fresh_append]
        congr 1
        apply ih
        intro hash hmem parent hparent
        rcases List.mem_cons.mp hmem with rfl | hmem
        · exact mem_visited.mpr (.inl hparent)
        · exact mem_visited.mpr (.inr (hknown hash hmem hparent))

theorem find?_fresh (hseen : ∀ hash ∈ seen, test hash = false) :
    (fresh seen queue).find? test = queue.find? test := by
  induction queue generalizing seen with
  | nil => rfl
  | cons first rest ih =>
      by_cases hfirst : first ∈ seen
      · rw [fresh, if_pos hfirst, ih hseen, List.find?_cons_of_neg]
        simp [hseen first hfirst]
      · rw [fresh, if_neg hfirst]
        cases htest : test first with
        | true => rw [List.find?_cons_of_pos htest, List.find?_cons_of_pos htest]
        | false =>
            have hmiss : ¬ test first = true := by simp [htest]
            rw [List.find?_cons_of_neg hmiss, List.find?_cons_of_neg hmiss]
            apply ih
            intro hash hmem
            rcases List.mem_cons.mp hmem with rfl | hmem
            · exact htest
            · exact hseen hash hmem

/-! ## The walk -/

theorem walk_append (commits : Commits) (seen queue later : List CommitHash) :
    commits.walk seen (queue ++ later) = fresh seen queue ++ commits.walk (visited seen queue)
      (later ++ (fresh seen queue).flatMap commits.parentsOf) := by
  induction queue generalizing seen later with
  | nil => simp [fresh, visited]
  | cons first rest ih =>
      rw [List.cons_append, walk]
      by_cases hfirst : first ∈ seen
      · rw [if_pos hfirst, ih, visited_cons_of_mem hfirst, fresh, if_pos hfirst]
      · rw [if_neg hfirst, List.append_assoc, ih, visited_cons_of_not_mem hfirst, fresh,
          if_neg hfirst, List.cons_append, List.flatMap_cons, List.append_assoc]

theorem walk_eq_append (commits : Commits) (seen queue : List CommitHash) :
    commits.walk seen queue = fresh seen queue ++
      commits.walk (visited seen queue) ((fresh seen queue).flatMap commits.parentsOf) := by
  have happend := walk_append commits seen queue []
  rwa [List.append_nil, List.nil_append] at happend

theorem walk_congr {other : List CommitHash} (hsame : fresh seen queue = fresh seen other) :
    commits.walk seen queue = commits.walk seen other := by
  rw [walk_eq_append, walk_eq_append commits seen other, visited, visited, hsame]

/-- The parents of what was seen have been seen or are next. -/
def Closed (commits : Commits) (seen queue : List CommitHash) : Prop :=
  ∀ hash ∈ seen, ∀ parent ∈ commits.parentsOf hash, parent ∈ queue ∨ parent ∈ seen

theorem Closed.next (h : commits.Closed seen queue) :
    commits.Closed (visited seen queue) (queue.flatMap commits.parentsOf) := by
  intro hash hmem parent hparent
  rcases mem_visited.mp hmem with hqueue | hseen
  · exact .inl (List.mem_flatMap.mpr ⟨hash, hqueue, hparent⟩)
  · exact .inr (mem_visited.mpr (h hash hseen parent hparent))

/-- The walk takes a whole generation, and goes on with the next one. -/
theorem walk_generation (h : commits.Closed seen queue) :
    commits.walk seen queue = fresh seen queue ++
      commits.walk (visited seen queue) (queue.flatMap commits.parentsOf) := by
  rw [walk_eq_append]
  congr 1
  apply walk_congr
  apply fresh_flatMap
  intro hash hmem parent hparent
  exact mem_visited.mpr (h hash hmem parent hparent)

/-- The walk finds what the first generation that has any shows first. -/
theorem find?_walk {n : Nat} (h : commits.Closed seen queue)
    (hseen : ∀ hash ∈ seen, test hash = false)
    (hbefore : ∀ k < n, (commits.generation queue k).find? test = none)
    (hfound : (commits.generation queue n).find? test = some found) :
    (commits.walk seen queue).find? test = some found := by
  induction n generalizing seen queue with
  | zero =>
      have hfirst : queue.find? test = some found := hfound
      rw [walk_generation h, List.find?_append, find?_fresh hseen, hfirst]
      rfl
  | succ n ih =>
      have hnone : queue.find? test = none := hbefore 0 (Nat.succ_pos n)
      rw [walk_generation h, List.find?_append, find?_fresh hseen, hnone, Option.none_or]
      refine ih h.next ?_ (fun k hk => hbefore (k + 1) (Nat.succ_lt_succ hk)) hfound
      intro hash hmem
      rcases mem_visited.mp hmem with hqueue | hold
      · simpa using List.find?_eq_none.mp hnone hash hqueue
      · exact hseen hash hold

theorem exists_reaches_of_mem_walk (hmem : hash ∈ commits.walk seen queue) :
    ∃ start ∈ queue, commits.Reaches start hash := by
  fun_induction walk commits seen queue with
  | case1 => cases hmem
  | case2 seen first rest hfirst ih =>
      obtain ⟨start, hstart, hreaches⟩ := ih hmem
      exact ⟨start, .tail _ hstart, hreaches⟩
  | case3 seen first rest hfirst ih =>
      rcases List.mem_cons.mp hmem with rfl | hmem
      · exact ⟨hash, List.mem_cons_self, .refl⟩
      · obtain ⟨start, hstart, hreaches⟩ := ih hmem
        rcases List.mem_append.mp hstart with hrest | hparent
        · exact ⟨start, .tail _ hrest, hreaches⟩
        · exact ⟨first, List.mem_cons_self, .head hparent hreaches⟩

/-- There is a first generation with a commit that passes the test. -/
theorem exists_first_generation {n : Nat} (test : CommitHash → Bool)
    (hmem : hash ∈ commits.generation queue n)
    (htest : test hash = true) :
    ∃ n found, (∀ k < n, (commits.generation queue k).find? test = none) ∧
      (commits.generation queue n).find? test = some found := by
  have hexists : ∃ n, ((commits.generation queue n).find? test).isSome :=
    ⟨n, List.find?_isSome.mpr ⟨hash, hmem, htest⟩⟩
  obtain ⟨found, hfound⟩ := Option.isSome_iff_exists.mp (Nat.find_spec hexists)
  refine ⟨Nat.find hexists, found, fun k hk => ?_, hfound⟩
  simpa using Nat.find_min hexists hk

theorem closed_nil (commits : Commits) (queue : List CommitHash) : commits.Closed [] queue :=
  fun _ hmem => nomatch hmem

/-- The walk from a commit visits its ancestors and nothing else. -/
theorem mem_ancestry : a ∈ commits.ancestry b ↔ commits.Reaches b a := by
  constructor
  · intro hmem
    obtain ⟨start, hstart, hreaches⟩ := exists_reaches_of_mem_walk hmem
    exact List.mem_singleton.mp hstart ▸ hreaches
  · intro hreaches
    obtain ⟨n, hn⟩ := reaches_iff_exists_mem_generation.mp hreaches
    obtain ⟨first, found, hbefore, hfound⟩ :=
      exists_first_generation (fun hash => hash = a) hn (by simp)
    have hwalk := find?_walk (commits.closed_nil [b]) (fun _ hmem => nomatch hmem) hbefore hfound
    have hsame : found = a := by simpa using List.find?_some hwalk
    exact hsame ▸ List.mem_of_find?_eq_some hwalk

/-! ## The common ancestor -/

/-- On the way back from `b`, generation by generation, `a` is met before every other
ancestor of `a`. -/
def MeetsFirst (commits : Commits) (a b : CommitHash) : Prop :=
  ∃ n before after, commits.generation [b] n = before ++ a :: after ∧
    (∀ hash ∈ before, ¬ commits.Reaches a hash) ∧
    ∀ k < n, ∀ hash ∈ commits.generation [b] k, ¬ commits.Reaches a hash

theorem MeetsFirst.reaches (h : commits.MeetsFirst a b) : commits.Reaches b a := by
  obtain ⟨n, before, after, hsplit, -, -⟩ := h
  refine reaches_iff_exists_mem_generation.mpr ⟨n, ?_⟩
  rw [hsplit]
  exact List.mem_append_right _ List.mem_cons_self

/-- The common ancestor is the first ancestor of `a` in the first generation that has one. -/
theorem commonAncestor?_eq_some_iff :
    commits.commonAncestor? a b = some found ↔
      ∃ n, (∀ k < n, (commits.generation [b] k).find? (· ∈ commits.ancestry a) = none) ∧
        (commits.generation [b] n).find? (· ∈ commits.ancestry a) = some found := by
  constructor
  · intro hfound
    have htest := List.find?_some hfound
    obtain ⟨n, hn⟩ := reaches_iff_exists_mem_generation.mp
      (mem_ancestry.mp (List.mem_of_find?_eq_some hfound))
    obtain ⟨first, other, hbefore, hother⟩ :=
      exists_first_generation (fun hash => hash ∈ commits.ancestry a) hn htest
    have hwalk := find?_walk (commits.closed_nil [b]) (fun _ hmem => nomatch hmem) hbefore hother
    have hsame : found = other := Option.some.inj (hfound.symm.trans hwalk)
    exact ⟨first, hbefore, hsame ▸ hother⟩
  · rintro ⟨n, hbefore, hfound⟩
    exact find?_walk (commits.closed_nil [b]) (fun _ hmem => nomatch hmem) hbefore hfound

theorem commonAncestor?_eq_self_iff :
    commits.commonAncestor? a b = some a ↔ commits.MeetsFirst a b := by
  rw [commonAncestor?_eq_some_iff]
  apply exists_congr
  intro n
  simp only [List.find?_eq_none, List.find?_eq_some_iff_append, decide_eq_true_eq, mem_ancestry,
    Bool.not_eq_eq_eq_not, Bool.not_true, decide_eq_false_iff_not]
  constructor
  · rintro ⟨hearlier, -, before, after, hsplit, hbefore⟩
    exact ⟨before, after, hsplit, hbefore, hearlier⟩
  · rintro ⟨before, after, hsplit, hbefore, hearlier⟩
    exact ⟨hearlier, .refl, before, after, hsplit, hbefore⟩

/-- Two commits with a common ancestor have one that is found. -/
theorem exists_commonAncestor? (ha : commits.Reaches a hash) (hb : commits.Reaches b hash) :
    ∃ found, commits.commonAncestor? a b = some found := by
  obtain ⟨n, hn⟩ := reaches_iff_exists_mem_generation.mp hb
  obtain ⟨first, found, hfirst⟩ := exists_first_generation
    (fun hash => hash ∈ commits.ancestry a) hn (decide_eq_true (mem_ancestry.mpr ha))
  exact ⟨found, commonAncestor?_eq_some_iff.mpr ⟨first, hfirst⟩⟩

/-- What is found is an ancestor of both. -/
theorem reaches_of_commonAncestor? (hfound : commits.commonAncestor? a b = some found) :
    commits.Reaches a found ∧ commits.Reaches b found := by
  have hreachable := List.find?_some hfound
  exact ⟨mem_ancestry.mp (of_decide_eq_true hreachable),
    mem_ancestry.mp (List.mem_of_find?_eq_some hfound)⟩

/-! ## Histories without merges -/

theorem generation_append (commits : Commits) (queue : List CommitHash) (m n : Nat) :
    commits.generation queue (m + n) = commits.generation (commits.generation queue m) n := by
  induction m generalizing queue with
  | zero => rw [Nat.zero_add, generation]
  | succ m ih =>
      rw [Nat.succ_add]
      exact ih _

theorem length_generation_le (hlinear : ∀ hash, (commits.parentsOf hash).length ≤ 1)
    (hqueue : queue.length ≤ 1) (n : Nat) : (commits.generation queue n).length ≤ 1 := by
  induction n generalizing queue with
  | zero => exact hqueue
  | succ n ih =>
      apply ih
      cases queue with
      | nil => simp
      | cons first rest =>
          have hrest : rest = [] := by simpa using hqueue
          simp [hrest, hlinear first]

/-- Where every commit has one parent at most, and none is its own ancestor, an ancestor is
always met first. -/
theorem meetsFirst_iff_reaches_of_linear
    (hlinear : ∀ hash, (commits.parentsOf hash).length ≤ 1)
    (hacyclic : ∀ hash other, commits.Reaches hash other → commits.Reaches other hash →
      hash = other) : commits.MeetsFirst a b ↔ commits.Reaches b a := by
  refine ⟨MeetsFirst.reaches, fun hreaches => ?_⟩
  have hexists := reaches_iff_exists_mem_generation.mp hreaches
  have hsingle (n : Nat) (hash : CommitHash) (hmem : hash ∈ commits.generation [b] n) :
      commits.generation [b] n = [hash] := by
    have hlength : (commits.generation [b] n).length ≤ 1 :=
      length_generation_le hlinear (Nat.le_of_eq List.length_singleton) n
    obtain ⟨found, hfound⟩ := List.length_eq_one_iff.mp
      (Nat.le_antisymm hlength (List.length_pos_of_mem hmem))
    rw [hfound, List.mem_singleton] at hmem
    rw [hfound, hmem]
  refine ⟨Nat.find hexists, [], [], hsingle _ a (Nat.find_spec hexists), List.forall_mem_nil _,
    fun k hk hash hmem hback => ?_⟩
  -- What is met before leads to `a`, so it cannot be an ancestor of `a` as well.
  have hlast := Nat.find_spec hexists
  rw [← Nat.add_sub_cancel' (Nat.le_of_lt hk), generation_append, hsingle k hash hmem] at hlast
  obtain ⟨start, hstart, hforth⟩ := exists_reaches_of_mem_generation hlast
  obtain rfl := List.mem_singleton.mp hstart
  obtain rfl := hacyclic start a hforth hback
  exact Nat.find_min hexists hk hmem

end Commits

/-! ## The answer of a store -/

namespace Store

variable {store : Store} {id : ProjectId} {project : Project}

/-- The answer to a question for a common ancestor, case by case. -/
theorem commonAncestor_cases (hproject : store.projects.get? id = some project) (a b : CommitHash) :
    (∃ what, store.commonAncestor id a b = .error (.notFound what) ∧
      (project.commits.contains a = false ∨ project.commits.contains b = false ∨
        project.commits.commonAncestor? a b = none)) ∨
    ∃ found, store.commonAncestor id a b = .ok found ∧
      project.commits.contains a = true ∧ project.commits.contains b = true ∧
        project.commits.commonAncestor? a b = some found := by
  simp only [commonAncestor, Store.project, hproject, bind, Except.bind]
  split_ifs with ha hb
  · exact .inl ⟨a, rfl, .inl ha⟩
  · exact .inl ⟨b, rfl, .inr (.inl hb)⟩
  · cases hfound : project.commits.commonAncestor? a b with
    | none => exact .inl ⟨_, rfl, .inr (.inr rfl)⟩
    | some found => exact .inr ⟨found, rfl, eq_true_of_ne_false ha, eq_true_of_ne_false hb, rfl⟩

end Store

end Coauthor
