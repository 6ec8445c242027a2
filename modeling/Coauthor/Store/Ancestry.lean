import Coauthor.Commit.Data

/-!
# Ancestry

The ancestors of a commit in breadth-first order.  Parents may be named that are not
stored; they are visited and lead nowhere.  Every visit either takes an unseen
stored commit or shortens the queue, so the walk ends on every table.
-/

namespace Coauthor

abbrev Commits := Table CommitHash CommitData

namespace Commits

/-- The parents of a stored commit; none for a commit that is not stored. -/
def parentsOf (commits : Commits) (hash : CommitHash) : List CommitHash :=
  match commits.get? hash with
  | some data => data.commit.parents
  | none => []

/-- The stored commits that have not been seen. -/
def unseen (commits : Commits) (seen : List CommitHash) : List CommitHash :=
  commits.keys.filter fun hash => hash ∉ seen

theorem mem_keys_of_get? {commits : Commits} {hash : CommitHash} {data : CommitData}
    (hstored : commits.get? hash = some data) : hash ∈ commits.keys := by
  simp only [Table.get?, Option.map_eq_some_iff] at hstored
  obtain ⟨entry, hentry, -⟩ := hstored
  have hkey := List.find?_some hentry
  simp only [decide_eq_true_eq] at hkey
  exact hkey ▸ List.mem_map_of_mem (List.mem_of_find?_eq_some hentry)

theorem unseen_cons (commits : Commits) (hash : CommitHash) (seen : List CommitHash) :
    commits.unseen (hash :: seen) = (commits.unseen seen).filter fun other => other ≠ hash := by
  simp only [unseen, List.filter_filter]
  congr 1
  funext other
  by_cases hsame : other = hash <;> simp [hsame]

theorem length_unseen_cons_le (commits : Commits) (hash : CommitHash) (seen : List CommitHash) :
    (commits.unseen (hash :: seen)).length ≤ (commits.unseen seen).length := by
  rw [unseen_cons]
  exact List.length_filter_le ..

theorem length_unseen_cons_lt {commits : Commits} {hash : CommitHash} {seen : List CommitHash}
    {data : CommitData} (hstored : commits.get? hash = some data) (hnew : hash ∉ seen) :
    (commits.unseen (hash :: seen)).length < (commits.unseen seen).length := by
  rw [unseen_cons]
  refine List.length_filter_lt_length_iff_exists.mpr ⟨hash, ?_, by simp⟩
  simp [unseen, hnew, mem_keys_of_get? hstored]

/-- Visits the queue and then the parents of what it visits, each hash once. -/
def walk (commits : Commits) (seen queue : List CommitHash) : List CommitHash :=
  match queue with
  | [] => []
  | hash :: rest =>
      if hash ∈ seen then walk commits seen rest
      else hash :: walk commits (hash :: seen) (rest ++ commits.parentsOf hash)
termination_by ((commits.unseen seen).length, queue.length)
decreasing_by
  · exact Prod.Lex.right _ (by simp)
  · rename_i hnew
    cases hstored : commits.get? hash with
    | some data => exact Prod.Lex.left _ _ (length_unseen_cons_lt hstored hnew)
    | none =>
        rcases Nat.lt_or_eq_of_le (length_unseen_cons_le commits hash seen) with hless | hequal
        · exact Prod.Lex.left _ _ hless
        · rw [hequal]
          exact Prod.Lex.right _ (by simp [parentsOf, hstored])

/-- A commit and its ancestors, nearest first. -/
def ancestry (commits : Commits) (hash : CommitHash) : List CommitHash :=
  commits.walk [] [hash]

/-- The first ancestor of `b` that is an ancestor of `a`. -/
def commonAncestor? (commits : Commits) (a b : CommitHash) : Option CommitHash :=
  let reachable := commits.ancestry a
  (commits.ancestry b).find? fun hash => hash ∈ reachable

end Commits

end Coauthor
