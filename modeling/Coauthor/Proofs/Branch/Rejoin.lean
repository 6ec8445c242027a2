import Coauthor.Proofs.Branch.Settlement
import Coauthor.Proofs.Store.Ancestry
import Coauthor.Proofs.Store.Heads
import Mathlib

/-!
# What a rejoin makes of a queued commit

A coordinator that rejoins asks for the common ancestor of its first queued commit and the head
of the server, and takes the commit for landed if the answer is the commit itself.  The answer
is the commit if the commit is met before every other of its ancestors on the way back from the
head.  An ancestor of the head is always met like that where there are no merges.  But what
another client merged with the head may lead past a landed commit, by a shorter way, to one of
its ancestors, and then the landed commit is settled as forked.
-/

namespace Coauthor

open Coordinator

namespace Store

variable {store : Store} {id : ProjectId} {project : Project} {a b found : CommitHash}

/-- The common ancestor of two stored commits. -/
theorem commonAncestor_eq_ok_iff (hproject : store.projects.get? id = some project)
    (ha : project.commits.contains a) (hb : project.commits.contains b) :
    store.commonAncestor id a b = .ok found ↔
      project.commits.commonAncestor? a b = some found := by
  rcases commonAncestor_cases hproject a b with ⟨what, hrefused, hwhy⟩ |
    ⟨other, hok, -, -, hother⟩
  · have hnone : project.commits.commonAncestor? a b = none := by simpa [ha, hb] using hwhy
    simp [hrefused, hnone]
  · rw [hok, hother, Except.ok.injEq, Option.some.injEq]

end Store

namespace Coordinator

variable {coordinator : Coordinator} {head : CommitHash} {queued : CommitData}
  {rest : List CommitData} {result : Except RemoteError CommitHash}

/-- What the answer tells of the first queued commit: that it landed, if it is the answer itself,
and that it forked, if the answer is another commit. -/
theorem settled_ancestor_iff (hphase : coordinator.phase = .findingAncestor head)
    (hcommits : coordinator.branch.commits = queued :: rest)
    (result : Except RemoteError CommitHash) :
    let news := coordinator.news (coordinator.handle (.ancestor result)).1
    (.settled queued.hash .synced ∈ news ↔ result = .ok queued.hash) ∧
      (.settled queued.hash .forked ∈ news ↔ ∃ other, result = .ok other ∧
        other ≠ queued.hash) := by
  rw [handle_ancestor hphase]
  suffices hadded : ∃ added,
      (coordinator.rested.onAncestor head result).1.events = coordinator.events ++ added ∧
        (.settled queued.hash .synced ∈ added ↔ result = .ok queued.hash) ∧
        (.settled queued.hash .forked ∈ added ↔ ∃ other, result = .ok other ∧
          other ≠ queued.hash) by
    obtain ⟨added, hevents, hsynced, hforked⟩ := hadded
    exact ⟨(mem_news_finish hevents rfl).trans hsynced, (mem_news_finish hevents rfl).trans hforked⟩
  have hhandled := handled_onAncestor coordinator.rested head result
  generalize coordinator.rested.onAncestor head result = move at hhandled
  have hrested : coordinator.rested.branch.commits = queued :: rest := hcommits
  cases hhandled with
  | interrupted hfault =>
      refine ⟨[], (events_interrupted _).trans (List.append_nil _).symm, ?_⟩
      cases result with
      | ok ancestor => cases hfault
      | error error => simp
  | failed hfails =>
      refine ⟨_, events_fail _ _, ?_⟩
      cases hfails
      simp
  | emptied hnil => cases hrested.symm.trans hnil
  | recognised hqueued =>
      obtain ⟨rfl, -⟩ := List.cons.inj (hrested.symm.trans hqueued)
      exact ⟨_, events_acknowledgeRejoined _ _ _, by simp, by simp⟩
  | diverged hqueued hother =>
      obtain ⟨rfl, -⟩ := List.cons.inj (hrested.symm.trans hqueued)
      have hevents := (events_fork coordinator.rested queued.hash head).trans
        (List.append_assoc ..)
      exact ⟨_, hevents, by simp [hother], by simp [hother]⟩
  | unknown hqueued =>
      exact ⟨[], (List.append_nil _).symm, by simp, by simp⟩

/-- What the server answers about the first queued commit and its head, and what a coordinator
makes of it: the commit counts as landed exactly if it is met first on the way back from the
head.  Any other commit that has an ancestor in common with the head counts as forked.  Where no
commit has two parents, and none is its own ancestor, every ancestor of the head is met first. -/
theorem settled_ancestor_iff_meetsFirst {store : Store} {id : ProjectId} {project : Project}
    {a b : CommitHash} (hproject : store.projects.get? id = some project)
    (ha : project.commits.contains a) (hb : project.commits.contains b) :
    (store.commonAncestor id a b = .ok a ↔ project.commits.MeetsFirst a b) ∧
      (project.commits.MeetsFirst a b → project.commits.Reaches b a) ∧
      (∀ (coordinator : Coordinator) (queued : CommitData) (rest : List CommitData),
        coordinator.phase = .findingAncestor b →
        coordinator.branch.commits = queued :: rest → queued.hash = a →
        let answered := coordinator.handle (.ancestor (store.commonAncestor id a b))
        let news := coordinator.news answered.1
        (.settled a .synced ∈ news ↔ project.commits.MeetsFirst a b) ∧
          (.settled a .forked ∈ news ↔ ¬ project.commits.MeetsFirst a b ∧
            ∃ common, project.commits.Reaches a common ∧ project.commits.Reaches b common)) ∧
      ((∀ hash, (project.commits.parentsOf hash).length ≤ 1) →
        (∀ hash other, project.commits.Reaches hash other → project.commits.Reaches other hash →
          hash = other) →
        (project.commits.MeetsFirst a b ↔ project.commits.Reaches b a)) := by
  have hself : store.commonAncestor id a b = .ok a ↔ project.commits.MeetsFirst a b :=
    (Store.commonAncestor_eq_ok_iff hproject ha hb).trans Commits.commonAncestor?_eq_self_iff
  refine ⟨hself, Commits.MeetsFirst.reaches, ?_, Commits.meetsFirst_iff_reaches_of_linear⟩
  rintro coordinator queued rest hphase hcommits rfl
  obtain ⟨hsynced, hforked⟩ :=
    settled_ancestor_iff hphase hcommits (store.commonAncestor id queued.hash b)
  refine ⟨hsynced.trans hself, hforked.trans ?_⟩
  constructor
  · rintro ⟨other, hanswer, hother⟩
    have hfound := (Store.commonAncestor_eq_ok_iff hproject ha hb).mp hanswer
    refine ⟨fun hmeets => hother ?_, other, Commits.reaches_of_commonAncestor? hfound⟩
    exact Except.ok.inj (hanswer.symm.trans (hself.mpr hmeets))
  · rintro ⟨hmisses, common, hcommon, hhead⟩
    obtain ⟨other, hfound⟩ := Commits.exists_commonAncestor? hcommon hhead
    have hanswer := (Store.commonAncestor_eq_ok_iff hproject ha hb).mpr hfound
    exact ⟨other, hanswer, fun hsame => hmisses (hself.mp (hsame ▸ hanswer))⟩

/-- A commit of the project `p`. -/
def node (id : CommitHash) (parents : List CommitHash) : CommitData :=
  { projectId := "p", branchName := none, coreObjects := ∅, oldHash := none
    commit := { id, root := "", parents, updater := [], time := 0, message := ""
                branchName := none } }

/-- The commits `#a`, `#b` and `#c` follow one another on the root `#r`, and `#c` was merged with
`#e`, which was made on the root as well. -/
def mergedPast : Store :=
  [node "#r" [], node "#a" ["#r"], node "#b" ["#a"], node "#c" ["#b"], node "#e" ["#r"],
    node "#m" ["#c", "#e"]].foldl (fun store data => store.createProject "p" "b" data)
    (.start .snapshot)

/-- The answer to the push of `#a` was lost, and the server has gone on to the merge. -/
def rejoining : Coordinator :=
  ((Dialogue.start "p" "b" "#r").run
    [.told (.commit (node "#a" ["#r"])), .answer (.pushed (.error .disconnected)),
      .answer (.subscribed (.ok ())), .answer (.head (.ok (some "#m")))]).coordinator

/-- The merge leads past `#a` to the root, so that `#a` counts as forked although it landed. -/
theorem settled_ancestor_iff_meetsFirst_merged :
    ∃ project, mergedPast.projects.get? "p" = some project ∧
      project.commits.Reaches "#m" "#a" ∧ ¬ project.commits.MeetsFirst "#a" "#m" ∧
      .settled "#a" .forked ∈ rejoining.news
        (rejoining.handle (.ancestor (mergedPast.commonAncestor "p" "#a" "#m"))).1 := by
  have hphase : rejoining.phase = .findingAncestor "#m" := by
    cbv
  have hcommits : rejoining.branch.commits = [node "#a" ["#r"]] := by
    cbv
  have hanswer : mergedPast.commonAncestor "p" "#a" "#m" = .ok "#r" := by
    cbv
  have hproject : (mergedPast.projects.get? "p").map (fun project =>
      (project.commits.contains "#a", project.commits.contains "#m",
        ["#m", "#c", "#b", "#a"].map project.commits.parentsOf)) =
      some (true, true, [["#c", "#e"], ["#b"], ["#a"], ["#r"]]) := by
    cbv
  obtain ⟨project, hget, hstored⟩ := Option.map_eq_some_iff.mp hproject
  simp only [Prod.mk.injEq, List.map_cons, List.map_nil, List.cons.injEq, and_true] at hstored
  obtain ⟨ha, hm, hmerge, hc, hb, hroot⟩ := hstored
  obtain ⟨hself, -, hsettled, -⟩ := settled_ancestor_iff_meetsFirst hget ha hm
  have hmisses : ¬ project.commits.MeetsFirst "#a" "#m" := fun hmeets => by
    have hother := hanswer.symm.trans (hself.mpr hmeets)
    simp at hother
  have hroot : project.commits.Reaches "#a" "#r" := .single (by simp [hroot])
  have hhead : project.commits.Reaches "#m" "#a" :=
    .head (b := "#c") (by simp [hmerge]) (.head (b := "#b") (by simp [hc]) (.single (by simp [hb])))
  have hforked := (hsettled rejoining (node "#a" ["#r"]) [] hphase hcommits rfl).2.mpr
    ⟨hmisses, "#r", hroot, hhead.trans hroot⟩
  exact ⟨project, hget, hhead, hmisses, hforked⟩

end Coordinator

end Coauthor
