/-
# `VotingChain.Lib.RunScan` — finding runs in one pass

A run of a list is a contiguous part in which every element is related to the next, and a
maximal one cannot be made longer on either side.  The maximal runs are what
`List.splitBy` cuts a list into.

A scan reads the elements one by one.  It keeps the runs that are over and the one that it is
in, which is over when an element comes that does not go on with it.  So after the last
element all maximal runs but one have been found to be over: the last one is still open
(`done_scan`), and a program that reports a run when it is over must report that one when the
loop is.
-/
import Mathlib.Data.List.SplitBy

namespace RunScan

/-- The runs that are over, and the run that is open. -/
structure Scan (α : Type) where
  done : List (List α)
  current : List α

section
variable {α : Type} {r : α → α → Bool}

/-- What `runs` has to be for `xs`. -/
structure IsMaximalRuns (r : α → α → Bool) (xs : List α) (runs : List (List α)) : Prop where
  flatten : xs = runs.flatten
  nonempty : [] ∉ runs
  related : ∀ run ∈ runs, run.IsChain fun x y => r x y = true
  apart : runs.IsChain fun run next => ∃ hrun hnext, r (run.getLast hrun) (next.head hnext) = false

theorem isMaximalRuns_iff {xs : List α} {runs : List (List α)} :
    IsMaximalRuns r xs runs ↔ xs.splitBy r = runs := by
  rw [List.splitBy_eq_iff]
  constructor
  · intro h
    exact ⟨h.flatten, h.nonempty, h.related, h.apart⟩
  · rintro ⟨hflatten, hnonempty, hrelated, hapart⟩
    exact ⟨hflatten, hnonempty, hrelated, hapart⟩

/-- The open run goes on, or it is over and another one begins. -/
def step (r : α → α → Bool) (s : Scan α) (x : α) : Scan α :=
  if s.current.getLast?.all fun y => r y x then { s with current := s.current ++ [x] }
  else { done := s.done ++ [s.current], current := [x] }

theorem step_of_related {s : Scan α} {x y : α} (hlast : s.current.getLast? = some y)
    (h : r y x = true) : step r s x = { s with current := s.current ++ [x] } := by
  simp [step, hlast, h]

theorem step_of_not_related {s : Scan α} {x y : α} (hlast : s.current.getLast? = some y)
    (h : r y x = false) : step r s x = { done := s.done ++ [s.current], current := [x] } := by
  simp [step, hlast, h]

theorem getLast?_step (s : Scan α) (x : α) : (step r s x).current.getLast? = some x := by
  rw [step]
  split
  · exact List.getLast?_concat
  · rfl

/-- The open run is a run. -/
def Open (r : α → α → Bool) (s : Scan α) : Prop :=
  s.current ≠ [] ∧ s.current.IsChain fun x y => r x y = true

/-- **A scan.**  The runs that are over and the open one are the maximal runs of what has been
read: those from before, and those of the run that was open with what came after it. -/
theorem scan_eq {s : Scan α} (h : Open r s) (xs : List α) :
    (xs.foldl (step r) s).done ++ [(xs.foldl (step r) s).current] =
      s.done ++ (s.current ++ xs).splitBy r := by
  induction xs generalizing s with
  | nil =>
      rw [List.append_nil, List.splitBy_of_isChain h.1 h.2]
      rfl
  | cons x xs ih =>
      have hlast : s.current.getLast? = some (s.current.getLast h.1) :=
        List.getLast?_eq_some_getLast h.1
      rw [List.foldl_cons]
      cases hr : r (s.current.getLast h.1) x with
      | true =>
          have hopen : Open r { s with current := s.current ++ [x] } := by
            refine ⟨List.append_ne_nil_of_right_ne_nil _ (List.cons_ne_nil x []), ?_⟩
            refine h.2.append (List.isChain_singleton x) ?_
            intro y hy z hz
            rw [hlast] at hy
            cases hy
            cases hz
            exact hr
          rw [step_of_related hlast hr, ih hopen, List.append_assoc]
          rfl
      | false =>
          have hopen : Open r { done := s.done ++ [s.current], current := [x] } :=
            ⟨List.cons_ne_nil x [], List.isChain_singleton x⟩
          have hover : (s.current ++ x :: xs).splitBy r = s.current :: (x :: xs).splitBy r := by
            rw [List.splitBy_append_cons xs, List.splitBy_of_isChain h.1 h.2]
            · rfl
            · intro y hy
              rw [hlast] at hy
              cases hy
              exact hr
          rw [step_of_not_related hlast hr, ih hopen, hover, List.append_assoc]
          rfl

/-- **All but the last** are over. -/
theorem done_scan (x : α) (xs : List α) :
    (xs.foldl (step r) { done := [], current := [x] }).done = ((x :: xs).splitBy r).dropLast := by
  have h : Open r { done := [], current := [x] } :=
    ⟨List.cons_ne_nil x [], List.isChain_singleton x⟩
  have hruns := congrArg List.dropLast (scan_eq h xs)
  rw [List.dropLast_concat] at hruns
  exact hruns

end

end RunScan
