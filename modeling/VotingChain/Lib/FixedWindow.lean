/-
# `VotingChain.Lib.FixedWindow` — counting in fixed windows

The simplest rate limit.  There is one counter, and the instant at which its window was
opened.  The first request after the window is over opens a new one, at its own instant and
with the count one; inside the window requests are counted, and turned away once `limit` of
them have been let through.

Windows do not overlap, so a limit for each of them is no limit for an interval of the same
length that begins in the middle of one: such an interval meets two windows, and takes what
is left of the first and all of the second.  The first has been opened by a request of its
own, which leaves `2 * limit - 1`, and no smaller number will do (`letThrough_burst`).

Instants are of any ordered type with an addition that keeps the order.
-/
import Mathlib.Algebra.Order.Monoid.Unbundled.Basic
import Mathlib.Data.List.Basic
import Mathlib.Order.Defs.LinearOrder

namespace FixedWindow

section
variable {τ : Type}

/-- How many have been let through in the window that is open, and when it was opened. -/
abbrev Counter (τ : Type) := Option (ℕ × τ)

/-- What is left of the window that is open. -/
def left (limit : ℕ) : Counter τ → ℕ
  | none => 0
  | some (count, _) => limit - count

/-- A window is opened by a request, which is the first in it. -/
def Opened : Counter τ → Prop
  | none => True
  | some (count, _) => 1 ≤ count

theorem Opened.left_lt {limit : ℕ} {s : Counter τ} (h : Opened s) (hlimit : 1 ≤ limit) :
    left limit s < limit := by
  cases s with
  | none => exact hlimit
  | some entry =>
      obtain ⟨count, start⟩ := entry
      have hcount : 1 ≤ count := h
      simp only [left]
      omega

end

/-! ## What an interval meets -/

section
variable {τ : Type} [LinearOrder τ]

/-- Of the requests from `first` on and before `last`, how many have been let through? -/
def letThrough (first last : τ) (answers : List (τ × Bool)) : ℕ :=
  answers.countP fun a => a.2 && (decide (first ≤ a.1) && decide (a.1 < last))

@[simp] theorem letThrough_nil (first last : τ) : letThrough first last [] = 0 := rfl

theorem letThrough_cons (first last now : τ) (ok : Bool) (rest : List (τ × Bool)) :
    letThrough first last ((now, ok) :: rest) = letThrough first last rest +
      if ok = true ∧ first ≤ now ∧ now < last then 1 else 0 := by
  simp [letThrough, List.countP_cons]

theorem letThrough_cons_le (first last now : τ) (ok : Bool) (rest : List (τ × Bool)) :
    letThrough first last ((now, ok) :: rest) ≤ letThrough first last rest + 1 := by
  rw [letThrough_cons]
  split <;> omega

theorem letThrough_of_refused (first last now : τ) (rest : List (τ × Bool)) :
    letThrough first last ((now, false) :: rest) = letThrough first last rest := by
  simp [letThrough_cons]

theorem letThrough_of_outside {first last now : τ} (h : now < first ∨ last ≤ now) (ok : Bool)
    (rest : List (τ × Bool)) :
    letThrough first last ((now, ok) :: rest) = letThrough first last rest := by
  rw [letThrough_cons, if_neg, Nat.add_zero]
  rintro ⟨-, hfirst, hlast⟩
  rcases h with h | h
  · exact absurd h (not_lt.mpr hfirst)
  · exact absurd hlast (not_lt.mpr h)

end

/-! ## One request -/

section
variable {τ : Type} [LinearOrder τ] [Add τ]

/-- A request at the instant `now`. -/
def step (limit : ℕ) (len : τ) : Counter τ → τ → Counter τ
  | none, now => some (1, now)
  | some (count, start), now =>
      if start + len ≤ now then some (1, now)
      else if count < limit then some (count + 1, start)
      else some (count, start)

/-- Is it let through? -/
def allows (limit : ℕ) (len : τ) : Counter τ → τ → Bool
  | none, _ => true
  | some (count, start), now => decide (start + len ≤ now) || decide (count < limit)

/-- The requests, each with its answer. -/
def answers (limit : ℕ) (len : τ) : Counter τ → List τ → List (τ × Bool)
  | _, [] => []
  | s, now :: times =>
      (now, allows limit len s now) :: answers limit len (step limit len s now) times

variable {limit : ℕ} {len : τ}

@[simp] theorem step_none (now : τ) : step limit len none now = some (1, now) := rfl

theorem step_of_over {count : ℕ} {start now : τ} (h : start + len ≤ now) :
    step limit len (some (count, start)) now = some (1, now) :=
  if_pos h

theorem allows_of_over {count : ℕ} {start now : τ} (h : start + len ≤ now) :
    allows limit len (some (count, start)) now = true := by
  simp [allows, h]

theorem step_of_lt {count : ℕ} {start now : τ} (h : now < start + len) (hcount : count < limit) :
    step limit len (some (count, start)) now = some (count + 1, start) := by
  simp [step, not_le.mpr h, hcount]

theorem allows_of_lt {count : ℕ} {start now : τ} (h : now < start + len) :
    allows limit len (some (count, start)) now = decide (count < limit) := by
  simp [allows, not_le.mpr h]

theorem step_of_full {count : ℕ} {start now : τ} (h : now < start + len)
    (hcount : ¬count < limit) :
    step limit len (some (count, start)) now = some (count, start) := by
  simp [step, not_le.mpr h, hcount]

/-- **What a request does.**  It opens a window, or it is counted, or it is turned away. -/
theorem step_cases (limit : ℕ) (len : τ) (s : Counter τ) (now : τ) :
    step limit len s now = some (1, now) ∨
    (∃ count start, s = some (count, start) ∧ count < limit ∧
      step limit len s now = some (count + 1, start)) ∨
    (step limit len s now = s ∧ allows limit len s now = false) := by
  cases s with
  | none => exact Or.inl rfl
  | some entry =>
      obtain ⟨count, start⟩ := entry
      rcases le_or_gt (start + len) now with hover | hin
      · exact Or.inl (step_of_over hover)
      · by_cases hcount : count < limit
        · exact Or.inr (Or.inl ⟨count, start, rfl, hcount, step_of_lt hin hcount⟩)
        · refine Or.inr (Or.inr ⟨step_of_full hin hcount, ?_⟩)
          rw [allows_of_lt hin, decide_eq_false hcount]

theorem Opened.step {s : Counter τ} (h : Opened s) (now : τ) : Opened (step limit len s now) := by
  rcases step_cases limit len s now with hnew | ⟨count, start, -, -, hcounted⟩ | ⟨hsame, -⟩
  · rw [hnew]
    exact Nat.le_refl 1
  · rw [hcounted]
    exact Nat.le_add_left 1 count
  · rw [hsame]
    exact h

/-! ## The requests of an interval -/

theorem letThrough_eq_zero {first last : τ} {times : List τ} (h : ∀ now ∈ times, last ≤ now)
    (s : Counter τ) : letThrough first last (answers limit len s times) = 0 := by
  induction times generalizing s with
  | nil => rfl
  | cons now times ih =>
      rw [List.forall_mem_cons] at h
      rw [answers, letThrough_of_outside (Or.inr h.1)]
      exact ih h.2 _

theorem letThrough_le_of_open {first last start : τ} {count : ℕ} {times : List τ}
    (hsorted : times.Pairwise (· ≤ ·)) (hlast : last ≤ start + len) :
    letThrough first last (answers limit len (some (count, start)) times) ≤ limit - count := by
  induction times generalizing count with
  | nil => exact Nat.zero_le _
  | cons now times ih =>
      obtain ⟨hafter, hsorted⟩ := List.pairwise_cons.mp hsorted
      rw [answers]
      rcases lt_or_ge now last with hnow | hnow
      · have hin : now < start + len := lt_of_lt_of_le hnow hlast
        by_cases hcount : count < limit
        · rw [step_of_lt hin hcount]
          have hrest : letThrough first last
              (answers limit len (some (count + 1, start)) times) ≤ limit - (count + 1) :=
            ih hsorted
          have hone := letThrough_cons_le first last now
            (allows limit len (some (count, start)) now)
            (answers limit len (some (count + 1, start)) times)
          omega
        · rw [step_of_full hin hcount, allows_of_lt hin, decide_eq_false hcount,
            letThrough_of_refused]
          exact ih hsorted
      · -- the interval is over, and so it is for what comes later
        rw [letThrough_of_outside (Or.inr hnow),
          letThrough_eq_zero (fun later h => hnow.trans (hafter later h))]
        exact Nat.zero_le _

section
variable [AddRightMono τ]

/-- Requests that come from `first` on: those of the window that is open, and those of the next. -/
theorem letThrough_le_left {first : τ} {times : List τ} (hlimit : 1 ≤ limit)
    (hsorted : times.Pairwise (· ≤ ·)) (hfirst : ∀ now ∈ times, first ≤ now) (s : Counter τ) :
    letThrough first (first + len) (answers limit len s times) ≤ left limit s + limit := by
  induction times generalizing s with
  | nil => exact Nat.zero_le _
  | cons now times ih =>
      obtain ⟨-, hsorted'⟩ := List.pairwise_cons.mp hsorted
      rw [List.forall_mem_cons] at hfirst
      -- a new window is not over before the interval is
      have hnew : letThrough first (first + len) (answers limit len (some (1, now)) times) ≤
          limit - 1 :=
        letThrough_le_of_open hsorted' (by gcongr; exact hfirst.1)
      rw [answers]
      have hone := letThrough_cons_le first (first + len) now (allows limit len s now)
        (answers limit len (step limit len s now) times)
      rcases step_cases limit len s now with hopen | ⟨count, start, rfl, hcount, hcounted⟩ |
          ⟨hsame, hrefused⟩
      · rw [hopen] at hone ⊢
        omega
      · have hrest := ih hsorted' hfirst.2 (some (count + 1, start))
        rw [hcounted] at hone ⊢
        simp only [left] at hrest ⊢
        omega
      · rw [hsame, hrefused, letThrough_of_refused]
        exact ih hsorted' hfirst.2 s

/-- **Every interval of the length of a window.**  It meets two windows at most. -/
theorem letThrough_le {first : τ} {times : List τ} (hlimit : 1 ≤ limit)
    (hsorted : times.Pairwise (· ≤ ·)) {s : Counter τ} (hs : Opened s) :
    letThrough first (first + len) (answers limit len s times) ≤ 2 * limit - 1 := by
  induction times generalizing s with
  | nil => exact Nat.zero_le _
  | cons now times ih =>
      obtain ⟨hafter, hsorted'⟩ := List.pairwise_cons.mp hsorted
      rcases lt_or_ge now first with hnow | hnow
      · rw [answers, letThrough_of_outside (Or.inl hnow)]
        exact ih hsorted' (hs.step now)
      · have hfirst : ∀ later ∈ now :: times, first ≤ later :=
          List.forall_mem_cons.mpr ⟨hnow, fun later h => hnow.trans (hafter later h)⟩
        have hall : letThrough first (first + len) (answers limit len s (now :: times)) ≤
            left limit s + limit :=
          letThrough_le_left hlimit hsorted hfirst s
        have hleft := hs.left_lt hlimit
        omega

end

/-! ## The bound is met -/

theorem letThrough_replicate {first last start now : τ} (hin : now < start + len)
    (hfirst : first ≤ now) (hlast : now < last) {n count : ℕ} (hroom : count + n ≤ limit)
    (times : List τ) :
    letThrough first last
        (answers limit len (some (count, start)) (List.replicate n now ++ times)) =
      n + letThrough first last (answers limit len (some (count + n, start)) times) := by
  induction n generalizing count with
  | zero => simp
  | succ n ih =>
      have hcount : count < limit := by omega
      rw [List.replicate_succ, List.cons_append, answers, step_of_lt hin hcount,
        allows_of_lt hin, decide_eq_true hcount, letThrough_cons, ih (by omega),
        if_pos ⟨rfl, hfirst, hlast⟩, Nat.add_assoc count 1 n, Nat.add_comm 1 n]
      omega

/-- The first request opens a window, at `middle` the rest of it is used up, and all of the
next one as soon as it is over. -/
def burst (limit : ℕ) (len start middle : τ) : List τ :=
  start :: (List.replicate (limit - 1) middle ++ List.replicate limit (start + len))

theorem burst_sorted {start middle : τ} (hstart : start ≤ middle) (hmiddle : middle ≤ start + len) :
    (burst limit len start middle).Pairwise (· ≤ ·) := by
  refine List.pairwise_cons.mpr ⟨?_, List.pairwise_append.mpr ⟨?_, ?_, ?_⟩⟩
  · intro now hnow
    rcases List.mem_append.mp hnow with h | h
    · rw [List.eq_of_mem_replicate h]
      exact hstart
    · rw [List.eq_of_mem_replicate h]
      exact hstart.trans hmiddle
  · exact List.pairwise_replicate.mpr (Or.inr le_rfl)
  · exact List.pairwise_replicate.mpr (Or.inr le_rfl)
  · intro a ha b hb
    rw [List.eq_of_mem_replicate ha, List.eq_of_mem_replicate hb]
    exact hmiddle

/-- **No smaller bound holds.** -/
theorem letThrough_burst [AddRightMono τ] {start middle : τ} (hlimit : 1 ≤ limit)
    (hstart : start < middle) (hmiddle : middle < start + len)
    (hnext : start + len < middle + len) :
    letThrough middle (middle + len) (answers limit len none (burst limit len start middle)) =
      2 * limit - 1 := by
  obtain ⟨n, rfl⟩ : ∃ n, limit = n + 1 := ⟨limit - 1, by omega⟩
  have hin : start + len < start + len + len := hnext.trans_le (by gcongr)
  rw [burst, answers, step_none, letThrough_of_outside (Or.inl hstart), Nat.add_sub_cancel,
    letThrough_replicate hmiddle le_rfl (hmiddle.trans hnext) (by omega), List.replicate_succ,
    answers, step_of_over le_rfl, allows_of_over le_rfl, letThrough_cons,
    if_pos ⟨rfl, hmiddle.le, hnext⟩, ← List.append_nil (List.replicate n (start + len)),
    letThrough_replicate hin hmiddle.le hnext (by omega), answers, letThrough_nil]
  omega

end

end FixedWindow
