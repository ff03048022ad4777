/-
# `VotingChain.Lib.Loops` — loops over a list whose steps may fail

A computation completes if it comes to a value.  A loop goes over a list and stops at the
first step that fails, with the error of that step.  There are three of them here: one that
collects what the steps return, one that carries a state along, and one that counts the
elements which pass a test.  For each there is a rule for when it completes.
-/
import Mathlib.Data.List.Basic

namespace Loops

section
variable {ε α β σ : Type}

/-- It comes to a value. -/
def Completes (r : Except ε α) : Prop := ∃ a, r = .ok a

@[simp] theorem completes_ok (a : α) : Completes (.ok a : Except ε α) := ⟨a, rfl⟩

@[simp] theorem not_completes_error (e : ε) : ¬Completes (.error e : Except ε α) := by
  rintro ⟨a, h⟩
  cases h

@[simp] theorem ok_bind (a : α) (f : α → Except ε β) : ((.ok a : Except ε α) >>= f) = f a := rfl

@[simp] theorem error_bind (e : ε) (f : α → Except ε β) :
    ((.error e : Except ε α) >>= f) = .error e := rfl

theorem Completes.bind {r : Except ε α} {f : α → Except ε β} (hr : Completes r)
    (hf : ∀ a, r = .ok a → Completes (f a)) : Completes (r >>= f) := by
  obtain ⟨a, rfl⟩ := hr
  exact hf a rfl

theorem Completes.andThen {r : Except ε α} {f : α → Except ε β} (hr : Completes r)
    (hf : ∀ a, Completes (f a)) : Completes (r >>= f) :=
  hr.bind fun a _ => hf a

theorem completes_unless {c : Prop} [Decidable c] {a : α} {r : Except ε α}
    (h : ¬c → Completes r) : Completes (if c then .ok a else r) := by
  by_cases hc : c
  · rw [if_pos hc]
    exact completes_ok a
  · rw [if_neg hc]
    exact h hc

/-! ## Collecting -/

theorem completes_mapM {f : α → Except ε β} {xs : List α} :
    Completes (xs.mapM f) ↔ ∀ x ∈ xs, Completes (f x) := by
  induction xs with
  | nil => simp [pure, Except.pure]
  | cons x xs ih =>
      rw [List.forall_mem_cons, ← ih, List.mapM_cons]
      cases f x with
      | error e => simp
      | ok y =>
          cases xs.mapM f with
          | error e => simp
          | ok ys => simp [pure, Except.pure]

theorem exists_of_mapM_eq_error {f : α → Except ε β} {xs : List α} {e : ε}
    (h : xs.mapM f = .error e) : ∃ x ∈ xs, f x = .error e := by
  induction xs with
  | nil => simp [pure, Except.pure] at h
  | cons x xs ih =>
      rw [List.mapM_cons] at h
      cases hx : f x with
      | error e' =>
          rw [hx] at h
          cases h
          exact ⟨x, List.mem_cons_self, hx⟩
      | ok y =>
          cases hxs : xs.mapM f with
          | error e' =>
              rw [hx, hxs] at h
              cases h
              obtain ⟨x', hmem, hx'⟩ := ih hxs
              exact ⟨x', List.mem_cons_of_mem x hmem, hx'⟩
          | ok ys =>
              rw [hx, hxs] at h
              cases h

/-! ## Carrying a state -/

theorem foldlM_ok {f : σ → α → Except ε σ} {Inv : σ → Prop} {xs : List α}
    (hstep : ∀ s, ∀ x ∈ xs, Inv s → ∃ s', f s x = .ok s' ∧ Inv s') {s : σ} (h : Inv s) :
    ∃ s', xs.foldlM f s = .ok s' ∧ Inv s' := by
  induction xs generalizing s with
  | nil => exact ⟨s, rfl, h⟩
  | cons x xs ih =>
      obtain ⟨s', hs', h'⟩ := hstep s x List.mem_cons_self h
      rw [List.foldlM_cons, hs']
      exact ih (fun t y hy => hstep t y (List.mem_cons_of_mem x hy)) h'

theorem completes_foldlM {f : σ → α → Except ε σ} {xs : List α}
    (hstep : ∀ s, ∀ x ∈ xs, Completes (f s x)) (s : σ) : Completes (xs.foldlM f s) := by
  induction xs generalizing s with
  | nil => exact completes_ok s
  | cons x xs ih =>
      rw [List.foldlM_cons]
      exact (hstep s x List.mem_cons_self).andThen
        (ih fun t y hy => hstep t y (List.mem_cons_of_mem x hy))

/-! ## Counting -/

/-- How many elements pass a test. -/
def countM (test : α → Except ε Bool) : List α → Except ε ℕ
  | [] => .ok 0
  | x :: xs => do
      let passes ← test x
      let n ← countM test xs
      .ok (if passes then n + 1 else n)

theorem completes_countM {test : α → Except ε Bool} {xs : List α}
    (h : ∀ x ∈ xs, Completes (test x)) : Completes (countM test xs) := by
  induction xs with
  | nil => exact completes_ok 0
  | cons x xs ih =>
      rw [List.forall_mem_cons] at h
      exact h.1.andThen fun _ => (ih h.2).andThen fun _ => completes_ok _

end

end Loops
