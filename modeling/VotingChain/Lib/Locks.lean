/-
# `VotingChain.Lib.Locks` — threads that wait for each other's locks

Threads share data behind locks that are taken for reading or for writing.  What a thread
does is a `Code`: it takes locks, releases them and accesses the data, and what it reads may
decide how it goes on.  Any thread may be the next to move, and any one that has nothing left
to do may be given a new piece of code, so a run is a list of events.

A thread waits for another if it is about to take a lock that the other one holds and does
not share.  A cycle of such threads is a deadlock: none of them moves again.  The classical
remedy is an order of the locks, `not_deadlock_of_ordered`.
-/
import Mathlib.Data.Fintype.Basic
import Mathlib.Logic.Function.Basic
import Mathlib.Logic.Relation

namespace Locks

inductive Mode where
  | read
  | write
  deriving DecidableEq

/-- Two readers share a lock. -/
def Mode.Shares (m m' : Mode) : Prop := m = .read ∧ m' = .read

instance (m m' : Mode) : Decidable (m.Shares m') := inferInstanceAs (Decidable (_ ∧ _))

/-- What is left of a piece of code. -/
inductive Code (ℓ δ : Type) where
  | done
  | lock (l : ℓ) (m : Mode) (next : Code ℓ δ)
  | unlock (l : ℓ) (next : Code ℓ δ)
  /-- The data are changed; how the code goes on depends on what they were. -/
  | access (change : δ → δ) (next : δ → Code ℓ δ)

/-- There is nothing left to do. -/
def Code.isDone {ℓ δ : Type} : Code ℓ δ → Bool
  | .done => true
  | _ => false

theorem code_of_isDone {ℓ δ : Type} {code : Code ℓ δ} (h : code.isDone = true) : code = .done := by
  cases code with
  | done => rfl
  | lock l m next => cases h
  | unlock l next => cases h
  | access change next => cases h

/-- The locks a thread holds, and what it has still to do. -/
structure Thread (ℓ δ : Type) where
  held : List (ℓ × Mode)
  code : Code ℓ δ

structure State (ι ℓ δ : Type) where
  data : δ
  threads : ι → Thread ℓ δ

/-- What happens next: a thread with nothing left to do is given a piece of code, or a
thread moves. -/
inductive Event (ι κ : Type) where
  | call (i : ι) (c : κ)
  | advance (i : ι)

section Machine
variable {ι ℓ δ κ : Type} [DecidableEq ℓ]

/-- A move of a thread that no lock keeps back. -/
def Thread.advance (d : δ) (t : Thread ℓ δ) : δ × Thread ℓ δ :=
  match t.code with
  | .done => (d, t)
  | .lock l m next => (d, ⟨(l, m) :: t.held, next⟩)
  | .unlock l next => (d, ⟨t.held.filter fun h => decide (h.1 ≠ l), next⟩)
  | .access change next => (change d, ⟨t.held, next d⟩)

/-- Whoever holds the lock shares it. -/
def State.Free (s : State ι ℓ δ) (l : ℓ) (m : Mode) : Prop :=
  ∀ i, ∀ h ∈ (s.threads i).held, h.1 = l → m.Shares h.2

instance [Fintype ι] (s : State ι ℓ δ) (l : ℓ) (m : Mode) : Decidable (s.Free l m) :=
  inferInstanceAs (Decidable (∀ i, ∀ h ∈ (s.threads i).held, h.1 = l → m.Shares h.2))

/-- The code is not about to take a lock that is not free. -/
def Code.Enabled (free : ℓ → Mode → Prop) : Code ℓ δ → Prop
  | .lock l m _ => free l m
  | _ => True

instance (free : ℓ → Mode → Prop) [∀ l m, Decidable (free l m)] :
    (code : Code ℓ δ) → Decidable (code.Enabled free)
  | .done => isTrue trivial
  | .lock l m _ => inferInstanceAs (Decidable (free l m))
  | .unlock _ _ => isTrue trivial
  | .access _ _ => isTrue trivial

/-- The thread can move. -/
def State.Enabled (s : State ι ℓ δ) (i : ι) : Prop := (s.threads i).code.Enabled s.Free

instance [Fintype ι] (s : State ι ℓ δ) (i : ι) : Decidable (s.Enabled i) :=
  inferInstanceAs (Decidable ((s.threads i).code.Enabled s.Free))

/-- One event.  Where it cannot happen, nothing does. -/
def step [Fintype ι] [DecidableEq ι] (program : κ → Code ℓ δ) (s : State ι ℓ δ) :
    Event ι κ → State ι ℓ δ
  | .call i c =>
      if (s.threads i).code.isDone then
        { s with threads := Function.update s.threads i ⟨(s.threads i).held, program c⟩ }
      else s
  | .advance i =>
      if s.Enabled i then
        let moved := (s.threads i).advance s.data
        ⟨moved.1, Function.update s.threads i moved.2⟩
      else s

theorem threads_step_call [Fintype ι] [DecidableEq ι] (program : κ → Code ℓ δ) (s : State ι ℓ δ)
    (i : ι) (c : κ) (j : ι) :
    (step program s (.call i c)).threads j = s.threads j ∨
    ((s.threads i).code = .done ∧
      (step program s (.call i c)).threads j = ⟨(s.threads i).held, program c⟩) := by
  rw [step]
  split
  · next hidle =>
      by_cases hj : j = i
      · subst hj
        exact Or.inr ⟨code_of_isDone hidle, Function.update_self ..⟩
      · exact Or.inl (Function.update_of_ne hj ..)
  · exact Or.inl rfl

theorem step_advance [Fintype ι] [DecidableEq ι] (program : κ → Code ℓ δ) {s : State ι ℓ δ}
    {i : ι} (h : s.Enabled i) :
    ((step program s (.advance i)).threads i = ((s.threads i).advance s.data).2) ∧
    ∀ j, j ≠ i → (step program s (.advance i)).threads j = s.threads j := by
  rw [step, if_pos h]
  exact ⟨Function.update_self .., fun j hj => Function.update_of_ne hj ..⟩

theorem step_advance_of_not_enabled [Fintype ι] [DecidableEq ι] (program : κ → Code ℓ δ)
    {s : State ι ℓ δ} {i : ι} (h : ¬s.Enabled i) : step program s (.advance i) = s := by
  rw [step, if_neg h]

/-- All threads idle. -/
def State.start (d : δ) : State ι ℓ δ := ⟨d, fun _ => ⟨[], .done⟩⟩

end Machine

/-! ## Waiting -/

section Waiting
variable {ι ℓ δ : Type}

/-- The thread is about to take the lock. -/
def Thread.Wants (t : Thread ℓ δ) (l : ℓ) (m : Mode) : Prop := ∃ next, t.code = .lock l m next

/-- Thread `i` waits for a lock that thread `j` holds.  A reader may have to wait for readers,
too, where a writer is waiting. -/
def State.WaitsFor (s : State ι ℓ δ) (i j : ι) : Prop :=
  ∃ l m m', (s.threads i).Wants l m ∧ (l, m') ∈ (s.threads j).held ∧
    (m.Shares m' → ∃ k, (s.threads k).Wants l .write)

/-- A cycle of threads each waiting for a lock held by the next. -/
def State.Deadlock (s : State ι ℓ δ) : Prop := ∃ i, Relation.TransGen s.WaitsFor i i

/-- The thread wants no lock but one above all it holds. -/
def Thread.Ordered (rank : ℓ → Nat) (t : Thread ℓ δ) : Prop :=
  ∀ l m, t.Wants l m → ∀ h ∈ t.held, rank h.1 < rank l

@[simp] theorem wants_lock {held : List (ℓ × Mode)} {l l' : ℓ} {m m' : Mode} {next : Code ℓ δ} :
    (⟨held, .lock l m next⟩ : Thread ℓ δ).Wants l' m' ↔ l = l' ∧ m = m' := by
  constructor
  · rintro ⟨next', heq⟩
    cases heq
    exact ⟨rfl, rfl⟩
  · rintro ⟨rfl, rfl⟩
    exact ⟨next, rfl⟩

@[simp] theorem not_wants_unlock {held : List (ℓ × Mode)} {l l' : ℓ} {m : Mode} {next : Code ℓ δ} :
    ¬(⟨held, .unlock l next⟩ : Thread ℓ δ).Wants l' m := by
  rintro ⟨next', heq⟩
  cases heq

@[simp] theorem not_wants_access {held : List (ℓ × Mode)} {l : ℓ} {m : Mode} {change : δ → δ}
    {next : δ → Code ℓ δ} : ¬(⟨held, .access change next⟩ : Thread ℓ δ).Wants l m := by
  rintro ⟨next', heq⟩
  cases heq

theorem Thread.Wants.unique {t : Thread ℓ δ} {l l' : ℓ} {m m' : Mode} (h : t.Wants l m)
    (h' : t.Wants l' m') : l = l' := by
  obtain ⟨next, h⟩ := h
  obtain ⟨next', h'⟩ := h'
  rw [h] at h'
  cases h'
  rfl

/-- The thread holds a lock and is about to take another. -/
def Thread.Greedy (t : Thread ℓ δ) : Prop := t.held ≠ [] ∧ ∃ l m, t.Wants l m

theorem ordered_of_not_greedy {rank : ℓ → Nat} {t : Thread ℓ δ} (h : ¬t.Greedy) :
    t.Ordered rank := by
  intro l m hwants entry hheld
  exact absurd ⟨List.ne_nil_of_mem hheld, l, m, hwants⟩ h

theorem ordered_lock {rank : ℓ → Nat} {held : List (ℓ × Mode)} {l : ℓ} {m : Mode}
    {next : Code ℓ δ} (habove : ∀ h ∈ held, rank h.1 < rank l) :
    (⟨held, .lock l m next⟩ : Thread ℓ δ).Ordered rank := by
  intro l' m' hwants
  obtain ⟨rfl, -⟩ := wants_lock.mp hwants
  exact habove

theorem rank_lt_of_waits {rank : ℓ → Nat} {s : State ι ℓ δ}
    (hordered : ∀ i, (s.threads i).Ordered rank) {i j : ι} (h : Relation.TransGen s.WaitsFor i j)
    {l l' : ℓ} {m m' : Mode} (hi : (s.threads i).Wants l m) (hj : (s.threads j).Wants l' m') :
    rank l < rank l' := by
  induction h generalizing l' m' with
  | single h =>
      obtain ⟨l₁, m₁, m₂, hwants, hheld, -⟩ := h
      rw [hi.unique hwants]
      exact hordered _ l' m' hj _ hheld
  | tail _ h ih =>
      obtain ⟨l₁, m₁, m₂, hwants, hheld, -⟩ := h
      exact Nat.lt_trans (ih hwants) (hordered _ l' m' hj _ hheld)

/-- **Lock order.**  Threads that take locks in one order do not wait in a cycle. -/
theorem not_deadlock_of_ordered (rank : ℓ → Nat) {s : State ι ℓ δ}
    (hordered : ∀ i, (s.threads i).Ordered rank) : ¬s.Deadlock := by
  rintro ⟨i, hcycle⟩
  have hwaits : ∃ j, s.WaitsFor i j := by
    obtain ⟨j, hwaits, -⟩ := Relation.TransGen.head'_iff.mp hcycle
    exact ⟨j, hwaits⟩
  obtain ⟨j, l, m, m', hwants, -⟩ := hwaits
  exact Nat.lt_irrefl _ (rank_lt_of_waits hordered hcycle hwants hwants)

theorem deadlock_of_crossed {s : State ι ℓ δ} {i j : ι} {l l' : ℓ} {m m₁ : Mode}
    (hi : (s.threads i).Wants l m) (hiHolds : (l', m₁) ∈ (s.threads i).held)
    (hj : (s.threads j).Wants l' .write) (hjHolds : (l, .write) ∈ (s.threads j).held) :
    s.Deadlock := by
  have hij : s.WaitsFor i j := ⟨l, m, .write, hi, hjHolds, fun h => by cases h.2⟩
  have hji : s.WaitsFor j i := ⟨l', .write, m₁, hj, hiHolds, fun h => by cases h.1⟩
  exact ⟨i, .tail (.single hij) hji⟩

end Waiting

/-! ## What holds of all code that is to be run -/

section Invariants
variable {ι ℓ δ κ : Type} [DecidableEq ℓ]

/-- `P` holds of a thread that holds these locks and runs this code, now and at each of its
moves, whatever the data are then. -/
def Always (P : Thread ℓ δ → Prop) : List (ℓ × Mode) → Code ℓ δ → Prop
  | held, .done => P ⟨held, .done⟩
  | held, .lock l m next => P ⟨held, .lock l m next⟩ ∧ Always P ((l, m) :: held) next
  | held, .unlock l next =>
      P ⟨held, .unlock l next⟩ ∧ Always P (held.filter fun h => decide (h.1 ≠ l)) next
  | held, .access change next => P ⟨held, .access change next⟩ ∧ ∀ d, Always P held (next d)

variable {P : Thread ℓ δ → Prop}

theorem Always.here {held : List (ℓ × Mode)} {code : Code ℓ δ} (h : Always P held code) :
    P ⟨held, code⟩ := by
  cases code with
  | done => exact h
  | lock l m next => exact h.1
  | unlock l next => exact h.1
  | access change next => exact h.1

theorem Always.advance {t : Thread ℓ δ} (h : Always P t.held t.code) (d : δ) :
    Always P (t.advance d).2.held (t.advance d).2.code := by
  obtain ⟨held, code⟩ := t
  cases code with
  | done => exact h
  | lock l m next => exact h.2
  | unlock l next => exact h.2
  | access change next => exact h.2 d

/-- Where a thread with nothing left to do has given back its locks, what always holds of the
code that is called always holds of every thread. -/
theorem always_step [Fintype ι] [DecidableEq ι] {program : κ → Code ℓ δ}
    (hprogram : ∀ c, Always P [] (program c)) (hdone : ∀ held, P ⟨held, .done⟩ → held = [])
    {s : State ι ℓ δ} (h : ∀ i, Always P (s.threads i).held (s.threads i).code) (e : Event ι κ) :
    ∀ i, Always P ((step program s e).threads i).held ((step program s e).threads i).code := by
  intro j
  cases e with
  | call i c =>
      rcases threads_step_call program s i c j with hsame | ⟨hcode, hnew⟩
      · rw [hsame]
        exact h j
      · have hhere := (h i).here
        rw [hcode] at hhere
        rw [hnew, hdone _ hhere]
        exact hprogram c
  | advance i =>
      by_cases henabled : s.Enabled i
      · obtain ⟨hmoved, hothers⟩ := step_advance program henabled
        by_cases hj : j = i
        · rw [hj, hmoved]
          exact (h i).advance s.data
        · rw [hothers j hj]
          exact h j
      · rw [step_advance_of_not_enabled program henabled]
        exact h j

end Invariants

/-! ## Code under one lock -/

section Locked
variable {ℓ δ : Type}

/-- A change of the data under one lock. -/
def Code.locked (l : ℓ) (m : Mode) (change : δ → δ) (next : Code ℓ δ) : Code ℓ δ :=
  .lock l m (.access change fun _ => .unlock l next)

end Locked

end Locks
