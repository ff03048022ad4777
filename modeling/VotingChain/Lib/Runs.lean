/-
# `VotingChain.Lib.Runs` — runs of a machine, and what holds along them

Two kinds of machine.

A *deterministic* one has a step function `step : σ → ο → σ`, and a run is the
list of its operations: `run step s ops`.  Hypotheses about a run come in two
shapes, a condition on the states it passes through (`Visits`) and a condition
on the operations in the states they meet (`Along`); both are recursive on the
list of operations, so that a proof can peel a run from either end.

A *nondeterministic* one has a set of initial states and a step relation, and
what is studied is its set of reachable states (`Reach`), by an invariant or by
a simulation in another machine.

A loop with no input is a deterministic machine with a single operation, `f^[n] s`
after `n` rounds; with finitely many states it comes early to what it comes to.
-/
import Mathlib.Data.Finset.Card
import Mathlib.Data.Finset.Range
import Mathlib.Data.List.Basic
import Mathlib.Data.List.Induction
import Mathlib.Data.Nat.Find
import Mathlib.Logic.Function.Iterate
import Mathlib.Logic.Relation

namespace Runs

/-! ## Deterministic runs -/

section Deterministic
variable {σ ο : Type} (step : σ → ο → σ)

/-- The state after the operations `ops`. -/
def run (s : σ) (ops : List ο) : σ := ops.foldl step s

/-- Every state on the way satisfies `Q`, the first and the last included. -/
def Visits (Q : σ → Prop) : σ → List ο → Prop
  | s, [] => Q s
  | s, o :: ops => Q s ∧ Visits Q (step s o) ops

/-- Every operation meets `C` in the state it is applied to. -/
def Along (C : σ → ο → Prop) : σ → List ο → Prop
  | _, [] => True
  | s, o :: ops => C s o ∧ Along C (step s o) ops

/-- What the operations put out, in order. -/
def trace {ω : Type} (out : σ → ο → List ω) : σ → List ο → List ω
  | _, [] => []
  | s, o :: ops => out s o ++ trace out (step s o) ops

@[simp] theorem run_nil (s : σ) : run step s [] = s := rfl

@[simp] theorem run_cons (s : σ) (o : ο) (ops : List ο) :
    run step s (o :: ops) = run step (step s o) ops := rfl

theorem run_append (s : σ) (ops ops' : List ο) :
    run step s (ops ++ ops') = run step (run step s ops) ops' :=
  List.foldl_append

@[simp] theorem run_concat (s : σ) (ops : List ο) (o : ο) :
    run step s (ops ++ [o]) = step (run step s ops) o :=
  run_append step s ops [o]

variable {step}

theorem along_append {C : σ → ο → Prop} {s : σ} {ops ops' : List ο} :
    Along step C s (ops ++ ops') ↔ Along step C s ops ∧ Along step C (run step s ops) ops' := by
  induction ops generalizing s with
  | nil => simp [Along]
  | cons o ops ih => simp only [List.cons_append, Along, run_cons, ih, and_assoc]

@[simp] theorem along_concat {C : σ → ο → Prop} {s : σ} {ops : List ο} {o : ο} :
    Along step C s (ops ++ [o]) ↔ Along step C s ops ∧ C (run step s ops) o := by
  simp [along_append, Along]

theorem Along.imp {C D : σ → ο → Prop} (himp : ∀ s o, C s o → D s o) {s : σ} {ops : List ο}
    (h : Along step C s ops) : Along step D s ops := by
  induction ops generalizing s with
  | nil => trivial
  | cons o ops ih => exact ⟨himp s o h.1, ih h.2⟩

theorem along_congr {I : σ → Prop} {C D : σ → ο → Prop} (hkeep : ∀ s o, I s → I (step s o))
    (hiff : ∀ s o, I s → (C s o ↔ D s o)) {s : σ} (h : I s) (ops : List ο) :
    Along step C s ops ↔ Along step D s ops := by
  induction ops generalizing s with
  | nil => exact Iff.rfl
  | cons o ops ih =>
      rw [Along, Along, hiff s o h, ih (hkeep s o h)]

@[simp] theorem trace_concat {ω : Type} (out : σ → ο → List ω) (s : σ) (ops : List ο) (o : ο) :
    trace step out s (ops ++ [o]) = trace step out s ops ++ out (run step s ops) o := by
  induction ops generalizing s with
  | nil => simp [trace]
  | cons p ops ih => simp only [List.cons_append, trace, run_cons, ih, List.append_assoc]

theorem trace_append {ω : Type} (out : σ → ο → List ω) (s : σ) (ops ops' : List ο) :
    trace step out s (ops ++ ops') = trace step out s ops ++ trace step out (run step s ops) ops' := by
  induction ops generalizing s with
  | nil => rfl
  | cons o ops ih => simp only [List.cons_append, trace, run_cons, ih, List.append_assoc]

theorem trace_of_marked {ω : Type} {out : σ → ο → List ω} {Marked : σ → Prop}
    (hkeep : ∀ s o, Marked s → Marked (step s o)) (hquiet : ∀ s o, Marked s → out s o = []) {s : σ}
    (h : Marked s) (ops : List ο) : trace step out s ops = [] := by
  induction ops generalizing s with
  | nil => rfl
  | cons o ops ih => rw [trace, hquiet s o h, ih (hkeep s o h), List.append_nil]

/-- The rule for what happens once.  A step that puts something out marks the machine, and as
long as the operations are of a kind that keeps the mark, everything that is put out comes from
a single step. -/
theorem trace_once_of_forall {ω : Type} {out : σ → ο → List ω} {Marked : σ → Prop} {Q : ο → Prop}
    (hkeep : ∀ s o, Q o → Marked s → Marked (step s o)) (hquiet : ∀ s o, Marked s → out s o = [])
    (hmark : ∀ s o, Q o → out s o ≠ [] → Marked (step s o)) (s : σ) {ops : List ο}
    (hops : ∀ o ∈ ops, Q o) :
    trace step out s ops = [] ∨
    ∃ before o after, ops = before ++ o :: after ∧
      trace step out s ops = out (run step s before) o := by
  have hmarked : ∀ s, Marked s → ∀ ops, (∀ o ∈ ops, Q o) → trace step out s ops = [] := by
    intro s hs ops hops
    induction ops generalizing s with
    | nil => rfl
    | cons o ops ih =>
        rw [List.forall_mem_cons] at hops
        rw [trace, hquiet s o hs, ih _ (hkeep s o hops.1 hs) hops.2, List.append_nil]
  induction ops generalizing s with
  | nil => exact Or.inl rfl
  | cons o ops ih =>
      rw [List.forall_mem_cons] at hops
      by_cases hout : out s o = []
      · rw [trace, hout, List.nil_append]
        rcases ih (step s o) hops.2 with hnone | ⟨before, o', after, hsplit, htrace⟩
        · exact Or.inl hnone
        · refine Or.inr ⟨o :: before, o', after, ?_, htrace⟩
          rw [hsplit, List.cons_append]
      · refine Or.inr ⟨[], o, ops, rfl, ?_⟩
        rw [trace, hmarked _ (hmark s o hops.1 hout) ops hops.2, List.append_nil, run_nil]

theorem trace_once {ω : Type} {out : σ → ο → List ω} {Marked : σ → Prop}
    (hkeep : ∀ s o, Marked s → Marked (step s o)) (hquiet : ∀ s o, Marked s → out s o = [])
    (hmark : ∀ s o, out s o ≠ [] → Marked (step s o)) (s : σ) (ops : List ο) :
    trace step out s ops = [] ∨
    ∃ before o after, ops = before ++ o :: after ∧
      trace step out s ops = out (run step s before) o :=
  trace_once_of_forall (fun s o _ => hkeep s o) hquiet (fun s o _ => hmark s o) s
    (fun _ _ => trivial)

/-- Two machines whose steps lead from related states to related ones, with the same
output, have the same traces, and their runs end in related states. -/
theorem simulate {τ ω : Type} {step' : τ → ο → τ} {out : σ → ο → List ω} {out' : τ → ο → List ω}
    {R : σ → τ → Prop}
    (hstep : ∀ s t o, R s t → out s o = out' t o ∧ R (step s o) (step' t o)) {s : σ} {t : τ}
    (h : R s t) (ops : List ο) :
    trace step out s ops = trace step' out' t ops ∧ R (run step s ops) (run step' t ops) := by
  induction ops generalizing s t with
  | nil => exact ⟨rfl, h⟩
  | cons o ops ih =>
      obtain ⟨hout, hnext⟩ := hstep s t o h
      obtain ⟨htrace, hrun⟩ := ih hnext
      refine ⟨?_, hrun⟩
      rw [trace, trace, hout, htrace]

/-- Two machines whose steps lead from related states to related ones, with related answers:
so do their runs. -/
theorem simulate_forall₂ {τ ω ω' : Type} {step' : τ → ο → τ} {answer : σ → ο → ω}
    {answer' : τ → ο → ω'} {R : σ → τ → Prop} {A : ω → ω' → Prop}
    (hstep : ∀ s t o, R s t → A (answer s o) (answer' t o) ∧ R (step s o) (step' t o)) {s : σ}
    {t : τ} (h : R s t) (ops : List ο) :
    List.Forall₂ A (trace step (fun s o => [answer s o]) s ops)
      (trace step' (fun t o => [answer' t o]) t ops) ∧ R (run step s ops) (run step' t ops) := by
  induction ops generalizing s t with
  | nil => exact ⟨List.Forall₂.nil, h⟩
  | cons o ops ih =>
      obtain ⟨hanswer, hnext⟩ := hstep s t o h
      obtain ⟨htrace, hrun⟩ := ih hnext
      exact ⟨List.Forall₂.cons hanswer htrace, hrun⟩

theorem Visits.first {Q : σ → Prop} {s : σ} : ∀ {ops : List ο}, Visits step Q s ops → Q s
  | [], h => h
  | _ :: _, h => h.1

theorem visits_concat {Q : σ → Prop} {s : σ} {ops : List ο} {o : ο} :
    Visits step Q s (ops ++ [o]) ↔ Visits step Q s ops ∧ Q (step (run step s ops) o) := by
  induction ops generalizing s with
  | nil => exact Iff.rfl
  | cons p ops ih => simp only [List.cons_append, Visits, run_cons, ih, and_assoc]

theorem Visits.last {Q : σ → Prop} {s : σ} {ops : List ο} (h : Visits step Q s ops) :
    Q (run step s ops) := by
  induction ops using List.reverseRecOn with
  | nil => exact h
  | append_singleton ops o _ => rw [run_concat]; exact (visits_concat.mp h).2

theorem run_preserves {I : σ → Prop} (hstep : ∀ s o, I s → I (step s o)) {s : σ} (h : I s)
    (ops : List ο) : I (run step s ops) := by
  induction ops generalizing s with
  | nil => exact h
  | cons o ops ih => exact ih (hstep s o h)

theorem run_preserves_of_forall {I : σ → Prop} {Q : ο → Prop}
    (hstep : ∀ s o, Q o → I s → I (step s o)) {s : σ} (h : I s) {ops : List ο}
    (hops : ∀ o ∈ ops, Q o) : I (run step s ops) := by
  induction ops generalizing s with
  | nil => exact h
  | cons o ops ih =>
      obtain ⟨hfirst, hrest⟩ := List.forall_mem_cons.mp hops
      exact ih (hstep s o hfirst h) hrest

theorem visits_of_invariant {I Q : σ → Prop} (hgood : ∀ s, I s → Q s)
    (hkeep : ∀ s o, I s → I (step s o)) {s : σ} (h : I s) (ops : List ο) : Visits step Q s ops := by
  induction ops generalizing s with
  | nil => exact hgood s h
  | cons o ops ih => exact ⟨hgood s h, ih (hkeep s o h)⟩

theorem along_of_forall {C : σ → ο → Prop} (h : ∀ s o, C s o) (s : σ) (ops : List ο) :
    Along step C s ops := by
  induction ops generalizing s with
  | nil => trivial
  | cons o ops ih => exact ⟨h s o, ih (step s o)⟩

/-- The rule for exact conditions.  `I` makes every state good and is kept by the
steps that meet `C`; a step that does not meet `C` leads to a bad state at once.  Only the
operations of the run are asked about. -/
theorem visits_iff_along_of_forall {A : ο → Prop} {I Q : σ → Prop} {C : σ → ο → Prop}
    (hgood : ∀ s, I s → Q s) (hkeep : ∀ s o, A o → I s → C s o → I (step s o))
    (hexact : ∀ s o, A o → I s → Q (step s o) → C s o) {s : σ} {ops : List ο}
    (hops : ∀ o ∈ ops, A o) (h : I s) : Visits step Q s ops ↔ Along step C s ops := by
  induction ops generalizing s with
  | nil => exact iff_of_true (hgood s h) trivial
  | cons o ops ih =>
      have ho : A o := hops o List.mem_cons_self
      have hrestOps : ∀ p ∈ ops, A p := fun p hp => hops p (List.mem_cons_of_mem o hp)
      constructor
      · rintro ⟨-, hrest⟩
        have hC : C s o := hexact s o ho h hrest.first
        exact ⟨hC, (ih hrestOps (hkeep s o ho h hC)).mp hrest⟩
      · rintro ⟨hC, hrest⟩
        exact ⟨hgood s h, (ih hrestOps (hkeep s o ho h hC)).mpr hrest⟩

theorem visits_iff_along {I Q : σ → Prop} {C : σ → ο → Prop} (hgood : ∀ s, I s → Q s)
    (hkeep : ∀ s o, I s → C s o → I (step s o))
    (hexact : ∀ s o, I s → Q (step s o) → C s o) {s : σ} {ops : List ο} (h : I s) :
    Visits step Q s ops ↔ Along step C s ops :=
  visits_iff_along_of_forall (A := fun _ => True) hgood (fun s o _ => hkeep s o)
    (fun s o _ => hexact s o) (fun _ _ => trivial) h

theorem along_const {C : ο → Prop} {s : σ} {ops : List ο} :
    Along step (fun _ o => C o) s ops ↔ ∀ o ∈ ops, C o := by
  induction ops generalizing s with
  | nil => exact iff_of_true trivial (List.forall_mem_nil _)
  | cons o ops ih => rw [Along, ih, List.forall_mem_cons]

/-- Some operation of a longer run, with those before it: one of the run, or the last. -/
theorem exists_split_concat {P : List ο → ο → Prop} {ops : List ο} {o : ο} :
    (∃ before p after, ops ++ [o] = before ++ p :: after ∧ P before p) ↔
      (∃ before p after, ops = before ++ p :: after ∧ P before p) ∨ P ops o := by
  constructor
  · rintro ⟨before, p, after, hops, hP⟩
    cases after using List.reverseRecOn with
    | nil =>
        obtain ⟨rfl, hlast⟩ := List.append_inj' hops rfl
        obtain rfl := List.singleton_inj.mp hlast
        exact Or.inr hP
    | append_singleton after last =>
        rw [← List.cons_append, ← List.append_assoc] at hops
        obtain ⟨rfl, -⟩ := List.append_inj' hops rfl
        exact Or.inl ⟨before, p, after, rfl, hP⟩
  · rintro (⟨before, p, after, rfl, hP⟩ | hP)
    · exact ⟨before, p, after ++ [o], List.append_assoc _ _ _, hP⟩
    · exact ⟨ops, o, [], rfl, hP⟩

theorem forall_split_concat {P : List ο → ο → Prop} {ops : List ο} {o : ο} :
    (∀ before p after, ops ++ [o] = before ++ p :: after → P before p) ↔
      (∀ before p after, ops = before ++ p :: after → P before p) ∧ P ops o := by
  have hsplit : ∀ run : List ο, (∀ before p after, run = before ++ p :: after → P before p) ↔
      ¬∃ before p after, run = before ++ p :: after ∧ ¬P before p := by
    intro run
    simp only [not_exists, not_and, not_not]
  rw [hsplit, hsplit, exists_split_concat, not_or, not_not]

/-- Some operation was an event, and since then every operation meets `C` in the state it is
applied to. -/
def Since (step : σ → ο → σ) (event : ο → Prop) (C : σ → ο → Prop) (s : σ) (ops : List ο) :
    Prop :=
  ∃ before o after, ops = before ++ o :: after ∧ event o ∧
    Along step C (run step s (before ++ [o])) after

/-- **The rule for what a state remembers.**  If `P` comes only from an event, and holds on
only where `C` is met, then in a state with `P` there was an event and `C` has been met since. -/
theorem since_of_step {event : ο → Prop} {C : σ → ο → Prop} {P : σ → Prop} {s : σ} (hstart : ¬P s)
    (hstep : ∀ s o, P (step s o) → event o ∨ (P s ∧ C s o)) {ops : List ο}
    (h : P (run step s ops)) : Since step event C s ops := by
  induction ops using List.reverseRecOn with
  | nil => exact absurd h hstart
  | append_singleton ops o ih =>
      rw [run_concat] at h
      rcases hstep _ o h with hevent | ⟨hbefore, hC⟩
      · exact ⟨ops, o, [], rfl, hevent, trivial⟩
      · obtain ⟨before, e, after, rfl, hevent, halong⟩ := ih hbefore
        refine ⟨before, e, after ++ [o], ?_, hevent, ?_⟩
        · rw [List.append_assoc, List.cons_append]
        · rw [along_concat, ← run_append, List.append_assoc, List.singleton_append]
          exact ⟨halong, hC⟩

end Deterministic

/-! ## Loops -/

section Loops
variable {σ : Type} {f : σ → σ} {index : σ → Nat} {bound : Nat}

/-- A loop through fewer than `bound` states that comes to a state with `P` comes to
one in fewer than `bound` rounds. -/
theorem exists_iterate_lt (hindex : Function.Injective index) (hbound : ∀ s, index s < bound)
    {P : σ → Prop} {s : σ} {n : Nat} (h : P (f^[n] s)) : ∃ k < bound, P (f^[k] s) := by
  classical
  have hreach : ∃ n, P (f^[n] s) := ⟨n, h⟩
  let k := Nat.find hreach
  have hk : P (f^[k] s) := Nat.find_spec hreach
  have hleast : ∀ j < k, ¬P (f^[j] s) := fun j hj => Nat.find_min hreach hj
  -- up to there no state comes twice, or there would be a shorter way
  have hdistinct : ∀ i j, i < j → j ≤ k → f^[i] s ≠ f^[j] s := by
    intro i j hij hj heq
    have hshort : f^[k - j + i] s = f^[k] s := by
      rw [Function.iterate_add_apply, heq, ← Function.iterate_add_apply, Nat.sub_add_cancel hj]
    refine hleast (k - j + i) (by omega) ?_
    rw [hshort]
    exact hk
  have hinj : Set.InjOn (fun i => index (f^[i] s)) (Finset.range (k + 1)) := by
    intro i hi j hj heq
    rw [Finset.coe_range, Set.mem_Iio, Nat.lt_succ_iff] at hi hj
    have hsame : f^[i] s = f^[j] s := hindex heq
    rcases Nat.lt_trichotomy i j with hlt | heq | hgt
    · exact absurd hsame (hdistinct i j hlt hj)
    · exact heq
    · exact absurd hsame.symm (hdistinct j i hgt hi)
  have hcard := Finset.card_le_card_of_injOn (t := Finset.range bound) _
    (fun i _ => Finset.mem_coe.mpr (Finset.mem_range.mpr (hbound (f^[i] s)))) hinj
  rw [Finset.card_range, Finset.card_range] at hcard
  exact ⟨k, hcard, hk⟩

end Loops

/-! ## Reachable states -/

section Reachable
variable {σ τ : Type}

/-- The states a machine reaches from `init` by `next`. -/
inductive Reach (init : σ → Prop) (next : σ → σ → Prop) : σ → Prop
  | start {s : σ} : init s → Reach init next s
  | step {s s' : σ} : Reach init next s → next s s' → Reach init next s'

theorem Reach.invariant {init : σ → Prop} {next : σ → σ → Prop} {Inv : σ → Prop}
    (hinit : ∀ s, init s → Inv s) (hnext : ∀ s s', Inv s → next s s' → Inv s') {s : σ}
    (h : Reach init next s) : Inv s := by
  induction h with
  | start h => exact hinit _ h
  | step _ hs ih => exact hnext _ _ ih hs

theorem Reach.exists_init {init : σ → Prop} {next : σ → σ → Prop} {s : σ}
    (h : Reach init next s) : ∃ s₀, init s₀ := by
  induction h with
  | start h => exact ⟨_, h⟩
  | step _ _ ih => exact ih

theorem Reach.of_steps {init : σ → Prop} {next : σ → σ → Prop} {s s' : σ} (h : Reach init next s)
    (hsteps : Relation.ReflTransGen next s s') : Reach init next s' := by
  induction hsteps with
  | refl => exact h
  | tail _ hnext ih => exact .step ih hnext

/-- **The simulation rule.**  Every step of the concrete machine is a step of
the abstract one between related states, or leaves the abstract state as it
was; then every reachable concrete state has a reachable abstract counterpart. -/
theorem Reach.simulate {init : σ → Prop} {next : σ → σ → Prop} {init' : τ → Prop}
    {next' : τ → τ → Prop} {R : σ → τ → Prop} (hinit : ∀ s, init s → ∃ t, init' t ∧ R s t)
    (hnext : ∀ s s' t, next s s' → R s t → ∃ t', (t' = t ∨ next' t t') ∧ R s' t') {s : σ}
    (h : Reach init next s) : ∃ t, Reach init' next' t ∧ R s t := by
  induction h with
  | start h =>
      obtain ⟨t, ht, hR⟩ := hinit _ h
      exact ⟨t, .start ht, hR⟩
  | step _ hs ih =>
      obtain ⟨t, ht, hR⟩ := ih
      obtain ⟨t', hstep, hR'⟩ := hnext _ _ t hs hR
      rcases hstep with rfl | hstep
      · exact ⟨t', ht, hR'⟩
      · exact ⟨t', .step ht hstep, hR'⟩

end Reachable

end Runs
