/-
# `VotingChain.Lib.Worklist` — a walk with a stack and no memory of where it has been

A walk takes the key on top of a stack, collects what hangs below it, and puts the keys of that
on the stack, until the stack is empty.  It does not note which keys it has seen.  So it ends
exactly where the way down ends (`ends_iff`), which in a finite part of the graph is to say that
there is no circle (`acc_iff`); and where each key hangs below one other at most, everything
below the first key is then collected once (`run_spec`).
-/
import Mathlib.Data.Set.Finite.Basic
import Mathlib.Data.Fintype.Card
import Mathlib.Data.List.Nodup
import Mathlib.Data.List.Perm.Basic
import Mathlib.Logic.Relation
import Mathlib.Algebra.BigOperators.Group.List.Basic

namespace Worklist
open Relation List

variable {κ β : Type} (next : κ → List β) (key : β → κ)

/-- The walk for so many rounds, and what it has collected when the stack is empty.  The head of
the list is the top of the stack. -/
def run : Nat → List κ → List β → Option (List β)
  | _, [], found => some found
  | 0, _ :: _, _ => none
  | rounds + 1, k :: stack, found =>
      run rounds (((next k).map key).reverse ++ stack) (found ++ next k)

/-- `b` is the key of something that hangs below `a`. -/
def Down (a b : κ) : Prop := ∃ e ∈ next a, key e = b

/-- Some number of rounds suffices. -/
def Ends (stack : List κ) : Prop := ∃ rounds found, run next key rounds stack [] = some found

/-- Nothing hangs below two keys, and nothing twice below one. -/
structure Forest : Prop where
  nodup : ∀ a, ((next a).map key).Nodup
  parent : ∀ a a' b, Down next key a b → Down next key a' b → a = a'

variable {next key}

/-! ## Rounds -/

@[simp] theorem run_nil (rounds : Nat) (found : List β) :
    run next key rounds [] found = some found := by
  cases rounds <;> rfl

theorem run_found (rounds : Nat) (stack : List κ) (found : List β) :
    run next key rounds stack found = (run next key rounds stack []).map (found ++ ·) := by
  induction rounds generalizing stack found with
  | zero =>
      cases stack with
      | nil => simp
      | cons k stack => rfl
  | succ rounds ih =>
      cases stack with
      | nil => simp
      | cons k stack =>
          rw [run, run, ih _ (found ++ next k), ih _ ([] ++ next k), Option.map_map]
          congr 1
          funext all
          simp

theorem run_succ_cons {rounds : Nat} {k : κ} {stack : List κ} {found : List β} :
    run next key (rounds + 1) (k :: stack) [] = some found ↔
      ∃ rest, run next key rounds (((next k).map key).reverse ++ stack) [] = some rest ∧
        next k ++ rest = found := by
  rw [run, run_found, List.nil_append, Option.map_eq_some_iff]

theorem run_mono {rounds more : Nat} {stack : List κ} {found : List β}
    (h : run next key rounds stack [] = some found) (hle : rounds ≤ more) :
    run next key more stack [] = some found := by
  induction rounds generalizing more stack found with
  | zero =>
      cases stack with
      | nil => simpa using h
      | cons k stack => cases h
  | succ rounds ih =>
      cases stack with
      | nil => simpa using h
      | cons k stack =>
          obtain ⟨more, rfl⟩ : ∃ n, more = n + 1 := ⟨more - 1, by omega⟩
          obtain ⟨rest, hrest, hfound⟩ := run_succ_cons.mp h
          exact run_succ_cons.mpr ⟨rest, ih hrest (Nat.le_of_succ_le_succ hle), hfound⟩

theorem run_unique {rounds rounds' : Nat} {stack : List κ} {found found' : List β}
    (h : run next key rounds stack [] = some found)
    (h' : run next key rounds' stack [] = some found') : found = found' := by
  have hlong := run_mono h (Nat.le_max_left rounds rounds')
  rw [run_mono h' (Nat.le_max_right rounds rounds')] at hlong
  exact (Option.some.inj hlong).symm

/-- One stack on another: first the walk with the upper one, then that with the lower. -/
theorem run_append {rounds rounds' : Nat} {upper lower : List κ} {found found' : List β}
    (h : run next key rounds upper [] = some found)
    (h' : run next key rounds' lower [] = some found') :
    run next key (rounds + rounds') (upper ++ lower) [] = some (found ++ found') := by
  induction rounds generalizing upper found with
  | zero =>
      cases upper with
      | nil =>
          cases h
          simpa using h'
      | cons k upper => cases h
  | succ rounds ih =>
      cases upper with
      | nil =>
          cases h
          exact run_mono h' (Nat.le_add_left _ _)
      | cons k upper =>
          obtain ⟨rest, hrest, rfl⟩ := run_succ_cons.mp h
          rw [Nat.succ_add_eq_add_succ, Nat.add_succ, List.cons_append, List.append_assoc]
          refine run_succ_cons.mpr ⟨rest ++ found', ?_, rfl⟩
          rw [← List.append_assoc]
          exact ih hrest

/-! ## When the walk ends -/

theorem ends_of_forall {stack : List κ} (h : ∀ k ∈ stack, Ends next key [k]) :
    Ends next key stack := by
  induction stack with
  | nil => exact ⟨0, [], rfl⟩
  | cons k stack ih =>
      obtain ⟨rounds, found, hfirst⟩ := h k List.mem_cons_self
      obtain ⟨rounds', found', hrest⟩ := ih fun k' hk' => h k' (List.mem_cons_of_mem k hk')
      exact ⟨_, _, run_append hfirst hrest⟩

theorem ends_of_acc {k : κ} (h : Acc (fun b a => Down next key a b) k) : Ends next key [k] := by
  induction h with
  | intro k _ ih =>
      have hbelow : Ends next key (((next k).map key).reverse ++ []) := by
        refine ends_of_forall fun b hb => ih b ?_
        simpa [Down] using hb
      obtain ⟨rounds, rest, hrest⟩ := hbelow
      exact ⟨rounds + 1, _, run_succ_cons.mpr ⟨rest, hrest, rfl⟩⟩

theorem acc_of_run {rounds : Nat} {stack : List κ} {found : List β}
    (h : run next key rounds stack [] = some found) :
    ∀ k ∈ stack, Acc (fun b a => Down next key a b) k := by
  induction rounds generalizing stack found with
  | zero =>
      cases stack with
      | nil => simp
      | cons k stack => cases h
  | succ rounds ih =>
      cases stack with
      | nil => simp
      | cons top stack =>
          obtain ⟨rest, hrest, -⟩ := run_succ_cons.mp h
          intro k hk
          rcases List.mem_cons.mp hk with rfl | hk
          · refine Acc.intro k fun b hb => ih hrest b ?_
            simpa [Down] using Or.inl hb
          · exact ih hrest k (List.mem_append_right _ hk)

theorem ends_iff {k : κ} : Ends next key [k] ↔ Acc (fun b a => Down next key a b) k := by
  constructor
  · rintro ⟨rounds, found, h⟩
    exact acc_of_run h k List.mem_cons_self
  · exact ends_of_acc

theorem acc_of_reach {k a : κ} (h : Acc (fun b a => Down next key a b) k)
    (ha : ReflTransGen (Down next key) k a) : Acc (fun b a => Down next key a b) a := by
  induction ha with
  | refl => exact h
  | tail _ hdown ih => exact ih.inv hdown

theorem not_related_of_acc {r : κ → κ → Prop} {a : κ} (h : Acc r a) : ¬r a a := by
  induction h with
  | intro a _ ih => exact fun ha => ih a ha ha

theorem not_circle_of_acc {k a : κ} (h : Acc (fun b a => Down next key a b) k)
    (ha : ReflTransGen (Down next key) k a) : ¬TransGen (Down next key) a a := by
  intro hcircle
  exact not_related_of_acc (acc_of_reach h ha).transGen (TransGen.swap a a hcircle)

/-- Where finitely many keys are reached, a way down that never ends must come back to where it
was. -/
theorem acc_iff {k : κ} (hfin : {a | ReflTransGen (Down next key) k a}.Finite) :
    Acc (fun b a => Down next key a b) k ↔
      ∀ a, ReflTransGen (Down next key) k a → ¬TransGen (Down next key) a a := by
  constructor
  · exact fun h a ha => not_circle_of_acc h ha
  · intro hcircle
    have : Finite {a | ReflTransGen (Down next key) k a} := hfin
    let below : {a | ReflTransGen (Down next key) k a} → {a | ReflTransGen (Down next key) k a} →
      Prop := fun b a => TransGen (Down next key) a b
    have : IsTrans _ below := ⟨fun c b a hcb hba => hba.trans hcb⟩
    have : Std.Irrefl below := ⟨fun a => hcircle a a.2⟩
    have hwf : WellFounded below := Finite.wellFounded_of_trans_of_irrefl below
    have hall : ∀ a : {a | ReflTransGen (Down next key) k a},
        Acc (fun b a => Down next key a b) a.1 := by
      intro a
      induction a using hwf.induction with
      | h a ih => exact Acc.intro a.1 fun b hb => ih ⟨b, a.2.tail hb⟩ (TransGen.single hb)
    exact hall ⟨k, ReflTransGen.refl⟩

/-! ## What the walk collects -/

theorem reverse_append_perm (xs ys zs : List κ) : xs.reverse ++ (ys ++ zs) ~ ys ++ (xs ++ zs) := by
  rw [← List.append_assoc, ← List.append_assoc]
  exact ((List.reverse_perm xs).append_right ys |>.trans List.perm_append_comm).append_right zs

theorem exists_visited {rounds : Nat} {stack : List κ} {found : List β}
    (h : run next key rounds stack [] = some found) :
    ∃ visited : List κ, found = visited.flatMap next ∧
      visited.Perm (stack ++ found.map key) ∧
      ∀ a ∈ visited, ∃ k ∈ stack, ReflTransGen (Down next key) k a := by
  induction rounds generalizing stack found with
  | zero =>
      cases stack with
      | nil =>
          cases h
          exact ⟨[], rfl, .refl _, by simp⟩
      | cons k stack => cases h
  | succ rounds ih =>
      cases stack with
      | nil =>
          cases h
          exact ⟨[], rfl, .refl _, by simp⟩
      | cons k stack =>
          obtain ⟨rest, hrest, rfl⟩ := run_succ_cons.mp h
          obtain ⟨visited, rfl, hperm, hreach⟩ := ih hrest
          refine ⟨k :: visited, rfl, ?_, ?_⟩
          · rw [List.cons_append, List.perm_cons, List.map_append]
            rw [List.append_assoc] at hperm
            exact hperm.trans (reverse_append_perm _ _ _)
          · intro a ha
            rcases List.mem_cons.mp ha with rfl | ha
            · exact ⟨a, List.mem_cons_self, ReflTransGen.refl⟩
            · obtain ⟨k', hk', hka⟩ := hreach a ha
              rcases List.mem_append.mp hk' with hchild | hk'
              · have hdown : Down next key k k' := by simpa [Down] using hchild
                exact ⟨k, List.mem_cons_self, hka.head hdown⟩
              · exact ⟨k', List.mem_cons_of_mem k hk', hka⟩

section Forest
variable [DecidableEq κ]

theorem count_flatMap (hforest : Forest next key) {a b : κ} (hab : Down next key a b)
    (visited : List κ) :
    ((visited.flatMap next).map key).count b = visited.count a := by
  obtain ⟨e, he, rfl⟩ := hab
  induction visited with
  | nil => rfl
  | cons k visited ih =>
      rw [List.flatMap_cons, List.map_append, List.count_append, ih, List.count_cons]
      by_cases hk : k = a
      · subst hk
        have hone : ((next k).map key).count (key e) = 1 :=
          List.count_eq_one_of_mem (hforest.nodup k) (List.mem_map_of_mem he)
        simp [hone, Nat.add_comm]
      · have hnone : ((next k).map key).count (key e) = 0 := by
          refine List.count_eq_zero.mpr fun hmem => hk ?_
          exact hforest.parent k a (key e) (by simpa [Down] using hmem) ⟨e, he, rfl⟩
        simp [hnone, hk]

theorem count_visited (hforest : Forest next key) {k : κ} {visited : List κ}
    (hacc : Acc (fun b a => Down next key a b) k)
    (hperm : visited.Perm ([k] ++ (visited.flatMap next).map key))
    (hback : ∀ a ∈ visited, ReflTransGen (Down next key) k a) {a : κ}
    (ha : ReflTransGen (Down next key) k a) : visited.count a = 1 := by
  have hcircle := not_circle_of_acc hacc ReflTransGen.refl
  have hcount : ∀ b, visited.count b =
      [k].count b + ((visited.flatMap next).map key).count b := by
    intro b
    rw [← List.count_append]
    exact hperm.count_eq b
  induction ha with
  | refl =>
      -- the key above the first one is not reached from it
      have hnone : ((visited.flatMap next).map key).count k = 0 := by
        refine List.count_eq_zero.mpr fun hmem => ?_
        obtain ⟨e, he, hek⟩ := List.mem_map.mp hmem
        obtain ⟨a, ha, hea⟩ := List.mem_flatMap.mp he
        exact hcircle (TransGen.tail' (hback a ha) ⟨e, hea, hek⟩)
      rw [hcount, hnone, List.count_singleton_self]
  | @tail a b ha hab ih =>
      have hne : k ≠ b := by
        rintro rfl
        exact hcircle (TransGen.tail' ha hab)
      rw [hcount, count_flatMap hforest hab, ih, List.count_eq_zero.mpr]
      simpa using hne.symm

/-- **The walk in a forest.**  What it collects from a key is all that hangs below a key that is
reached from there, and no two of it have the same key, nor has any of it the key itself. -/
theorem run_spec (hforest : Forest next key) {rounds : Nat} {k : κ} {found : List β}
    (h : run next key rounds [k] [] = some found) :
    (k :: found.map key).Nodup ∧
    ∀ e, e ∈ found ↔ ∃ a, ReflTransGen (Down next key) k a ∧ e ∈ next a := by
  have hacc := acc_of_run h k List.mem_cons_self
  obtain ⟨visited, rfl, hperm, hreach⟩ := exists_visited h
  have hback : ∀ a ∈ visited, ReflTransGen (Down next key) k a := by
    intro a ha
    obtain ⟨k', hk', hka⟩ := hreach a ha
    rwa [← List.mem_singleton.mp hk']
  have hone : ∀ a, ReflTransGen (Down next key) k a → visited.count a = 1 :=
    fun a => count_visited hforest hacc hperm hback
  have hnodup : visited.Nodup :=
    List.nodup_iff_count_eq_one.mpr fun a ha => hone a (hback a ha)
  constructor
  · exact hperm.nodup_iff.mp hnodup
  · intro e
    rw [List.mem_flatMap]
    constructor
    · rintro ⟨a, ha, he⟩
      exact ⟨a, hback a ha, he⟩
    · rintro ⟨a, ha, he⟩
      refine ⟨a, List.count_pos_iff.mp ?_, he⟩
      rw [hone a ha]
      exact Nat.one_pos

end Forest

end Worklist
