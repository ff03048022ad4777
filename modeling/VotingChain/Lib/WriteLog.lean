/-
# `VotingChain.Lib.WriteLog` — writes to a map, one after another, and where they can stop

A list of writes, each a key and what is put under it, done in order on a finite map.  A
process that dies has done the first few of them.

What is under a key that is written does not depend on what was there (`lookup_apply_congr`);
so to do all the writes after some of them is to do all of them (`lookup_apply_apply`).
-/
import Mathlib.Data.Finmap

namespace WriteLog

variable {κ β : Type} [DecidableEq κ]

/-- The writes, done in order. -/
def apply (m : Finmap fun _ : κ => β) (ws : List (κ × β)) : Finmap fun _ : κ => β :=
  ws.foldl (fun m w => m.insert w.1 w.2) m

@[simp] theorem apply_nil (m : Finmap fun _ : κ => β) : apply m [] = m := rfl

@[simp] theorem apply_cons (m : Finmap fun _ : κ => β) (w : κ × β) (ws : List (κ × β)) :
    apply m (w :: ws) = apply (m.insert w.1 w.2) ws := rfl

theorem apply_append (m : Finmap fun _ : κ => β) (ws ws' : List (κ × β)) :
    apply m (ws ++ ws') = apply (apply m ws) ws' := List.foldl_append

theorem lookup_apply_of_not_mem {k : κ} (ws : List (κ × β)) (m : Finmap fun _ : κ => β)
    (h : k ∉ ws.map Prod.fst) : (apply m ws).lookup k = m.lookup k := by
  induction ws generalizing m with
  | nil => rfl
  | cons w ws ih =>
      rw [List.map_cons, List.mem_cons, not_or] at h
      rw [apply_cons, ih _ h.2, Finmap.lookup_insert_of_ne _ h.1]

theorem lookup_apply_congr {k : κ} (ws : List (κ × β)) {m m' : Finmap fun _ : κ => β}
    (h : k ∈ ws.map Prod.fst ∨ m.lookup k = m'.lookup k) :
    (apply m ws).lookup k = (apply m' ws).lookup k := by
  induction ws generalizing m m' with
  | nil =>
      rcases h with h | h
      · cases h
      · exact h
  | cons w ws ih =>
      rw [apply_cons, apply_cons]
      refine ih ?_
      by_cases hk : k = w.1
      · subst hk
        rw [Finmap.lookup_insert, Finmap.lookup_insert]
        exact Or.inr rfl
      · rw [Finmap.lookup_insert_of_ne _ hk, Finmap.lookup_insert_of_ne _ hk]
        exact h.imp_left fun hmem => (List.mem_cons.mp hmem).resolve_left hk

theorem lookup_apply_filter {p : κ → Bool} {k : κ} (hk : p k = true) (ws : List (κ × β))
    (m : Finmap fun _ : κ => β) :
    (apply m (ws.filter fun w => p w.1)).lookup k = (apply m ws).lookup k := by
  induction ws generalizing m with
  | nil => rfl
  | cons w ws ih =>
      by_cases hw : p w.1 = true
      · simp only [List.filter_cons, hw, if_true, apply_cons, ih]
      · simp only [List.filter_cons, hw, apply_cons]
        refine (ih m).trans (lookup_apply_congr ws (Or.inr ?_))
        refine (Finmap.lookup_insert_of_ne _ ?_).symm
        rintro rfl
        exact hw hk

/-- **Begun, and then done.**  What was done before it broke off does not matter, if all of it is
done again. -/
theorem lookup_apply_apply {k : κ} {ws done : List (κ × β)}
    (h : k ∈ done.map Prod.fst → k ∈ ws.map Prod.fst) (m : Finmap fun _ : κ => β) :
    (apply (apply m done) ws).lookup k = (apply m ws).lookup k := by
  by_cases hk : k ∈ ws.map Prod.fst
  · exact lookup_apply_congr ws (Or.inl hk)
  · exact lookup_apply_congr ws (Or.inr (lookup_apply_of_not_mem done m (mt h hk)))

end WriteLog
