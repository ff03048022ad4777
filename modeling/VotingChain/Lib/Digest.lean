/-
# `VotingChain.Lib.Digest` — digests of pieces, and chains of digests

A hash function as its users see it: a state to begin with, a way to feed it more of the
message, and a way to end.  Nothing says yet that the pieces do not matter.  What does is
that feeding a string is feeding its two parts, however it is cut:

    update s []       =  s
    update s (x ++ y) =  update (update s x) y

From these, by induction on the pieces, the digest is one of the whole message
(`Concatenates.hashMultiple`).

A chain of entries, each with a digest of its own and the digest of the entry before it:

    back e₁ = digest e₀   back e₂ = digest e₁   …

Entries with one digest need not be equal; what they agree on is a parameter, `view`.  If
entries with one digest agree on `view` and on the digest they name, then two chains of one
length whose last entries have one digest agree on `view` all along
(`HashChain.map_view_eq`).  So one digest, kept in a safe place, is enough to check a whole
chain.
-/
import Mathlib.Data.List.Basic
import Mathlib.Data.List.Chain
import Mathlib.Data.Vector.Basic

/-! ## Pieces -/

/-- A hash function with an output of `n` bytes, fed in pieces. -/
structure Digest (n : Nat) where
  State : Type
  init : State
  update : State → List UInt8 → State
  finalize : State → List.Vector UInt8 n

namespace Digest
variable {n : Nat}

/-- The digest of one piece. -/
def hash (D : Digest n) (data : List UInt8) : List.Vector UInt8 n :=
  D.finalize (D.update D.init data)

/-- The digest of several. -/
def hashMultiple (D : Digest n) (pieces : List (List UInt8)) : List.Vector UInt8 n :=
  D.finalize (pieces.foldl D.update D.init)

/-- The function `hash`, which keeps what it was fed until the end. -/
def ofHash (hash : List UInt8 → List.Vector UInt8 n) : Digest n where
  State := List UInt8
  init := []
  update := fun fed data => fed ++ data
  finalize := hash

/-- What is fed is concatenated. -/
structure Concatenates (D : Digest n) : Prop where
  update_nil : ∀ s, D.update s [] = s
  update_append : ∀ s x y, D.update s (x ++ y) = D.update (D.update s x) y

namespace Concatenates
variable {D : Digest n} (h : D.Concatenates)
include h

theorem foldl_update (pieces : List (List UInt8)) (s : D.State) :
    pieces.foldl D.update s = D.update s pieces.flatten := by
  induction pieces generalizing s with
  | nil => exact (h.update_nil s).symm
  | cons piece pieces ih =>
      rw [List.foldl_cons, ih, List.flatten_cons, h.update_append]

theorem hashMultiple (pieces : List (List UInt8)) :
    D.hashMultiple pieces = D.hash pieces.flatten := by
  rw [Digest.hashMultiple, h.foldl_update, hash]

end Concatenates

theorem concatenates_ofHash (hash : List UInt8 → List.Vector UInt8 n) :
    (ofHash hash).Concatenates where
  update_nil := List.append_nil
  update_append := fun s x y => (List.append_assoc s x y).symm

end Digest

/-! ## Chains -/

namespace HashChain

variable {α δ β : Type} (digest back : α → δ) (view : α → β)

/-- Each entry names the one before it. -/
def Linked (l : List α) : Prop := l.IsChain fun e e' => back e' = digest e

/-- Entries of `s` with one digest agree on what they show and on what they name. -/
def Binding (s : Set α) : Prop :=
  ∀ e ∈ s, ∀ e' ∈ s, digest e = digest e' → view e = view e' ∧ back e = back e'

variable {digest back view}

theorem Linked.of_append {l r : List α} (h : Linked digest back (l ++ r)) :
    Linked digest back l :=
  (List.isChain_append.mp h).1

theorem Linked.back_eq {l : List α} {e e' : α} (h : Linked digest back (l ++ [e] ++ [e'])) :
    back e' = digest e := by
  refine (List.isChain_append.mp h).2.2 e ?_ e' rfl
  rw [List.getLast?_append_of_ne_nil _ (List.cons_ne_nil e [])]
  rfl

/-- **One digest fixes the chain.** -/
theorem map_view_eq {s : Set α} (hbind : Binding digest back view s) {l l' : List α} {e e' : α}
    (hl : Linked digest back (l ++ [e])) (hl' : Linked digest back (l' ++ [e']))
    (hs : ∀ x ∈ l ++ [e], x ∈ s) (hs' : ∀ x ∈ l' ++ [e'], x ∈ s) (hlen : l.length = l'.length)
    (heq : digest e = digest e') : (l ++ [e]).map view = (l' ++ [e']).map view := by
  -- from the last entry backwards
  induction l using List.reverseRecOn generalizing l' e e' with
  | nil =>
      rw [List.eq_nil_of_length_eq_zero hlen.symm]
      simp [(hbind e (hs e (by simp)) e' (hs' e' (by simp)) heq).1]
  | append_singleton l x ih =>
      obtain ⟨hview, hback⟩ := hbind e (hs e (by simp)) e' (hs' e' (by simp)) heq
      rcases List.eq_nil_or_concat l' with rfl | ⟨l', x', rfl⟩
      · simp at hlen
      · rw [List.concat_eq_append] at *
        have hx : digest x = digest x' := by rw [← hl.back_eq, hback, hl'.back_eq]
        have hmap : (l ++ [x]).map view = (l' ++ [x']).map view :=
          ih hl.of_append hl'.of_append (fun y hy => hs y (List.mem_append_left _ hy))
            (fun y hy => hs' y (List.mem_append_left _ hy)) (by simpa using hlen) hx
        calc (l ++ [x] ++ [e]).map view = (l ++ [x]).map view ++ [view e] := by simp
          _ = (l' ++ [x']).map view ++ [view e'] := by rw [hmap, hview]
          _ = (l' ++ [x'] ++ [e']).map view := by simp

end HashChain
