/-
# `VotingChain.Lib.PairTree` — trees hashed bottom-up over neighbouring pairs

A level is folded into the next one by combining neighbours, the last node
with itself when it has no neighbour; the fold is repeated until one node is
left.  `f : α → α → α` is the combining function and is never assumed
injective: what is assumed is injectivity on a set `S` of pairs, and the
hypotheses say which pairs have to be in it — those the construction combines
(`pairs`) and those a path combines (`pathPairs`).  For an `f` with a finite
range nothing stronger could hold.

    root_inj       equally many leaves and the same root   ⟹  the same leaves
    climb_level    a path that arrives at a node of level k  starts at a node of
                   level k - |path|, or is longer than k and passes through a leaf
    climb_pathOf   the path collected for a leaf arrives at the top
    climb_start    a path to the top starts at the node that its turns lead down to;
                   the turns of position i lead down to it (start_turns)

Without the length hypothesis the first is false: padding `[x, y, z]` with its
last leaf gives `[x, y, z, z]`, which has the same root.
-/
import Mathlib.Algebra.Group.Nat.Defs
import Mathlib.Data.List.Basic
import Mathlib.Data.List.Induction
import Mathlib.Data.Nat.Log
import Mathlib.Data.Set.Function
import Mathlib.Logic.Function.Iterate

/-- Lists with the same image under `f` are equal, if `f` is injective on a set that
holds their elements. -/
theorem List.eq_of_map_eq_of_injOn {α β : Type} {f : α → β} {S : Set α} (hinj : Set.InjOn f S)
    {l l' : List α} (hl : ∀ x ∈ l, x ∈ S) (hl' : ∀ x ∈ l', x ∈ S) (h : l.map f = l'.map f) :
    l = l' := by
  induction l generalizing l' with
  | nil => exact (List.map_eq_nil_iff.mp h.symm).symm
  | cons x l ih =>
      cases l' with
      | nil => simp at h
      | cons y l' =>
          simp only [List.map_cons, List.cons.injEq] at h
          have hxy : x = y := hinj (hl x List.mem_cons_self) (hl' y List.mem_cons_self) h.1
          have htail : l = l' := by
            apply ih
            · intro z hz
              exact hl z (List.mem_cons_of_mem _ hz)
            · intro z hz
              exact hl' z (List.mem_cons_of_mem _ hz)
            · exact h.2
          rw [hxy, htail]

namespace PairTree

variable {α : Type}

/-! ## One level -/

/-- Neighbours, paired; a node without a neighbour is paired with itself. -/
def pairUp : List α → List (α × α)
  | [] => []
  | [x] => [(x, x)]
  | x :: y :: rest => (x, y) :: pairUp rest

/-- The level above. -/
def nextLevel (f : α → α → α) (level : List α) : List α :=
  (pairUp level).map fun p => f p.1 p.2

theorem length_pairUp : ∀ l : List α, (pairUp l).length = (l.length + 1) / 2
  | [] => by simp [pairUp]
  | [_] => by simp [pairUp]
  | _ :: _ :: rest => by
      simp only [pairUp, List.length_cons, length_pairUp rest]
      omega

@[simp] theorem length_nextLevel (f : α → α → α) (l : List α) :
    (nextLevel f l).length = (l.length + 1) / 2 := by
  rw [nextLevel, List.length_map, length_pairUp]

theorem mem_of_mem_pairUp : ∀ {l : List α} {p : α × α}, p ∈ pairUp l → p.1 ∈ l ∧ p.2 ∈ l
  | [x], p, h => by
      simp only [pairUp, List.mem_singleton] at h
      subst h
      exact ⟨List.mem_cons_self, List.mem_cons_self⟩
  | x :: y :: rest, p, h => by
      simp only [pairUp, List.mem_cons] at h
      rcases h with rfl | h
      · exact ⟨List.mem_cons_self, List.mem_cons_of_mem _ List.mem_cons_self⟩
      · obtain ⟨h₁, h₂⟩ := mem_of_mem_pairUp h
        exact ⟨List.mem_cons_of_mem _ (List.mem_cons_of_mem _ h₁),
          List.mem_cons_of_mem _ (List.mem_cons_of_mem _ h₂)⟩

theorem pairUp_inj : ∀ {l l' : List α}, l.length = l'.length → pairUp l = pairUp l' → l = l'
  | [], [], _, _ => rfl
  | [x], [y], _, h => by
      simp only [pairUp, List.cons.injEq, Prod.mk.injEq, and_true] at h
      rw [h.1]
  | x :: y :: rest, x' :: y' :: rest', hlen, h => by
      simp only [pairUp, List.cons.injEq, Prod.mk.injEq] at h
      obtain ⟨⟨rfl, rfl⟩, hrest⟩ := h
      rw [pairUp_inj (by simpa using hlen) hrest]

/-- The node made from a pair, as a function of the pair. -/
def join (f : α → α → α) (p : α × α) : α := f p.1 p.2

theorem nextLevel_inj {f : α → α → α} {S : Set (α × α)} (hinj : Set.InjOn (join f) S)
    {l l' : List α} (hl : ∀ p ∈ pairUp l, p ∈ S) (hl' : ∀ p ∈ pairUp l', p ∈ S)
    (hlen : l.length = l'.length) (h : nextLevel f l = nextLevel f l') : l = l' :=
  pairUp_inj hlen (List.eq_of_map_eq_of_injOn hinj hl hl' h)

/-! ## The whole tree

`fuel` bounds the number of folds; a list's own length is always enough,
because a fold of two or more nodes is shorter than they are. -/

/-- The levels, leaves first, until one node is left. -/
def levels (f : α → α → α) : Nat → List α → List (List α)
  | 0, l => [l]
  | fuel + 1, l => if 1 < l.length then l :: levels f fuel (nextLevel f l) else [l]

theorem levels_ne_nil (f : α → α → α) (fuel : Nat) (l : List α) : levels f fuel l ≠ [] := by
  cases fuel with
  | zero => exact List.cons_ne_nil _ _
  | succ fuel =>
      rw [levels]
      split
      · exact List.cons_ne_nil _ _
      · exact List.cons_ne_nil _ _

/-- The pairs combined on the way up. -/
def pairs (f : α → α → α) : Nat → List α → List (α × α)
  | 0, _ => []
  | fuel + 1, l => if 1 < l.length then pairUp l ++ pairs f fuel (nextLevel f l) else []

/-- The level `k` folds above the leaves. -/
def level (f : α → α → α) (l : List α) (k : Nat) : List α := (nextLevel f)^[k] l

theorem level_succ (f : α → α → α) (l : List α) (k : Nat) :
    level f l (k + 1) = nextLevel f (level f l k) :=
  Function.iterate_succ_apply' (nextLevel f) k l

theorem level_nextLevel (f : α → α → α) (l : List α) (k : Nat) :
    level f (nextLevel f l) k = level f l (k + 1) :=
  (Function.iterate_succ_apply (nextLevel f) k l).symm

/-- How many folds it takes until one node is left. -/
def height (l : List α) : Nat := Nat.clog 2 l.length

theorem height_nextLevel (f : α → α → α) {l : List α} (h : 1 < l.length) :
    height l = height (nextLevel f l) + 1 := by
  rw [height, height, length_nextLevel, Nat.clog_of_one_lt Nat.one_lt_two h]
  rfl

theorem nextLevel_ne_nil (f : α → α → α) {l : List α} (h : l ≠ []) : nextLevel f l ≠ [] := by
  have hpos := List.length_pos_of_ne_nil h
  refine List.ne_nil_of_length_pos ?_
  rw [length_nextLevel]
  omega

/-- The top level: one node, `height l` folds above the leaves; every level below it
combines only pairs in `pairs`. -/
theorem levels_top (f : α → α → α) : ∀ (fuel : Nat) (l : List α), l ≠ [] → l.length ≤ fuel →
    ∃ top : α, level f l (height l) = [top] ∧ (levels f fuel l).getLast? = some [top] ∧
      ∀ k < height l, ∀ p ∈ pairUp (level f l k), p ∈ pairs f fuel l
  | 0, l, hne, hlen => absurd (List.eq_nil_of_length_eq_zero (Nat.le_zero.mp hlen)) hne
  | fuel + 1, l, hne, hlen => by
      by_cases h1 : 1 < l.length
      · obtain ⟨top, htop, hlast, hp⟩ := levels_top f fuel (nextLevel f l) (nextLevel_ne_nil f hne)
          (by rw [length_nextLevel]; omega)
        rw [height_nextLevel f h1]
        refine ⟨top, by rw [← level_nextLevel]; exact htop, ?_, ?_⟩
        · simp only [levels, if_pos h1, List.getLast?_cons, hlast, Option.getD_some]
        · intro k hk p hmem
          simp only [pairs, if_pos h1, List.mem_append]
          match k with
          | 0 => exact Or.inl hmem
          | k + 1 =>
              rw [← level_nextLevel] at hmem
              exact Or.inr (hp k (by omega) p hmem)
      · match l, hne with
        | [x], _ =>
            have h0 : height [x] = 0 := Nat.clog_one_right 2
            rw [h0]
            exact ⟨x, rfl, rfl, fun k hk => absurd hk (Nat.not_lt_zero k)⟩
        | _ :: _ :: _, _ => exact absurd (by simp) h1

/-- **Between lists of one length, the top node determines the leaves.** -/
theorem root_inj {f : α → α → α} {S : Set (α × α)} (hinj : Set.InjOn (join f) S) :
    ∀ {fuel : Nat} {l l' : List α}, l.length ≤ fuel → l.length = l'.length →
      (∀ p ∈ pairs f fuel l, p ∈ S) → (∀ p ∈ pairs f fuel l', p ∈ S) →
      (levels f fuel l).getLast? = (levels f fuel l').getLast? → l = l'
  | 0, l, l', hlen, hll, _, _, _ => by
      have h0 := List.eq_nil_of_length_eq_zero (Nat.le_zero.mp hlen)
      rw [h0] at hll ⊢
      exact (List.eq_nil_of_length_eq_zero hll.symm).symm
  | fuel + 1, l, l', hlen, hll, hl, hl', htop => by
      by_cases h1 : 1 < l.length
      · have h1' : 1 < l'.length := hll ▸ h1
        simp only [pairs, if_pos h1, if_pos h1', List.mem_append] at hl hl'
        simp only [levels, if_pos h1, if_pos h1', List.getLast?_cons] at htop
        have hnext : nextLevel f l = nextLevel f l' := by
          refine root_inj hinj (by rw [length_nextLevel]; omega) (by simp [hll])
            (fun p hp => hl p (Or.inr hp)) (fun p hp => hl' p (Or.inr hp)) ?_
          -- `levels` is never empty, so `getLast?` is not hidden by the default
          have hsome : ∀ m : List α, (levels f fuel m).getLast? ≠ none := by
            intro m hm
            exact levels_ne_nil f fuel m (List.getLast?_eq_none_iff.mp hm)
          cases ha : (levels f fuel (nextLevel f l)).getLast? with
          | none => exact absurd ha (hsome _)
          | some a =>
              cases hb : (levels f fuel (nextLevel f l')).getLast? with
              | none => exact absurd hb (hsome _)
              | some b => simpa [ha, hb] using htop
        exact nextLevel_inj hinj (fun p hp => hl p (Or.inl hp)) (fun p hp => hl' p (Or.inl hp))
          hll hnext
      · have h1' : ¬ 1 < l'.length := hll ▸ h1
        simpa [levels, h1, h1'] using htop

/-! ## Paths -/

/-- One step of a path: the sibling, and whether it stands on the left. -/
structure Step (α : Type) where
  sibling : α
  isLeft : Bool

/-- The pair a step combines. -/
def stepPair (x : α) (s : Step α) : α × α :=
  if s.isLeft then (s.sibling, x) else (x, s.sibling)

/-- The node a path arrives at. -/
def climb (f : α → α → α) (x : α) (path : List (Step α)) : α :=
  path.foldl (fun y s => join f (stepPair y s)) x

/-- The pairs combined along a path. -/
def pathPairs (f : α → α → α) (x : α) : List (Step α) → List (α × α)
  | [] => []
  | s :: path => stepPair x s :: pathPairs f (join f (stepPair x s)) path

theorem climb_append (f : α → α → α) (x : α) (path path' : List (Step α)) :
    climb f x (path ++ path') = climb f (climb f x path) path' := by
  rw [climb, climb, climb, List.foldl_append]

theorem pathPairs_append (f : α → α → α) (path' : List (Step α)) :
    ∀ (x : α) (path : List (Step α)),
      pathPairs f x (path ++ path') = pathPairs f x path ++ pathPairs f (climb f x path) path'
  | _, [] => rfl
  | x, s :: path => by
      rw [List.cons_append, pathPairs, pathPairs, pathPairs_append f path' _ path]
      rfl

theorem mem_of_stepPair_mem {l : List α} {x : α} {s : Step α} (h : stepPair x s ∈ pairUp l) :
    x ∈ l := by
  have := mem_of_mem_pairUp h
  unfold stepPair at this
  split at this
  · exact this.2
  · exact this.1

/-- **Where a path can start.**  Read from the top: the last step combines the
pair that made the node it arrives at, so the path came through that node's
level, one step earlier.  A path longer than the tree is high goes on below the
leaves, and then some leaf is itself a combination. -/
theorem climb_level {f : α → α → α} {S : Set (α × α)} (hinj : Set.InjOn (join f) S)
    {l : List α} {d : Nat} (htree : ∀ k < d, ∀ p ∈ pairUp (level f l k), p ∈ S) (x : α)
    (path : List (Step α)) : ∀ k ≤ d, (∀ p ∈ pathPairs f x path, p ∈ S) →
      climb f x path ∈ level f l k →
      (path.length ≤ k ∧ x ∈ level f l (k - path.length)) ∨
      ∃ p ∈ pathPairs f x path, join f p ∈ l := by
  induction path using List.reverseRecOn with
  | nil => intro k _ _ hmem; exact Or.inl ⟨Nat.zero_le k, hmem⟩
  | append_singleton path s ih =>
      intro k hk hpath hmem
      simp only [pathPairs_append, pathPairs, List.mem_append, List.mem_singleton] at hpath ⊢
      rw [climb_append] at hmem
      match k with
      | 0 => exact Or.inr ⟨_, Or.inr rfl, hmem⟩
      | k + 1 =>
          rw [level_succ, nextLevel, List.mem_map] at hmem
          obtain ⟨p, hp, hjoin⟩ := hmem
          have hpair : p = stepPair (climb f x path) s :=
            hinj (htree k (by omega) p hp) (hpath _ (Or.inr rfl)) hjoin
          have hbelow : climb f x path ∈ level f l k := mem_of_stepPair_mem (hpair ▸ hp)
          rcases ih k (by omega) (fun p hp => hpath p (Or.inl hp)) hbelow with ⟨hle, hx⟩ | ⟨p, hp, h⟩
          · refine Or.inl ⟨by simp only [List.length_append, List.length_singleton]; omega, ?_⟩
            rw [List.length_append, List.length_singleton, Nat.add_sub_add_right]
            exact hx
          · exact Or.inr ⟨p, Or.inl hp, h⟩

theorem climb_inj {f : α → α → α} {S : Set (α × α)} (hinj : Set.InjOn (join f) S)
    (path : List (Step α)) : ∀ {x y : α}, (∀ p ∈ pathPairs f x path, p ∈ S) →
      (∀ p ∈ pathPairs f y path, p ∈ S) → climb f x path = climb f y path → x = y := by
  induction path with
  | nil =>
      intro x y _ _ h
      exact h
  | cons s path ih =>
      intro x y hx hy h
      have hjoin : join f (stepPair x s) = join f (stepPair y s) := by
        refine ih ?_ ?_ h
        · intro p hp
          exact hx p (List.mem_cons_of_mem _ hp)
        · intro p hp
          exact hy p (List.mem_cons_of_mem _ hp)
      have hpair : stepPair x s = stepPair y s :=
        hinj (hx _ List.mem_cons_self) (hy _ List.mem_cons_self) hjoin
      unfold stepPair at hpair
      split at hpair
      · exact (Prod.mk.inj hpair).2
      · exact (Prod.mk.inj hpair).1

/-! ## Positions

The node at position `i` of a level is combined into the one at position `i / 2` of the
next: from the left if `i` is even, from the right if it is odd. -/

theorem getElem?_pairUp : ∀ (l : List α) (j : Nat),
    (pairUp l)[j]? = l[2 * j]?.map fun a => (a, l[2 * j + 1]?.getD a)
  | [], j => by simp [pairUp]
  | [x], 0 => rfl
  | [x], j + 1 => by simp [pairUp, Nat.mul_add]
  | x :: y :: rest, 0 => rfl
  | x :: y :: rest, j + 1 => by
      have hrec := getElem?_pairUp rest j
      simpa [pairUp, Nat.mul_add] using hrec

theorem getElem?_nextLevel (f : α → α → α) (l : List α) (j : Nat) :
    (nextLevel f l)[j]? = (pairUp l)[j]?.map (join f) := by
  rw [nextLevel, List.getElem?_map]
  rfl

/-- Where the other node of the pair is. -/
def siblingIndex (i : Nat) : Nat := if i % 2 = 0 then i + 1 else i - 1

/-- The other node of the pair; the node itself, if it has no neighbour. -/
def sibling (l : List α) (i : Nat) : Option α := l[siblingIndex i]?.or l[i]?

theorem stepPair_sibling {l : List α} {i : Nat} {x y : α} (hx : l[i]? = some x)
    (hy : sibling l i = some y) :
    (pairUp l)[i / 2]? = some (stepPair x ⟨y, decide (i % 2 = 1)⟩) := by
  rw [getElem?_pairUp]
  rcases Nat.mod_two_eq_zero_or_one i with heven | hodd
  · have hi : 2 * (i / 2) = i := by omega
    rw [hi, hx]
    rw [sibling, siblingIndex, if_pos heven, hx] at hy
    cases hnext : l[i + 1]? with
    | none =>
        rw [hnext, Option.none_or, Option.some.injEq] at hy
        simp [stepPair, heven, hy]
    | some z =>
        rw [hnext, Option.some_or, Option.some.injEq] at hy
        simp [stepPair, heven, hy]
  · have hi : 2 * (i / 2) + 1 = i := by omega
    have hleft : 2 * (i / 2) = i - 1 := by omega
    have hneighbour : l[i - 1]? = some y := by
      rw [sibling, siblingIndex, if_neg (by omega)] at hy
      cases hprev : l[i - 1]? with
      | none =>
          have hlt := (List.getElem?_eq_some_iff.mp hx).1
          rw [List.getElem?_eq_none_iff] at hprev
          omega
      | some z =>
          rw [hprev, Option.some_or] at hy
          exact hy
    rw [hi, hleft, hneighbour, hx]
    simp [stepPair, hodd]

theorem exists_sibling {l : List α} {i : Nat} {x : α} (hx : l[i]? = some x) :
    ∃ y, sibling l i = some y := by
  rw [sibling, hx]
  cases l[siblingIndex i]? with
  | none => exact ⟨x, rfl⟩
  | some y => exact ⟨y, rfl⟩

/-- The siblings on the way up from a position, one for each of the given levels. -/
def pathOf : List (List α) → Nat → Option (List (Step α))
  | [], _ => some []
  | l :: rest, i =>
      (sibling l i).bind fun y =>
        (pathOf rest (i / 2)).map fun path => ⟨y, decide (i % 2 = 1)⟩ :: path

/-- **The path collected for a leaf arrives at the top**, in as many steps as the tree
is high. -/
theorem climb_pathOf (f : α → α → α) : ∀ (fuel : Nat) (l : List α), l.length ≤ fuel →
    ∀ {i : Nat} {x : α}, l[i]? = some x →
      ∃ path, pathOf (levels f fuel l).dropLast i = some path ∧
        (levels f fuel l).getLast? = some [climb f x path] ∧ path.length = height l
  | 0, l, hlen, i, x, hx => by
      rw [List.eq_nil_of_length_eq_zero (Nat.le_zero.mp hlen)] at hx
      cases hx
  | fuel + 1, l, hlen, i, x, hx => by
      by_cases h1 : 1 < l.length
      · obtain ⟨y, hy⟩ := exists_sibling hx
        have hup : (nextLevel f l)[i / 2]? =
            some (join f (stepPair x ⟨y, decide (i % 2 = 1)⟩)) := by
          rw [getElem?_nextLevel, stepPair_sibling hx hy]
          rfl
        obtain ⟨path, hpath, hlast, hheight⟩ :=
          climb_pathOf f fuel (nextLevel f l) (by rw [length_nextLevel]; omega) hup
        refine ⟨⟨y, decide (i % 2 = 1)⟩ :: path, ?_, ?_, ?_⟩
        · rw [levels, if_pos h1, List.dropLast_cons_of_ne_nil (levels_ne_nil f fuel _), pathOf, hy,
            hpath]
          rfl
        · rw [levels, if_pos h1, List.getLast?_cons, hlast]
          rfl
        · rw [List.length_cons, hheight, height_nextLevel f h1]
      · have hlt := (List.getElem?_eq_some_iff.mp hx).1
        have hone : l.length = 1 := by omega
        obtain ⟨top, rfl⟩ := List.length_eq_one_iff.mp hone
        have hi : i = 0 := by omega
        subst hi
        cases hx
        exact ⟨[], rfl, rfl, (Nat.clog_one_right 2).symm⟩

/-- The turns of the way up from a position. -/
def turns (k i : Nat) : List Bool := (List.range k).map fun m => decide (i / 2 ^ m % 2 = 1)

theorem turns_succ (k i : Nat) : turns (k + 1) i = decide (i % 2 = 1) :: turns k (i / 2) := by
  rw [turns, turns, List.range_succ_eq_map, List.map_cons, List.map_map, Nat.pow_zero, Nat.div_one]
  congr 1
  refine List.map_congr_left fun m _ => ?_
  show decide (i / 2 ^ (m + 1) % 2 = 1) = decide (i / 2 / 2 ^ m % 2 = 1)
  rw [Nat.pow_succ', Nat.div_div_eq_div_mul]

theorem lt_length_level (f : α → α → α) {l : List α} {i : Nat} (hi : i < l.length) (k : Nat) :
    i / 2 ^ k < (level f l k).length := by
  induction k with
  | zero => simpa [level] using hi
  | succ k ih =>
      rw [level_succ, length_nextLevel, Nat.pow_succ, ← Nat.div_div_eq_div_mul]
      omega

/-- Where the way down from position `j` of the level above leads, to the left or to the
right.  Below a node that was combined with itself both ways lead to the same place. -/
def child (l : List α) (j : Nat) (right : Bool) : Nat :=
  if right = true ∧ 2 * j + 1 < l.length then 2 * j + 1 else 2 * j

/-- The position, as many levels below level `k` as there are turns, that the turns lead up
from to position `0` of that level. -/
def start (f : α → α → α) (l : List α) (k : Nat) : List Bool → Nat
  | [] => 0
  | t :: ts => child (level f l (k - ts.length - 1)) (start f l k ts) t

theorem getElem?_child {l : List α} {j : Nat} {x : α} {s : Step α}
    (h : (pairUp l)[j]? = some (stepPair x s)) : l[child l j s.isLeft]? = some x := by
  rw [getElem?_pairUp, Option.map_eq_some_iff] at h
  obtain ⟨a, ha, hpair⟩ := h
  unfold stepPair at hpair
  cases hs : s.isLeft with
  | false =>
      rw [hs] at hpair
      rw [child, if_neg (fun h => Bool.false_ne_true h.1), ha, (Prod.mk.inj hpair).1]
  | true =>
      rw [hs] at hpair
      have hx := (Prod.mk.inj hpair).2
      by_cases hlt : 2 * j + 1 < l.length
      · rw [List.getElem?_eq_getElem hlt, Option.getD_some] at hx
        rw [child, if_pos ⟨rfl, hlt⟩, List.getElem?_eq_getElem hlt, hx]
      · rw [List.getElem?_eq_none (Nat.le_of_not_lt hlt), Option.getD_none] at hx
        rw [child, if_neg (fun h => hlt h.2), ha, hx]

/-- **Where a path starts** is what its turns say: at the node that they lead down to. -/
theorem climb_start {f : α → α → α} {S : Set (α × α)} (hinj : Set.InjOn (join f) S)
    {l : List α} {d : Nat} (htree : ∀ k < d, ∀ p ∈ pairUp (level f l k), p ∈ S)
    (path : List (Step α)) : ∀ {x : α}, path.length ≤ d → (∀ p ∈ pathPairs f x path, p ∈ S) →
      (level f l d)[0]? = some (climb f x path) →
      (level f l (d - path.length))[start f l d (path.map Step.isLeft)]? = some x := by
  induction path with
  | nil =>
      intro x _ _ htop
      exact htop
  | cons s path ih =>
      intro x hd hpath htop
      rw [List.length_cons] at hd
      have hup := ih (x := join f (stepPair x s)) (by omega)
        (fun p hp => hpath p (List.mem_cons_of_mem _ hp)) htop
      obtain ⟨k, hk⟩ : ∃ k, d - path.length = k + 1 := ⟨d - path.length - 1, by omega⟩
      rw [hk, level_succ, getElem?_nextLevel, Option.map_eq_some_iff] at hup
      obtain ⟨p, hp, hjoin⟩ := hup
      -- the pair at the node above is the one the step combines
      have hpair : p = stepPair x s :=
        hinj (htree k (by omega) p (List.mem_of_getElem? hp)) (hpath _ List.mem_cons_self) hjoin
      have hbelow := getElem?_child (hpair ▸ hp)
      rw [List.map_cons, start, List.length_map, List.length_cons, Nat.sub_add_eq, hk]
      exact hbelow

theorem child_half {l : List α} {i : Nat} (hi : i < l.length) :
    child l (i / 2) (decide (i % 2 = 1)) = i := by
  rw [child]
  split
  · next h =>
      have hodd := of_decide_eq_true h.1
      omega
  · next h =>
      rcases Nat.mod_two_eq_zero_or_one i with heven | hodd
      · omega
      · exact absurd ⟨decide_eq_true hodd, by omega⟩ h

theorem start_turns (f : α → α → α) {l : List α} {i d : Nat} (hi : i < l.length)
    (htop : (level f l d).length = 1) : start f l d (turns d i) = i := by
  have hlevels : ∀ m ≤ d, start f l d (turns m (i / 2 ^ (d - m))) = i / 2 ^ (d - m) := by
    intro m
    induction m with
    | zero =>
        intro _
        have hzero := lt_length_level f hi d
        rw [htop, Nat.lt_one_iff] at hzero
        rw [Nat.sub_zero, hzero]
        rfl
    | succ m ih =>
        intro hm
        obtain ⟨k, hk⟩ : ∃ k, d - m = k + 1 := ⟨d - m - 1, by omega⟩
        have hk' : d - (m + 1) = k := by omega
        have hup := ih (by omega)
        rw [hk, Nat.pow_succ, ← Nat.div_div_eq_div_mul] at hup
        rw [hk', turns_succ, start, hup, turns, List.length_map, List.length_range, hk]
        exact child_half (lt_length_level f hi k)
  have hall := hlevels d le_rfl
  rwa [Nat.sub_self, Nat.pow_zero, Nat.div_one] at hall

/-! ## Completed levels

Two levels of different lengths may lead to the same top, because a node without a neighbour
is combined with itself: it might as well have a neighbour like it.  A level is completed by
putting in all that is taken for there: what it leads to, and nothing else, is then told by the
completed level. -/

/-- The nodes of the pairs. -/
def unpair (ps : List (α × α)) : List α := ps.flatMap fun p => [p.1, p.2]

theorem unpair_cons (p : α × α) (ps : List (α × α)) : unpair (p :: ps) = p.1 :: p.2 :: unpair ps :=
  List.flatMap_cons

theorem unpair_inj : ∀ {ps qs : List (α × α)}, unpair ps = unpair qs → ps = qs
  | [], [], _ => rfl
  | [], q :: qs, h => by cases h
  | p :: ps, [], h => by cases h
  | p :: ps, q :: qs, h => by
      rw [unpair_cons, unpair_cons, List.cons.injEq, List.cons.injEq] at h
      obtain ⟨hfst, hsnd, hrest⟩ := h
      rw [Prod.ext hfst hsnd, unpair_inj hrest]

/-- The level, completed for so many folds: a power of two of nodes, where they suffice to
get from it to one node. -/
def complete {α : Type} : Nat → List α → List α
  | 0, l => l
  | k + 1, l => unpair (complete k (pairUp l))

example : complete 2 [1, 2, 3] = [1, 2, 3, 3] := rfl

example : complete 3 [1, 2, 3, 4, 5, 6] = [1, 2, 3, 4, 5, 6, 5, 6] := rfl

theorem pairUp_map {β : Type} (g : α → β) :
    ∀ l : List α, pairUp (l.map g) = (pairUp l).map (Prod.map g g)
  | [] => rfl
  | [_] => rfl
  | x :: y :: rest => by
      rw [List.map_cons, List.map_cons, pairUp, pairUp_map g rest, pairUp, List.map_cons]
      rfl

theorem unpair_map {β : Type} (g : α → β) (ps : List (α × α)) :
    unpair (ps.map (Prod.map g g)) = (unpair ps).map g := by
  induction ps with
  | nil => rfl
  | cons p ps ih =>
      rw [List.map_cons, unpair_cons, unpair_cons, List.map_cons, List.map_cons, ih]
      rfl

theorem complete_map {β : Type} (g : α → β) (k : Nat) (l : List α) :
    complete k (l.map g) = (complete k l).map g := by
  induction k generalizing α β with
  | zero => rfl
  | succ k ih => rw [complete, pairUp_map, ih, unpair_map, complete]

theorem mem_of_mem_complete {k : Nat} {l : List α} {x : α} (h : x ∈ complete k l) : x ∈ l := by
  induction k generalizing α with
  | zero => exact h
  | succ k ih =>
      obtain ⟨p, hp, hx⟩ := List.mem_flatMap.mp h
      obtain ⟨hfst, hsnd⟩ := mem_of_mem_pairUp (ih hp)
      rcases List.mem_cons.mp hx with rfl | hx
      · exact hfst
      · rw [List.mem_singleton.mp hx]
        exact hsnd

/-- **What a level leads to** is told by the completed level. -/
theorem level_eq_iff {f : α → α → α} {S : Set (α × α)} (hinj : Set.InjOn (join f) S) (k : Nat) :
    ∀ {l l' : List α}, (∀ j < k, ∀ p ∈ pairUp (level f l j), p ∈ S) →
      (∀ j < k, ∀ p ∈ pairUp (level f l' j), p ∈ S) →
      (level f l k = level f l' k ↔ complete k l = complete k l') := by
  induction k with
  | zero => exact fun _ _ => Iff.rfl
  | succ k ih =>
      intro l l' hl hl'
      have hup : ∀ {m : List α}, (∀ j < k + 1, ∀ p ∈ pairUp (level f m j), p ∈ S) →
          ∀ j < k, ∀ p ∈ pairUp (level f (nextLevel f m) j), p ∈ S := by
        intro m hm j hj p hp
        rw [level_nextLevel] at hp
        exact hm (j + 1) (Nat.succ_lt_succ hj) p hp
      have hnext : ∀ m : List α,
          complete k (nextLevel f m) = (complete k (pairUp m)).map (join f) :=
        fun m => complete_map (join f) k (pairUp m)
      rw [← level_nextLevel, ← level_nextLevel, ih (hup hl) (hup hl'), hnext, hnext, complete,
        complete]
      constructor
      · intro h
        have hpairs : complete k (pairUp l) = complete k (pairUp l') := by
          refine List.eq_of_map_eq_of_injOn hinj ?_ ?_ h
          · exact fun p hp => hl 0 (Nat.succ_pos k) p (mem_of_mem_complete hp)
          · exact fun p hp => hl' 0 (Nat.succ_pos k) p (mem_of_mem_complete hp)
        rw [hpairs]
      · intro h
        rw [unpair_inj h]

end PairTree
