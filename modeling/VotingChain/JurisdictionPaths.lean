/-
# `VotingChain.JurisdictionPaths` — paths of jurisdictions, written with slashes

The model of `JurisdictionPath` of `storage/src/jurisdiction.rs`: a path is read from text that
is cut at the slashes, with the empty pieces dropped, and written with a slash between its
components.  A path that was read has components that are neither empty nor have a slash, so
writing it and reading it again gives it back.

One path is above another if it is shorter and the other begins with it; the parent is the path
without the last component, and `path_laws` is what holds of these together.
-/
import VotingChain.Lib.Text
import VotingChain.Jurisdiction

namespace VotingChain.JurisdictionTree.Path

/-! ## The functions of the source -/

/-- `parse`: the pieces between the slashes that are not empty. -/
def parse (path : String) : Result Path :=
  let components := ((path.toList.splitOn '/').map String.ofList).filter fun s => !s.isEmpty
  if components.isEmpty then fail (.invalidInput "Empty jurisdiction path") else .ok ⟨components⟩

/-- `to_string`, which is also how a path is displayed. -/
def toString (p : Path) : String := "/".intercalate p.components

def depth (p : Path) : Nat := p.components.length

def parent (p : Path) : Option Path :=
  if p.components.length ≤ 1 then none
  else some ⟨p.components.take (p.components.length - 1)⟩

def child (p : Path) (component : String) : Path := ⟨p.components ++ [component]⟩

def isAncestorOf (p other : Path) : Bool :=
  if p.depth ≥ other.depth then false
  else (p.components.zip other.components).all fun (a, b) => a == b

/-! ## Reading and writing -/

/-- The paths that can be read: there is a component, and none is empty or has a slash. -/
structure WellFormed (p : Path) : Prop where
  ne_nil : p.components ≠ []
  component : ∀ s ∈ p.components, s ≠ "" ∧ '/' ∉ s.toList

theorem parse_eq_error_iff {path : String} :
    (∃ e, parse path = fail e) ↔ ∀ c ∈ path.toList, c = '/' := by
  have hpieces : (((path.toList.splitOn '/').map String.ofList).filter
      fun s => !s.isEmpty).isEmpty = true ↔ ∀ piece ∈ path.toList.splitOn '/', piece = [] := by
    rw [List.isEmpty_iff, List.filter_eq_nil_iff]
    simp
  rw [← Text.forall_splitOn_eq_nil, ← hpieces, parse]
  split
  · next h => exact iff_of_true ⟨_, rfl⟩ h
  · next h => exact iff_of_false (by simp [fail]) h

theorem wellFormed_of_parse {path : String} {p : Path} (h : parse path = .ok p) :
    p.WellFormed := by
  rw [parse] at h
  split at h
  · cases h
  · next hne =>
      cases h
      refine ⟨by simpa using hne, fun s hs => ?_⟩
      obtain ⟨hmem, hs⟩ := List.mem_filter.mp hs
      obtain ⟨piece, hpiece, rfl⟩ := List.mem_map.mp hmem
      refine ⟨by simpa using hs, ?_⟩
      rw [String.toList_ofList]
      exact Text.not_mem_of_mem_splitOn hpiece

theorem splitOn_toString {p : Path} (h : p.WellFormed) :
    (p.toString.toList.splitOn '/').map String.ofList = p.components := by
  have hjoin : p.toString.toList = ['/'].intercalate (p.components.map String.toList) := by
    rw [toString, String.toList_intercalate]
    rfl
  rw [hjoin, List.splitOn_intercalate, List.map_map]
  · simp [Function.comp_def]
  · intro piece hpiece
    obtain ⟨s, hs, rfl⟩ := List.mem_map.mp hpiece
    exact (h.component s hs).2
  · simpa using h.ne_nil

theorem parse_toString {p : Path} (h : p.WellFormed) : parse p.toString = .ok p := by
  have hfilter : p.components.filter (fun s => !s.isEmpty) = p.components := by
    refine List.filter_eq_self.mpr fun s hs => ?_
    simpa using (h.component s hs).1
  simp [parse, splitOn_toString h, hfilter, h.ne_nil]

/-! ## Above and below -/

theorem parent_child {p : Path} (component : String) (h : p.components ≠ []) :
    (p.child component).parent = some p := by
  have hlen := List.length_pos_iff.mpr h
  rw [parent, child, List.length_append, List.length_singleton, if_neg (by omega)]
  simp

theorem all_zip_iff {xs ys : List String} (h : xs.length ≤ ys.length) :
    ((xs.zip ys).all fun (a, b) => a == b) = true ↔ xs <+: ys := by
  induction xs generalizing ys with
  | nil => simp
  | cons x xs ih =>
      cases ys with
      | nil => simp at h
      | cons y ys =>
          have hlen : xs.length ≤ ys.length := by simpa using h
          rw [List.zip_cons_cons, List.all_cons, Bool.and_eq_true, ih hlen,
            List.cons_prefix_cons, beq_iff_eq]

theorem isAncestorOf_iff {p other : Path} :
    p.isAncestorOf other = true ↔
      p.components <+: other.components ∧ p.components ≠ other.components := by
  rw [isAncestorOf]
  split
  · next hge =>
      refine iff_of_false (by simp) ?_
      rintro ⟨hbegins, hne⟩
      exact hne (hbegins.eq_of_length_le hge)
  · next hlt =>
      have hlt' : p.components.length < other.components.length := Nat.lt_of_not_le hlt
      rw [all_zip_iff (Nat.le_of_lt hlt')]
      refine ⟨fun hbegins => ⟨hbegins, fun heq => ?_⟩, And.left⟩
      rw [heq] at hlt'
      exact Nat.lt_irrefl _ hlt'

theorem isAncestorOf_self (p : Path) : p.isAncestorOf p = false := by
  rw [isAncestorOf, if_pos (Nat.le_refl _)]

theorem isAncestorOf_trans {p q r : Path} (hpq : p.isAncestorOf q = true)
    (hqr : q.isAncestorOf r = true) : p.isAncestorOf r = true := by
  obtain ⟨hpq, hne⟩ := isAncestorOf_iff.mp hpq
  obtain ⟨hqr, -⟩ := isAncestorOf_iff.mp hqr
  refine isAncestorOf_iff.mpr ⟨hpq.trans hqr, fun heq => hne ?_⟩
  rw [← heq] at hqr
  exact hpq.eq_of_length_le hqr.length_le

theorem isAncestorOf_and_depth_iff {p q : Path} {n : Nat} (hn : n < p.depth) :
    (q.isAncestorOf p = true ∧ q.depth = n) ↔ q = ⟨p.components.take n⟩ := by
  have hlen : (p.components.take n).length = n := by
    rw [List.length_take]
    exact Nat.min_eq_left (Nat.le_of_lt hn)
  constructor
  · rintro ⟨habove, rfl⟩
    have htake := List.prefix_iff_eq_take.mp (isAncestorOf_iff.mp habove).1
    cases q
    exact congrArg Path.mk htake
  · rintro rfl
    refine ⟨isAncestorOf_iff.mpr ⟨List.take_prefix _ _, fun heq => ?_⟩, hlen⟩
    have hwhole : (p.components.take n).length = p.components.length :=
      congrArg List.length heq
    rw [hlen] at hwhole
    exact Nat.ne_of_lt hn hwhole

theorem parent_of_two_le {p : Path} (h : 2 ≤ p.depth) :
    p.parent = some ⟨p.components.take (p.depth - 1)⟩ := by
  rw [depth] at h
  rw [parent, if_neg (by omega)]
  rfl

/-- **The algebra of paths.**  Text is refused if and only if it has nothing but slashes; a path
that was read is read again from what it is written as; the parent of a child is the path; to be
above is to be a beginning and not the whole, which holds of no path and itself and is
transitive; and the parent of a path of two components or more is the only path above it that is
one shorter. -/
theorem path_laws :
    (∀ s, (∃ e, parse s = fail e) ↔ ∀ c ∈ s.toList, c = '/') ∧
    (∀ s p, parse s = .ok p → parse p.toString = .ok p) ∧
    (∀ (p : Path) (c : String), 1 ≤ p.components.length → (p.child c).parent = some p) ∧
    (∀ p q : Path, p.isAncestorOf q = true ↔
      p.components <+: q.components ∧ p.components ≠ q.components) ∧
    (∀ p : Path, p.isAncestorOf p = false) ∧
    (∀ p q r : Path, p.isAncestorOf q = true → q.isAncestorOf r = true → p.isAncestorOf r = true) ∧
    ∀ p : Path, 2 ≤ p.depth → ∃ q, p.parent = some q ∧
      ∀ q' : Path, (q'.isAncestorOf p = true ∧ q'.depth = p.depth - 1) ↔ q' = q := by
  refine ⟨fun s => parse_eq_error_iff, ?_, ?_, fun p q => isAncestorOf_iff, isAncestorOf_self,
    fun p q r => isAncestorOf_trans, ?_⟩
  · intro s p h
    exact parse_toString (wellFormed_of_parse h)
  · intro p c h
    exact parent_child c (List.length_pos_iff.mp h)
  · intro p h
    refine ⟨_, parent_of_two_le h, fun q' => ?_⟩
    exact isAncestorOf_and_depth_iff (Nat.sub_lt (Nat.lt_of_lt_of_le Nat.two_pos h) Nat.one_pos)

example : parse "US//California/" = .ok ⟨["US", "California"]⟩ := by decide

end VotingChain.JurisdictionTree.Path
