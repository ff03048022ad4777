/-
# `VotingChain.Descendants` — everything below a jurisdiction

The model of `get_children`, `get_all_descendants` and `get_all_locations` of
`storage/src/jurisdiction.rs`.  A jurisdiction is added with any string for its parent: an id
that comes later, that never comes, or its own.  The descendants are found by a walk that keeps
the ids still to be looked at on a stack, and not those it has seen.

Where no descendant is below itself, the walk ends, with every descendant once; and where one
is, the walk goes round and never ends (`listed_iff`).
-/
import VotingChain.Lib.Maps
import VotingChain.Lib.Worklist
import VotingChain.Jurisdiction

namespace VotingChain

/-- The voting locations of a jurisdiction, and its metadata. -/
structure JurisdictionDetails (ℓ μ : Type) where
  votingLocations : List ℓ
  metadata : μ
  deriving DecidableEq

namespace JurisdictionTree
variable {δ ℓ μ : Type}

/-! ## The functions of the source -/

/-- `get_children`, in the order the map lists its values. -/
def getChildren (order : MapOrder String (Jurisdiction δ)) (t : JurisdictionTree δ)
    (parentId : String) : List (Jurisdiction δ) :=
  (order.values t.jurisdictions).filter fun j => j.parentId = some parentId

/-- `get_all_descendants`: the loop over the queue, for so many rounds. -/
def getAllDescendants (order : MapOrder String (Jurisdiction δ)) (t : JurisdictionTree δ)
    (rounds : Nat) (parentId : String) : Option (List (Jurisdiction δ)) :=
  Worklist.run (t.getChildren order) Jurisdiction.id rounds [parentId] []

/-- `get_all_locations`: those of the jurisdiction itself, and then those of its descendants. -/
def getAllLocations (order : MapOrder String (Jurisdiction (JurisdictionDetails ℓ μ)))
    (t : JurisdictionTree (JurisdictionDetails ℓ μ)) (rounds : Nat) (jurisdictionId : String) :
    Option (List ℓ) :=
  let own := match t.getJurisdiction jurisdictionId with
    | some jurisdiction => jurisdiction.details.votingLocations
    | none => []
  (t.getAllDescendants order rounds jurisdictionId).map fun descendants =>
    own ++ descendants.flatMap fun descendant => descendant.details.votingLocations

/-- The tree after these calls of `add_jurisdiction`, those that fail among them. -/
def addEach (js : List (Jurisdiction δ)) (t : JurisdictionTree δ) : JurisdictionTree δ :=
  js.foldl (fun t j => (addJurisdiction j).next t) t

/-! ## What is to be shown -/

/-- `j` is reached from the id through one or more parent links. -/
inductive DescendantOf (t : JurisdictionTree δ) (id : String) : Jurisdiction δ → Prop
  | child {j : Jurisdiction δ} : t.getJurisdiction j.id = some j → j.parentId = some id →
      DescendantOf t id j
  | further {parent j : Jurisdiction δ} : DescendantOf t id parent →
      t.getJurisdiction j.id = some j → j.parentId = some parent.id → DescendantOf t id j

/-- The walk ends, with every descendant once. -/
def DescendantsListed (order : MapOrder String (Jurisdiction δ)) (t : JurisdictionTree δ)
    (id : String) : Prop :=
  ∃ rounds descendants, t.getAllDescendants order rounds id = some descendants ∧
    descendants.Nodup ∧ ∀ j, j ∈ descendants ↔ t.DescendantOf id j

/-- The locations are those of the jurisdiction and of its descendants, each of which gives its
own once. -/
def LocationsListed (order : MapOrder String (Jurisdiction (JurisdictionDetails ℓ μ)))
    (t : JurisdictionTree (JurisdictionDetails ℓ μ)) (id : String) : Prop :=
  ∃ rounds locations, t.getAllLocations order rounds id = some locations ∧
    ∃ holders : List (Jurisdiction (JurisdictionDetails ℓ μ)), holders.Nodup ∧
      (∀ j, j ∈ holders ↔ t.getJurisdiction id = some j ∨ t.DescendantOf id j) ∧
      locations = holders.flatMap fun j => j.details.votingLocations

/-- Among the descendants there is one that is its own. -/
def CircleBelow (t : JurisdictionTree δ) (id : String) : Prop :=
  ∃ j, t.DescendantOf id j ∧ t.DescendantOf j.id j

/-! ## The ids of the tree -/

/-- Every jurisdiction is kept by its own id. -/
def Keyed (t : JurisdictionTree δ) : Prop := ∀ id j, t.getJurisdiction id = some j → j.id = id

theorem keyed_new : Keyed (new : JurisdictionTree δ) := by
  intro id j h
  simp [new, getJurisdiction] at h

theorem Keyed.next_addJurisdiction {t : JurisdictionTree δ} (h : t.Keyed) (j : Jurisdiction δ) :
    ((addJurisdiction j).next t).Keyed := by
  cases hold : t.getJurisdiction j.id with
  | none =>
      rw [Exec.next_of_ok (exec_addJurisdiction_of_new hold)]
      exact Finmap.forall_lookup_insert h rfl
  | some old =>
      rw [Exec.next_of_unchanged (exec_addJurisdiction_of_old hold)]
      exact h

theorem Keyed.addEach {t : JurisdictionTree δ} (h : t.Keyed) (js : List (Jurisdiction δ)) :
    (addEach js t).Keyed := by
  induction js generalizing t with
  | nil => exact h
  | cons j js ih => exact ih (h.next_addJurisdiction j)

section Children
variable {order : MapOrder String (Jurisdiction δ)} {t : JurisdictionTree δ}

theorem mem_getChildren (h : t.Keyed) {id : String} {j : Jurisdiction δ} :
    j ∈ t.getChildren order id ↔ t.getJurisdiction j.id = some j ∧ j.parentId = some id := by
  rw [getChildren, List.mem_filter, MapOrder.mem_values, decide_eq_true_iff]
  constructor
  · rintro ⟨⟨k, hk⟩, hparent⟩
    obtain rfl := h k j hk
    exact ⟨hk, hparent⟩
  · rintro ⟨hget, hparent⟩
    exact ⟨⟨j.id, hget⟩, hparent⟩

theorem map_id_values (h : t.Keyed) :
    (order.values t.jurisdictions).map Jurisdiction.id = order.keys t.jurisdictions := by
  rw [MapOrder.values, MapOrder.keys, List.map_map]
  refine List.map_congr_left ?_
  rintro ⟨k, j⟩ hmem
  rw [← Multiset.mem_coe, order.perm, ← Finmap.mem_lookup_iff] at hmem
  exact h k j hmem

theorem forest_getChildren (h : t.Keyed) :
    Worklist.Forest (t.getChildren order) Jurisdiction.id where
  nodup a := by
    have hall : ((order.values t.jurisdictions).map Jurisdiction.id).Nodup := by
      rw [map_id_values h]
      exact order.nodup_keys t.jurisdictions
    exact hall.sublist (List.filter_sublist.map _)
  parent a a' b := by
    rintro ⟨j, hj, hid⟩ ⟨j', hj', hid'⟩
    obtain ⟨hget, hparent⟩ := (mem_getChildren h).mp hj
    obtain ⟨hget', hparent'⟩ := (mem_getChildren h).mp hj'
    rw [hid] at hget
    rw [hid', hget] at hget'
    cases hget'
    exact Option.some.inj (hparent.symm.trans hparent')

/-! ## The walk and the parent links -/

variable (order) in
theorem descendantOf_iff (h : t.Keyed) {id : String} {j : Jurisdiction δ} :
    t.DescendantOf id j ↔ ∃ a, Relation.ReflTransGen
      (Worklist.Down (t.getChildren order) Jurisdiction.id) id a ∧ j ∈ t.getChildren order a := by
  constructor
  · intro hj
    induction hj with
    | child hget hparent => exact ⟨id, .refl, (mem_getChildren h).mpr ⟨hget, hparent⟩⟩
    | further _ hget hparent ih =>
        obtain ⟨a, ha, hmem⟩ := ih
        exact ⟨_, ha.tail ⟨_, hmem, rfl⟩, (mem_getChildren h).mpr ⟨hget, hparent⟩⟩
  · rintro ⟨a, ha, hj⟩
    induction ha generalizing j with
    | refl =>
        obtain ⟨hget, hparent⟩ := (mem_getChildren h).mp hj
        exact .child hget hparent
    | tail _ hdown ih =>
        obtain ⟨parent, hparent, rfl⟩ := hdown
        obtain ⟨hget, hup⟩ := (mem_getChildren h).mp hj
        exact .further (ih hparent) hget hup

theorem finite_reached (h : t.Keyed) (id : String) :
    {a | Relation.ReflTransGen
      (Worklist.Down (t.getChildren order) Jurisdiction.id) id a}.Finite := by
  refine (insert id t.jurisdictions.keys).finite_toSet.subset fun a ha => ?_
  rw [Finset.mem_coe, Finset.mem_insert]
  rcases Relation.ReflTransGen.cases_tail ha with rfl | ⟨_, _, j, hj, rfl⟩
  · exact Or.inl rfl
  · have hget := ((mem_getChildren h).mp hj).1
    exact Or.inr (Finmap.mem_keys.mpr (Finmap.mem_of_lookup_eq_some hget))

variable (order) in
theorem ends_iff_not_circleBelow (h : t.Keyed) (id : String) :
    Worklist.Ends (t.getChildren order) Jurisdiction.id [id] ↔ ¬t.CircleBelow id := by
  rw [Worklist.ends_iff, Worklist.acc_iff (finite_reached h id)]
  constructor
  · rintro hno ⟨j, hj, hself⟩
    obtain ⟨a, ha, hchild⟩ := (descendantOf_iff order h).mp hj
    obtain ⟨b, hb, hchild'⟩ := (descendantOf_iff order h).mp hself
    exact hno j.id (ha.tail ⟨j, hchild, rfl⟩) (Relation.TransGen.tail' hb ⟨j, hchild', rfl⟩)
  · intro hno a ha hcircle
    obtain ⟨b, hb, j, hj, rfl⟩ := Relation.TransGen.tail'_iff.mp hcircle
    exact hno ⟨j, (descendantOf_iff order h).mpr ⟨b, ha.trans hb, hj⟩,
      (descendantOf_iff order h).mpr ⟨b, hb, hj⟩⟩

theorem getAllDescendants_unique {id : String} {rounds rounds' : Nat}
    {descendants descendants' : List (Jurisdiction δ)}
    (h : t.getAllDescendants order rounds id = some descendants)
    (h' : t.getAllDescendants order rounds' id = some descendants') :
    descendants = descendants' :=
  Worklist.run_unique h h'

theorem getAllDescendants_spec (h : t.Keyed) {id : String} {rounds : Nat}
    {descendants : List (Jurisdiction δ)}
    (hwalk : t.getAllDescendants order rounds id = some descendants) :
    (id :: descendants.map Jurisdiction.id).Nodup ∧
    ∀ j, j ∈ descendants ↔ t.DescendantOf id j := by
  obtain ⟨hnodup, hmem⟩ := Worklist.run_spec (forest_getChildren h) hwalk
  exact ⟨hnodup, fun j => (hmem j).trans (descendantOf_iff order h).symm⟩

theorem descendantsListed_of_walk (h : t.Keyed) {id : String} {rounds : Nat}
    {descendants : List (Jurisdiction δ)}
    (hwalk : t.getAllDescendants order rounds id = some descendants) :
    t.DescendantsListed order id := by
  obtain ⟨hnodup, hmem⟩ := getAllDescendants_spec h hwalk
  exact ⟨rounds, descendants, hwalk, (List.nodup_cons.mp hnodup).2.of_map, hmem⟩

theorem getAllDescendants_eq_none (h : t.Keyed) {id : String} (hcircle : t.CircleBelow id)
    (rounds : Nat) : t.getAllDescendants order rounds id = none := by
  cases hwalk : t.getAllDescendants order rounds id with
  | none => rfl
  | some descendants =>
      exact absurd hcircle ((ends_iff_not_circleBelow order h id).mp ⟨rounds, descendants, hwalk⟩)

end Children

theorem locationsListed_of_walk
    {order : MapOrder String (Jurisdiction (JurisdictionDetails ℓ μ))}
    {t : JurisdictionTree (JurisdictionDetails ℓ μ)} (h : t.Keyed) {id : String} {rounds : Nat}
    {descendants : List (Jurisdiction (JurisdictionDetails ℓ μ))}
    (hwalk : t.getAllDescendants order rounds id = some descendants) :
    t.LocationsListed order id := by
  obtain ⟨hnodup, hmem⟩ := getAllDescendants_spec h hwalk
  obtain ⟨hfirst, hrest⟩ := List.nodup_cons.mp hnodup
  cases hget : t.getJurisdiction id with
  | none =>
      have hlocations : t.getAllLocations order rounds id =
          some (descendants.flatMap fun j => j.details.votingLocations) := by
        simp [getAllLocations, hget, hwalk]
      refine ⟨rounds, _, hlocations, descendants, hrest.of_map, fun j => ?_, rfl⟩
      simp [hget, hmem]
  | some own =>
      have hlocations : t.getAllLocations order rounds id =
          some ((own :: descendants).flatMap fun j => j.details.votingLocations) := by
        simp [getAllLocations, hget, hwalk]
      have hnot : own ∉ descendants := by
        intro hown
        refine hfirst ?_
        rw [← h id own hget]
        exact List.mem_map_of_mem hown
      refine ⟨rounds, _, hlocations, own :: descendants,
        List.nodup_cons.mpr ⟨hnot, hrest.of_map⟩, fun j => ?_, rfl⟩
      simp [hget, hmem, eq_comm]

/-- **Descendants.**  Jurisdictions are added to an empty tree, with any parents and in any
order, and some of the calls may fail.  The walk from an id ends, with every descendant once, and
the locations are those of the jurisdiction and its descendants, each giving its own once, if and
only if no descendant is its own descendant. -/
theorem listed_iff (order : MapOrder String (Jurisdiction (JurisdictionDetails ℓ μ)))
    (js : List (Jurisdiction (JurisdictionDetails ℓ μ))) (id : String) :
    ((addEach js new).DescendantsListed order id ∧ (addEach js new).LocationsListed order id) ↔
      ¬(addEach js new).CircleBelow id := by
  have hkeyed : (addEach js new : JurisdictionTree (JurisdictionDetails ℓ μ)).Keyed :=
    keyed_new.addEach js
  rw [← ends_iff_not_circleBelow order hkeyed id]
  constructor
  · rintro ⟨⟨rounds, descendants, hwalk, -⟩, -⟩
    exact ⟨rounds, descendants, hwalk⟩
  · rintro ⟨rounds, descendants, hwalk⟩
    exact ⟨descendantsListed_of_walk hkeyed hwalk, locationsListed_of_walk hkeyed hwalk⟩

/-! ## Two jurisdictions, each the parent of the other -/

def usAndCa : List (Jurisdiction (JurisdictionDetails String Unit)) :=
  [(Jurisdiction.new "US" "United States" .federal ⟨[], ()⟩).withParent "CA",
    (Jurisdiction.new "CA" "California" .state ⟨["City Hall"], ()⟩).withParent "US"]

theorem circleBelow_usAndCa : (addEach usAndCa new).CircleBelow "US" := by
  have hca : (addEach usAndCa new).DescendantOf "US" usAndCa[1] := .child rfl rfl
  have hus : (addEach usAndCa new).DescendantOf "US" usAndCa[0] := .further hca rfl rfl
  exact ⟨usAndCa[0], hus, hus⟩

/-- Both calls succeed, and then the walk from either of the two never ends. -/
theorem usAndCa_not_listed :
    (addAll usAndCa).exec new = (.ok (), addEach usAndCa new) ∧
    ¬∃ order rounds descendants,
      (addEach usAndCa new).getAllDescendants order rounds "US" = some descendants := by
  refine ⟨rfl, ?_⟩
  rintro ⟨order, rounds, descendants, hwalk⟩
  rw [getAllDescendants_eq_none (keyed_new.addEach usAndCa) circleBelow_usAndCa rounds] at hwalk
  cases hwalk

end JurisdictionTree

end VotingChain
