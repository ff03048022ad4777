/-
# `VotingChain.Jurisdiction` — the tree of jurisdictions and its index of paths

The model of `JurisdictionTree` of `storage/src/jurisdiction.rs`.  A jurisdiction names its
parent; the tree keeps the jurisdictions by their ids, and an index of them by their paths,
which are the ids from the root ancestor down.

The path of a new jurisdiction is found by a walk through the tree, from its own id up.  But
the jurisdiction is not in the tree yet when the walk is made, so the walk ends where it
starts, and the path is the id alone (`buildPath_of_new`).  The index is right for the roots,
and for no other jurisdiction (`pathIndexCorrect_iff`).
-/
import VotingChain.Lib.Maps
import VotingChain.Common

namespace VotingChain

/-- Jurisdiction hierarchy level. -/
inductive JurisdictionLevel where
  | federal
  | state
  | county
  | city
  | tribal
  | precinct
  | pollingPlace
  deriving DecidableEq

/-- Jurisdiction identifier and metadata.  `details` are the voting locations and the
metadata, which no function here looks into. -/
structure Jurisdiction (δ : Type) where
  /-- Unique identifier (e.g., "US", "CA", "CA-LA", "CA-LA-001"). -/
  id : String
  name : String
  level : JurisdictionLevel
  parentId : Option String
  fipsCode : Option String
  stateCode : Option String
  countyCode : Option String
  precinctNumber : Option String
  details : δ
  deriving DecidableEq

/-- `JurisdictionPath`, for hierarchical queries.  How much memory the ids take is of no matter
here, as it is for the records that are stored. -/
structure JurisdictionTree.Path where
  components : List String
  deriving DecidableEq

/-- Jurisdiction tree for managing hierarchy. -/
structure JurisdictionTree (δ : Type) where
  jurisdictions : Finmap fun _ : String => Jurisdiction δ
  pathIndex : Finmap fun _ : JurisdictionTree.Path => String

/-- `Jurisdiction::new`, with the details of a new one. -/
def Jurisdiction.new {δ : Type} (id name : String) (level : JurisdictionLevel) (details : δ) :
    Jurisdiction δ :=
  ⟨id, name, level, none, none, none, none, none, details⟩

def Jurisdiction.withParent {δ : Type} (j : Jurisdiction δ) (parentId : String) : Jurisdiction δ :=
  { j with parentId := some parentId }

namespace JurisdictionTree
variable {δ : Type}

def new : JurisdictionTree δ := ⟨∅, ∅⟩

def getJurisdiction (t : JurisdictionTree δ) (id : String) : Option (Jurisdiction δ) :=
  t.jurisdictions.lookup id

def getByPath (t : JurisdictionTree δ) (path : Path) : Option (Jurisdiction δ) :=
  (t.pathIndex.lookup path).bind t.getJurisdiction

/-- The walk of `build_path`, for so many rounds. -/
def walkUp (t : JurisdictionTree δ) : Nat → Option String → List String → Option (List String)
  | _, none, components => some components
  | 0, some _, _ => none
  | rounds + 1, some id, components =>
      walkUp t rounds ((t.getJurisdiction id).bind Jurisdiction.parentId) (id :: components)

/-- A walk with more rounds than there are jurisdictions, and one for the id it starts from,
runs in a circle and never ends; there is no state to go on with, as after a panic. -/
def buildPath (t : JurisdictionTree δ) (j : Jurisdiction δ) : Result Path :=
  match walkUp t (t.jurisdictions.keys.card + 1) (some j.id) [] with
  | some components => .ok ⟨components⟩
  | none => .error .panicked

def addJurisdiction (j : Jurisdiction δ) : Exec (JurisdictionTree δ) Unit := do
  let t ← get
  Exec.lift (ensure (t.getJurisdiction j.id).isNone
    (.invalidInput "Jurisdiction already exists"))
  let path ← Exec.lift (t.buildPath j)
  modify fun t => { t with pathIndex := t.pathIndex.insert path j.id }
  modify fun t => { t with jurisdictions := t.jurisdictions.insert j.id j }

/-- One call of `add_jurisdiction` after the other. -/
def addAll : List (Jurisdiction δ) → Exec (JurisdictionTree δ) Unit
  | [] => pure ()
  | j :: js => do
      addJurisdiction j
      addAll js

/-! ## What is to be shown -/

/-- The path is made of the ids from the root ancestor of the jurisdiction down to it. -/
inductive PathTo (t : JurisdictionTree δ) : List String → Jurisdiction δ → Prop
  | root {j : Jurisdiction δ} : t.getJurisdiction j.id = some j → j.parentId = none →
      PathTo t [j.id] j
  | child {path : List String} {parent j : Jurisdiction δ} : PathTo t path parent →
      t.getJurisdiction j.id = some j → j.parentId = some parent.id → PathTo t (path ++ [j.id]) j

/-- Every jurisdiction is found by its path, and nothing by any other path. -/
def PathIndexCorrect (t : JurisdictionTree δ) : Prop :=
  ∀ path j, t.getByPath ⟨path⟩ = some j ↔ PathTo t path j

/-- Every jurisdiction with a parent comes after it. -/
def ParentsFirst (js : List (Jurisdiction δ)) : Prop :=
  ∀ before j after, js = before ++ j :: after →
    ∀ id, j.parentId = some id → ∃ parent ∈ before, parent.id = id

/-! ## One jurisdiction -/

theorem buildPath_of_new {t : JurisdictionTree δ} {j : Jurisdiction δ}
    (hnew : t.getJurisdiction j.id = none) : t.buildPath j = .ok ⟨[j.id]⟩ := by
  have hwalk : walkUp t (t.jurisdictions.keys.card + 1) (some j.id) [] = some [j.id] := by
    rw [walkUp, hnew, Option.bind_none]
    cases t.jurisdictions.keys.card <;> rfl
  rw [buildPath, hwalk]

/-- The tree after a jurisdiction was added. -/
def added (t : JurisdictionTree δ) (j : Jurisdiction δ) : JurisdictionTree δ where
  jurisdictions := t.jurisdictions.insert j.id j
  pathIndex := t.pathIndex.insert ⟨[j.id]⟩ j.id

theorem exec_addJurisdiction_of_new {t : JurisdictionTree δ} {j : Jurisdiction δ}
    (hnew : t.getJurisdiction j.id = none) :
    (addJurisdiction j).exec t = (.ok (), t.added j) := by
  have hnone : (t.getJurisdiction j.id).isNone = true := by
    rw [hnew]
    rfl
  rw [addJurisdiction, Exec.exec_get_bind, Exec.exec_ensure_bind hnone, buildPath_of_new hnew,
    Exec.exec_lift_ok_bind, Exec.exec_modify_bind]
  rfl

theorem exec_addJurisdiction_of_old {t : JurisdictionTree δ} {j old : Jurisdiction δ}
    (hold : t.getJurisdiction j.id = some old) :
    (addJurisdiction j).exec t = (fail (.invalidInput "Jurisdiction already exists"), t) := by
  rw [addJurisdiction, Exec.exec_get_bind, hold]
  rfl

theorem exec_addJurisdiction_eq_ok {t t' : JurisdictionTree δ} {j : Jurisdiction δ}
    (h : (addJurisdiction j).exec t = (.ok (), t')) :
    t.getJurisdiction j.id = none ∧ t' = t.added j := by
  cases hold : t.getJurisdiction j.id with
  | none =>
      rw [exec_addJurisdiction_of_new hold] at h
      exact ⟨rfl, (congrArg Prod.snd h).symm⟩
  | some old =>
      rw [exec_addJurisdiction_of_old hold] at h
      cases h

/-! ## A sequence of them -/

/-- The tree holds these jurisdictions, and its index has the id of each as its path. -/
structure Holds (t : JurisdictionTree δ) (js : List (Jurisdiction δ)) : Prop where
  jurisdiction : ∀ id j, t.getJurisdiction id = some j ↔ j ∈ js ∧ j.id = id
  index : ∀ path id, t.pathIndex.lookup path = some id ↔ ∃ j ∈ js, j.id = id ∧ path = ⟨[id]⟩

theorem holds_new : Holds (new : JurisdictionTree δ) [] where
  jurisdiction id j := by simp [new, getJurisdiction]
  index path id := by simp [new]

theorem Holds.added {t : JurisdictionTree δ} {js : List (Jurisdiction δ)} (h : t.Holds js)
    {j : Jurisdiction δ} (hnew : t.getJurisdiction j.id = none) :
    (t.added j).Holds (js ++ [j]) where
  jurisdiction id j' := by
    rw [List.mem_append, List.mem_singleton]
    by_cases hid : id = j.id
    · subst hid
      rw [getJurisdiction, JurisdictionTree.added, Finmap.lookup_insert, Option.some.injEq]
      constructor
      · rintro rfl
        exact ⟨Or.inr rfl, rfl⟩
      · rintro ⟨hold | rfl, hid⟩
        · rw [(h.jurisdiction j.id j').mpr ⟨hold, hid⟩] at hnew
          cases hnew
        · rfl
    · rw [getJurisdiction, JurisdictionTree.added, Finmap.lookup_insert_of_ne _ hid,
        ← getJurisdiction, h.jurisdiction]
      constructor
      · exact fun ⟨hold, hid'⟩ => ⟨Or.inl hold, hid'⟩
      · rintro ⟨hold | rfl, hid'⟩
        · exact ⟨hold, hid'⟩
        · exact absurd hid'.symm hid
  index path id := by
    by_cases hpath : path = ⟨[j.id]⟩
    · subst hpath
      rw [JurisdictionTree.added, Finmap.lookup_insert, Option.some.injEq]
      constructor
      · rintro rfl
        exact ⟨j, List.mem_append_right _ List.mem_cons_self, rfl, rfl⟩
      · rintro ⟨-, -, -, heq⟩
        cases heq
        rfl
    · rw [JurisdictionTree.added, Finmap.lookup_insert_of_ne _ hpath, h.index]
      constructor
      · exact fun ⟨j', hj', hrest⟩ => ⟨j', List.mem_append_left _ hj', hrest⟩
      · rintro ⟨j', hj', rfl, rfl⟩
        rcases List.mem_append.mp hj' with hold | hlast
        · exact ⟨j', hold, rfl, rfl⟩
        · rw [List.mem_singleton.mp hlast] at hpath
          exact absurd rfl hpath

theorem holds_addAll {t t' : JurisdictionTree δ} {before js : List (Jurisdiction δ)}
    (h : t.Holds before) (hadd : (addAll js).exec t = (.ok (), t')) : t'.Holds (before ++ js) := by
  induction js generalizing t before with
  | nil =>
      cases hadd
      rwa [List.append_nil]
  | cons j js ih =>
      obtain ⟨⟨⟩, u, hone, hrest⟩ := Exec.exec_bind_eq_ok.mp hadd
      obtain ⟨hnew, rfl⟩ := exec_addJurisdiction_eq_ok hone
      rw [List.append_cons]
      exact ih (h.added hnew) hrest

/-- What is found by a path: one of the jurisdictions, by its id. -/
theorem Holds.getByPath {t : JurisdictionTree δ} {js : List (Jurisdiction δ)} (h : t.Holds js)
    (path : List String) (j : Jurisdiction δ) :
    t.getByPath ⟨path⟩ = some j ↔ j ∈ js ∧ path = [j.id] := by
  rw [JurisdictionTree.getByPath, Option.bind_eq_some_iff]
  constructor
  · rintro ⟨id, hindex, hget⟩
    obtain ⟨-, -, -, heq⟩ := (h.index ⟨path⟩ id).mp hindex
    obtain ⟨hj, rfl⟩ := (h.jurisdiction id j).mp hget
    cases heq
    exact ⟨hj, rfl⟩
  · rintro ⟨hj, rfl⟩
    exact ⟨j.id, (h.index _ j.id).mpr ⟨j, hj, rfl, rfl⟩, (h.jurisdiction j.id j).mpr ⟨hj, rfl⟩⟩

/-! ## Paths -/

theorem PathTo.get {t : JurisdictionTree δ} {path : List String} {j : Jurisdiction δ}
    (h : PathTo t path j) : t.getJurisdiction j.id = some j := by
  cases h with
  | root hget _ => exact hget
  | child _ hget _ => exact hget

theorem PathTo.ne_nil {t : JurisdictionTree δ} {path : List String} {j : Jurisdiction δ}
    (h : PathTo t path j) : path ≠ [] := by
  cases h with
  | root _ _ => exact List.cons_ne_nil _ _
  | child _ _ _ => exact List.append_ne_nil_of_right_ne_nil _ (List.cons_ne_nil _ _)

theorem parentId_of_pathTo_single {t : JurisdictionTree δ} {id : String} {j : Jurisdiction δ}
    (h : PathTo t [id] j) : j.parentId = none := by
  generalize hpath : [id] = path at h
  cases h with
  | root _ hroot => exact hroot
  | child hparent _ _ =>
      have hlen := congrArg List.length hpath
      have hpos := List.length_pos_iff.mpr hparent.ne_nil
      rw [List.length_append, List.length_singleton, List.length_singleton] at hlen
      omega

theorem PathTo.unique {t : JurisdictionTree δ} {path path' : List String} {j : Jurisdiction δ}
    (h : PathTo t path j) (h' : PathTo t path' j) : path = path' := by
  induction h generalizing path' with
  | root _ hroot =>
      cases h' with
      | root _ _ => rfl
      | child _ _ hparent =>
          rw [hroot] at hparent
          cases hparent
  | child hup _ hparent ih =>
      cases h' with
      | root _ hroot =>
          rw [hroot] at hparent
          cases hparent
      | child hup' _ hparent' =>
          have hid := Option.some.inj (hparent.symm.trans hparent')
          have hsame := hup.get
          rw [hid, hup'.get] at hsame
          cases hsame
          rw [ih hup']

theorem exists_pathTo {t : JurisdictionTree δ} {js : List (Jurisdiction δ)}
    (hget : ∀ j ∈ js, t.getJurisdiction j.id = some j) (hfirst : ParentsFirst js) :
    ∀ j ∈ js, ∃ path, PathTo t path j := by
  induction js using List.reverseRecOn with
  | nil => exact fun j hj => absurd hj List.not_mem_nil
  | append_singleton js last ih =>
      have hbefore : ParentsFirst js := by
        intro before j after heq
        refine hfirst before j (after ++ [last]) ?_
        rw [heq, List.append_assoc, List.cons_append]
      have hpaths := ih (fun j hj => hget j (List.mem_append_left _ hj)) hbefore
      intro j hj
      rcases List.mem_append.mp hj with hold | hlast
      · exact hpaths j hold
      · obtain rfl := List.mem_singleton.mp hlast
        cases hparent : j.parentId with
        | none => exact ⟨_, .root (hget j hj) hparent⟩
        | some id =>
            obtain ⟨parent, hmem, rfl⟩ := hfirst js j [] rfl id hparent
            obtain ⟨path, hpath⟩ := hpaths parent hmem
            exact ⟨_, .child hpath (hget j hj) hparent⟩

/-- **The index of paths.**  Jurisdictions are added to an empty tree, each after its parent,
and all calls succeed.  Then there is exactly one path to each of them; and every jurisdiction
is found by its path, and nothing by any other, if and only if none of them has a parent. -/
theorem pathIndexCorrect_iff (js : List (Jurisdiction δ)) (t : JurisdictionTree δ)
    (hadd : (addAll js).exec new = (.ok (), t)) (hfirst : ParentsFirst js) :
    (∀ j ∈ js, ∃! path, PathTo t path j) ∧
    (t.PathIndexCorrect ↔ ∀ j ∈ js, j.parentId = none) := by
  have hholds : t.Holds js := holds_addAll holds_new hadd
  have hget : ∀ j ∈ js, t.getJurisdiction j.id = some j :=
    fun j hj => (hholds.jurisdiction j.id j).mpr ⟨hj, rfl⟩
  constructor
  · intro j hj
    obtain ⟨path, hpath⟩ := exists_pathTo hget hfirst j hj
    exact ⟨path, hpath, fun path' hpath' => hpath'.unique hpath⟩
  · constructor
    · intro hcorrect j hj
      have hfound := (hholds.getByPath [j.id] j).mpr ⟨hj, rfl⟩
      exact parentId_of_pathTo_single ((hcorrect [j.id] j).mp hfound)
    · intro hroots path j
      rw [hholds.getByPath]
      constructor
      · rintro ⟨hj, rfl⟩
        exact .root (hget j hj) (hroots j hj)
      · intro hpath
        have hj := ((hholds.jurisdiction j.id j).mp hpath.get).1
        exact ⟨hj, hpath.unique (.root hpath.get (hroots j hj))⟩

/-! ## A tree to try things on -/

def us : Jurisdiction Unit := .new "US" "United States" .federal ()

def ca : Jurisdiction Unit := (Jurisdiction.new "CA" "California" .state ()).withParent "US"

/-- The tree with California in the United States. -/
def stateTree : JurisdictionTree Unit := (new.added us).added ca

theorem exec_addAll_stateTree : (addAll [us, ca]).exec new = (.ok (), stateTree) := rfl

theorem parentsFirst_stateTree : ParentsFirst [us, ca] := by
  intro before j after heq id hparent
  cases before with
  | nil =>
      cases heq
      cases hparent
  | cons first rest =>
      cases rest with
      | nil =>
          cases heq
          cases hparent
          exact ⟨us, List.mem_cons_self, rfl⟩
      | cons second rest =>
          have hlen := congrArg List.length heq
          simp only [List.length_append, List.length_cons, List.length_nil] at hlen
          omega

/-- There is a path to each of the two, and the index does not have both. -/
theorem pathIndexCorrect_iff_stateTree :
    (∀ j ∈ [us, ca], ∃! path, PathTo stateTree path j) ∧ ¬stateTree.PathIndexCorrect := by
  obtain ⟨hpaths, hindex⟩ :=
    pathIndexCorrect_iff [us, ca] stateTree exec_addAll_stateTree parentsFirst_stateTree
  refine ⟨hpaths, fun hcorrect => ?_⟩
  have hparent := hindex.mp hcorrect ca (List.mem_cons_of_mem _ List.mem_cons_self)
  cases hparent

/-- California is not found by the path from the United States, but by its id alone. -/
theorem not_pathIndexCorrect_stateTree :
    (addAll [us, ca]).exec new = (.ok (), stateTree) ∧ ParentsFirst [us, ca] ∧
    PathTo stateTree ["US", "CA"] ca ∧ stateTree.getByPath ⟨["US", "CA"]⟩ = none ∧
    stateTree.getByPath ⟨["CA"]⟩ = some ca ∧ ¬stateTree.PathIndexCorrect := by
  have hroot : PathTo stateTree [us.id] us := .root rfl rfl
  have hpath : PathTo stateTree ([us.id] ++ [ca.id]) ca := .child hroot rfl rfl
  have hnone : stateTree.getByPath ⟨["US", "CA"]⟩ = none := rfl
  refine ⟨exec_addAll_stateTree, parentsFirst_stateTree, hpath, hnone, rfl, ?_⟩
  intro hcorrect
  have hfound := (hcorrect ["US", "CA"] ca).mpr hpath
  rw [hnone] at hfound
  cases hfound

end JurisdictionTree

end VotingChain
