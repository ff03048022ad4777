/-
# `VotingChain.BallotRules` — what a ballot may look like

How ballots are built and how they are checked: `Ballot::add_choice`, `BallotBuilder` and
`Ballot::validate` in `voting/src/ballot.rs`, and `verify_ballot_structure` in
`voting/src/verification.rs`.

    add_choice                 room for one more choice?                  one at a time
    validate                   some choice, no more than the limit,
                               ranks 1, 2, … in a ranked ballot           all together
    verify_ballot_structure    for this election, valid, and every
                               choice a candidate or "write_in"

The two sets of limits agree, also where the limit is zero: what can be built is what is valid
(`build_ok_iff`).  Neither looks at the candidates, so the same one may be chosen as often as
the limit allows (`validate_relabel`).  And nothing looks at the configuration of the election:
it may forbid write-ins, ranked ballots or a second vote, and such a ballot passes all the same
(`respects_iff`).
-/
import VotingChain.Verification

namespace VotingChain

/-! ## Building a ballot -/

namespace BallotChoice

def new (candidateId : String) : BallotChoice := ⟨candidateId, none, none⟩

def withRank (candidateId : String) (rank : UInt32) : BallotChoice := ⟨candidateId, some rank, none⟩

def writeIn (name : String) : BallotChoice := ⟨"write_in", none, some name⟩

end BallotChoice

/-- What `Ballot::new` draws, and the time at which it is called. -/
structure Ballot.Draw where
  ballotId : BallotId
  timestamp : Timestamp

namespace Ballot

def new (draw : Draw) (electionId : ElectionId) (ballotType : BallotType) : Ballot where
  ballotId := draw.ballotId
  electionId := electionId
  ballotType := ballotType
  choices := []
  timestamp := draw.timestamp
  version := 1

/-- Room for one more choice, or the error. -/
def checkRoom (ballot : Ballot) : Result Unit :=
  match ballot.ballotType with
  | .singleChoice =>
      ensure ballot.choices.isEmpty
        (.invalidBallot "Single choice ballot can only have one choice")
  | .multipleChoice maxChoices =>
      ensure (decide (ballot.choices.length < maxChoices))
        (.invalidBallot ("Cannot exceed " ++ toString maxChoices ++ " choices"))
  | .rankedChoice maxRanks =>
      ensure (decide (ballot.choices.length < maxRanks))
        (.invalidBallot ("Cannot exceed " ++ toString maxRanks ++ " ranks"))
  | .approval => .ok ()
  | .writeIn => .ok ()

def addChoice (choice : BallotChoice) : Exec Ballot Unit := do
  let ballot ← get
  Exec.lift ballot.checkRoom
  modify fun ballot => { ballot with choices := ballot.choices ++ [choice] }

/-- The choices, one after the other, up to the first that is refused. -/
def addChoices : List BallotChoice → Exec Ballot Unit
  | [] => pure ()
  | choice :: choices => do
      addChoice choice
      addChoices choices

end Ballot

structure BallotBuilder where
  electionId : ElectionId
  ballotType : BallotType
  choices : List BallotChoice

namespace BallotBuilder

def new (electionId : ElectionId) (ballotType : BallotType) : BallotBuilder :=
  ⟨electionId, ballotType, []⟩

def addChoice (candidateId : String) (builder : BallotBuilder) : BallotBuilder :=
  { builder with choices := builder.choices ++ [.new candidateId] }

def addRankedChoice (candidateId : String) (rank : UInt32) (builder : BallotBuilder) :
    BallotBuilder :=
  { builder with choices := builder.choices ++ [.withRank candidateId rank] }

def addWriteIn (name : String) (builder : BallotBuilder) : BallotBuilder :=
  { builder with choices := builder.choices ++ [.writeIn name] }

def build (draw : Ballot.Draw) (builder : BallotBuilder) : Result Ballot :=
  let built : Exec Ballot Unit := do
    Ballot.addChoices builder.choices
    Exec.lift (← get).validate
  match built.exec (Ballot.new draw builder.electionId builder.ballotType) with
  | (.ok _, ballot) => .ok ballot
  | (.error e, _) => .error e

/-- A call on a builder. -/
inductive Addition
  | plain (candidateId : String)
  | ranked (candidateId : String) (rank : UInt32)
  | writeIn (name : String)

def add (builder : BallotBuilder) : Addition → BallotBuilder
  | .plain candidateId => builder.addChoice candidateId
  | .ranked candidateId rank => builder.addRankedChoice candidateId rank
  | .writeIn name => builder.addWriteIn name

/-- The choice that is added. -/
def Addition.choice : Addition → BallotChoice
  | .plain candidateId => .new candidateId
  | .ranked candidateId rank => .withRank candidateId rank
  | .writeIn name => .writeIn name

end BallotBuilder

/-! ## What is valid -/

/-- How many choices a ballot of the type may have at most. -/
def BallotType.limit : BallotType → Option Nat
  | .singleChoice => some 1
  | .multipleChoice maxChoices => some maxChoices
  | .rankedChoice maxRanks => some maxRanks
  | .approval => none
  | .writeIn => none

namespace Ballot

/-- The choice at index `i` has rank `i + 1`. -/
def Ranked (choices : List BallotChoice) : Prop :=
  ∀ i choice, choices[i]? = some choice → ∃ rank, choice.rank = some rank ∧ rank.toNat = i + 1

/-- Some choice, no more than the limit, and ranks in order where there have to be ranks. -/
structure WellFormed (ballot : Ballot) : Prop where
  nonempty : ballot.choices ≠ []
  limit : ∀ limit ∈ ballot.ballotType.limit, ballot.choices.length ≤ limit
  ranked : ∀ maxRanks, ballot.ballotType = .rankedChoice maxRanks → Ranked ballot.choices

theorem validateRank_eq_ok {choice : BallotChoice} {i : Nat} :
    validateRank (choice, i) = .ok () ↔ ∃ rank, choice.rank = some rank ∧ rank.toNat = i + 1 := by
  rw [validateRank]
  cases hrank : choice.rank with
  | none => exact iff_of_false nofun nofun
  | some rank =>
      rw [ensure_eq_ok, decide_eq_true_eq]
      constructor
      · intro h
        exact ⟨rank, rfl, h⟩
      · rintro ⟨rank', hsame, h⟩
        obtain rfl := Option.some.inj hsame
        exact h

theorem validateRanks_eq_ok {choices : List BallotChoice} :
    forEach validateRank choices.zipIdx = .ok () ↔ Ranked choices := by
  rw [forEach_eq_ok]
  constructor
  · intro h i choice hchoice
    exact validateRank_eq_ok.mp (h (choice, i) (List.mk_mem_zipIdx_iff_getElem?.mpr hchoice))
  · rintro h ⟨choice, i⟩ hmem
    exact validateRank_eq_ok.mpr (h i choice (List.mk_mem_zipIdx_iff_getElem?.mp hmem))

/-- **What `validate` accepts.** -/
theorem validate_eq_ok_iff {ballot : Ballot} : ballot.validate = .ok () ↔ ballot.WellFormed := by
  obtain ⟨ballotId, electionId, ballotType, choices, timestamp, version⟩ := ballot
  have hempty : (!choices.isEmpty) = true ↔ choices ≠ [] := by
    rw [Bool.not_eq_true', List.isEmpty_eq_false_iff]
  simp only [validate, bind_eq_ok, ensure_eq_ok, hempty]
  constructor
  · rintro ⟨-, hne, h⟩
    refine ⟨hne, ?_, ?_⟩
    · intro limit hlimit
      cases ballotType with
      | singleChoice =>
          obtain rfl := Option.some.inj hlimit
          exact (decide_eq_true_eq.mp (ensure_eq_ok.mp h)).le
      | multipleChoice maxChoices =>
          obtain rfl := Option.some.inj hlimit
          exact decide_eq_true_eq.mp (ensure_eq_ok.mp h)
      | rankedChoice maxRanks =>
          obtain rfl := Option.some.inj hlimit
          obtain ⟨_, hlength, -⟩ := bind_eq_ok.mp h
          exact decide_eq_true_eq.mp (ensure_eq_ok.mp hlength)
      | approval => cases hlimit
      | writeIn => cases hlimit
    · rintro maxRanks htype
      obtain rfl : ballotType = .rankedChoice maxRanks := htype
      obtain ⟨_, -, hranks⟩ := bind_eq_ok.mp h
      exact validateRanks_eq_ok.mp hranks
  · rintro ⟨hne, hlimit, hranked⟩
    refine ⟨(), hne, ?_⟩
    cases ballotType with
    | singleChoice =>
        have hone : choices.length = 1 :=
          Nat.le_antisymm (hlimit 1 rfl) (List.length_pos_iff.mpr hne)
        exact ensure_eq_ok.mpr (decide_eq_true hone)
    | multipleChoice maxChoices =>
        exact ensure_eq_ok.mpr (decide_eq_true (hlimit maxChoices rfl))
    | rankedChoice maxRanks =>
        exact bind_eq_ok.mpr ⟨(), ensure_eq_ok.mpr (decide_eq_true (hlimit maxRanks rfl)),
          validateRanks_eq_ok.mpr (hranked maxRanks rfl)⟩
    | approval => rfl
    | writeIn => rfl

/-! ## What can be built -/

theorem forall_mem_limit {n maximum : Nat} :
    (∀ limit ∈ some maximum, n < limit) ↔ n < maximum := by
  constructor
  · intro h
    exact h maximum rfl
  · rintro h limit hlimit
    obtain rfl := Option.some.inj hlimit
    exact h

/-- There is room for one more. -/
def HasRoom (ballot : Ballot) : Prop :=
  ∀ limit ∈ ballot.ballotType.limit, ballot.choices.length < limit

theorem ensure_cases_iff {ok : Bool} {p : Prop} (h : ok = true ↔ p) (e : VotingError) :
    ensure ok e = .ok () ∧ p ∨ (∃ fault, ensure ok e = .error fault) ∧ ¬p := by
  rw [← h]
  cases ok with
  | true => exact Or.inl ⟨rfl, rfl⟩
  | false => exact Or.inr ⟨⟨_, rfl⟩, Bool.false_ne_true⟩

theorem checkRoom_cases (ballot : Ballot) :
    ballot.checkRoom = .ok () ∧ ballot.HasRoom ∨
      (∃ e, ballot.checkRoom = .error e) ∧ ¬ballot.HasRoom := by
  obtain ⟨ballotId, electionId, ballotType, choices, timestamp, version⟩ := ballot
  cases ballotType with
  | singleChoice =>
      refine ensure_cases_iff ?_ _
      rw [List.isEmpty_iff, ← List.length_eq_zero_iff, ← Nat.lt_one_iff]
      exact forall_mem_limit.symm
  | multipleChoice maxChoices =>
      refine ensure_cases_iff ?_ _
      rw [decide_eq_true_eq]
      exact forall_mem_limit.symm
  | rankedChoice maxRanks =>
      refine ensure_cases_iff ?_ _
      rw [decide_eq_true_eq]
      exact forall_mem_limit.symm
  -- these two have no limit, and nothing is looked at
  | approval => exact Or.inl ⟨rfl, nofun⟩
  | writeIn => exact Or.inl ⟨rfl, nofun⟩

/-- With the choices, there are no more than the limit. -/
def Fits (ballot : Ballot) (choices : List BallotChoice) : Prop :=
  choices ≠ [] →
    ∀ limit ∈ ballot.ballotType.limit, ballot.choices.length + choices.length ≤ limit

/-- The ballot with these choices as well. -/
def append (ballot : Ballot) (choices : List BallotChoice) : Ballot :=
  { ballot with choices := ballot.choices ++ choices }

theorem fits_cons {ballot : Ballot} {choice : BallotChoice} {choices : List BallotChoice} :
    ballot.Fits (choice :: choices) ↔
      ballot.HasRoom ∧ (ballot.append [choice]).Fits choices := by
  have hlength : (ballot.append [choice]).choices.length = ballot.choices.length + 1 :=
    List.length_append
  constructor
  · intro h
    have hle := h (List.cons_ne_nil choice choices)
    rw [List.length_cons] at hle
    constructor
    · intro limit hlimit
      have := hle limit hlimit
      omega
    · intro _ limit hlimit
      have := hle limit hlimit
      omega
  · rintro ⟨hroom, hrest⟩ - limit hlimit
    rw [List.length_cons]
    -- after the last choice only the room for it says that there are no more than the limit
    cases choices with
    | nil => exact hroom limit hlimit
    | cons choice' choices =>
        have hle := hrest (List.cons_ne_nil choice' choices) limit hlimit
        rw [hlength] at hle
        omega

theorem exec_addChoices_of_room {ballot : Ballot} (h : ballot.checkRoom = .ok ())
    {choice : BallotChoice} {choices : List BallotChoice} :
    (addChoices (choice :: choices)).exec ballot =
      (addChoices choices).exec (ballot.append [choice]) := by
  rw [addChoices, Exec.exec_bind, addChoice, Exec.exec_get_bind, h]
  rfl

theorem exec_addChoices_of_full {ballot : Ballot} {e : Fault} (h : ballot.checkRoom = .error e)
    (choice : BallotChoice) (choices : List BallotChoice) :
    (addChoices (choice :: choices)).exec ballot = (.error e, ballot) := by
  rw [addChoices, Exec.exec_bind, addChoice, Exec.exec_get_bind, h]
  rfl

theorem exec_addChoices_cases (choices : List BallotChoice) (ballot : Ballot) :
    (addChoices choices).exec ballot = (.ok (), ballot.append choices) ∧ ballot.Fits choices ∨
      (∃ e ballot', (addChoices choices).exec ballot = (.error e, ballot')) ∧
        ¬ballot.Fits choices := by
  induction choices generalizing ballot with
  | nil =>
      refine Or.inl ⟨?_, fun h => absurd rfl h⟩
      rw [append, List.append_nil]
      rfl
  | cons choice choices ih =>
      rw [fits_cons]
      rcases checkRoom_cases ballot with ⟨hok, hroom⟩ | ⟨⟨e, herror⟩, hfull⟩
      · rw [exec_addChoices_of_room hok]
        rcases ih (ballot.append [choice]) with ⟨hrest, hfitsRest⟩ | ⟨herror, hnot⟩
        · refine Or.inl ⟨?_, hroom, hfitsRest⟩
          rw [hrest, append, append, List.append_assoc]
          rfl
        · exact Or.inr ⟨herror, fun h => hnot h.2⟩
      · exact Or.inr ⟨⟨e, ballot, exec_addChoices_of_full herror choice choices⟩,
          fun h => hfull h.1⟩

end Ballot

namespace BallotBuilder

theorem foldl_add (builder : BallotBuilder) (additions : List Addition) :
    additions.foldl add builder =
      { builder with choices := builder.choices ++ additions.map Addition.choice } := by
  induction additions generalizing builder with
  | nil => rw [List.map_nil, List.append_nil, List.foldl_nil]
  | cons addition additions ih =>
      have hadd : builder.add addition =
          { builder with choices := builder.choices ++ [addition.choice] } := by
        cases addition with
        | plain candidateId => rfl
        | ranked candidateId rank => rfl
        | writeIn name => rfl
      rw [List.foldl_cons, ih, hadd, List.map_cons, List.append_assoc, List.singleton_append]

theorem build_cases (draw : Ballot.Draw) (builder : BallotBuilder) :
    let ballot := (Ballot.new draw builder.electionId builder.ballotType).append builder.choices
    builder.build draw = .ok ballot ∧ ballot.WellFormed ∨
      (∃ e, builder.build draw = .error e) ∧ ¬ballot.WellFormed := by
  intro ballot
  have hbuild : builder.build draw =
      match (do Ballot.addChoices builder.choices
                Exec.lift (← get).validate : Exec Ballot Unit).exec
        (Ballot.new draw builder.electionId builder.ballotType) with
      | (.ok _, ballot) => .ok ballot
      | (.error e, _) => .error e := rfl
  rw [hbuild, Exec.exec_bind]
  rcases Ballot.exec_addChoices_cases builder.choices
    (Ballot.new draw builder.electionId builder.ballotType) with
    ⟨hadded, -⟩ | ⟨⟨e, ballot', hrefused⟩, hnot⟩
  · rw [hadded]
    simp only [Exec.exec_get_bind, Exec.exec_lift]
    cases hvalidate : ballot.validate with
    | ok _ => exact Or.inl ⟨rfl, Ballot.validate_eq_ok_iff.mp hvalidate⟩
    | error e =>
        refine Or.inr ⟨⟨e, rfl⟩, ?_⟩
        intro hformed
        rw [Ballot.validate_eq_ok_iff.mpr hformed] at hvalidate
        cases hvalidate
  · rw [hrefused]
    refine Or.inr ⟨⟨e, rfl⟩, ?_⟩
    intro hformed
    refine hnot fun _ limit hlimit => ?_
    have hle := hformed.limit limit hlimit
    rw [show ballot.choices = [] ++ builder.choices from rfl, List.nil_append] at hle
    rw [show (Ballot.new draw builder.electionId builder.ballotType).choices = [] from rfl,
      List.length_nil, Nat.zero_add]
    exact hle

end BallotBuilder

namespace Ballot

theorem validate_congr {ballot ballot' : Ballot} (htype : ballot.ballotType = ballot'.ballotType)
    (hchoices : ballot.choices = ballot'.choices) : ballot.validate = ballot'.validate := by
  rw [validate, validate, htype, hchoices]

end Ballot

namespace BallotBuilder

/-- **What can be built is what is valid.**  Whatever was added to a builder, a ballot comes out
exactly if any ballot of the type with these choices passes `validate`, and it has these
choices, in this order. -/
theorem build_ok_iff (draw : Ballot.Draw) (electionId : ElectionId) (ballotType : BallotType)
    (additions : List Addition) :
    (∀ other : Ballot,
      (∃ ballot, (additions.foldl add (new electionId ballotType)).build draw = .ok ballot) ↔
        Ballot.validate
          { other with
            ballotType := ballotType
            choices := additions.map Addition.choice } = .ok ()) ∧
    ∀ ballot, (additions.foldl add (new electionId ballotType)).build draw = .ok ballot →
      ballot.ballotType = ballotType ∧ ballot.electionId = electionId ∧
        ballot.choices = additions.map Addition.choice := by
  have hadded : additions.foldl add (new electionId ballotType) =
      ⟨electionId, ballotType, additions.map Addition.choice⟩ := foldl_add _ additions
  have hcases := build_cases draw ⟨electionId, ballotType, additions.map Addition.choice⟩
  rw [hadded]
  constructor
  · intro other
    have hsame : Ballot.validate
        { other with ballotType := ballotType, choices := additions.map Addition.choice } =
        ((Ballot.new draw electionId ballotType).append
          (additions.map Addition.choice)).validate := Ballot.validate_congr rfl rfl
    rw [hsame, Ballot.validate_eq_ok_iff]
    rcases hcases with ⟨hok, hformed⟩ | ⟨⟨e, herror⟩, hnot⟩
    · exact iff_of_true ⟨_, hok⟩ hformed
    · refine iff_of_false ?_ hnot
      rintro ⟨ballot, hok⟩
      exact absurd (herror.symm.trans hok) nofun
  · intro ballot hballot
    rcases hcases with ⟨hok, -⟩ | ⟨⟨e, herror⟩, -⟩
    · obtain rfl := Except.ok.inj (hok.symm.trans hballot)
      exact ⟨rfl, rfl, rfl⟩
    · exact absurd (herror.symm.trans hballot) nofun

end BallotBuilder

/-! ## The check of a ballot's structure -/

/-- Election configuration parameters. -/
structure ElectionConfig where
  allowWriteIn : Bool
  maxVotesPerVoter : UInt32
  rankedChoice : Bool

/-- The configuration an election has by default. -/
def ElectionConfig.default : ElectionConfig where
  allowWriteIn := false
  maxVotesPerVoter := 1
  rankedChoice := false

namespace VoteVerifier

/-- The choice is one of the candidates. -/
def isCandidate (election : Election) (choice : BallotChoice) : Bool :=
  election.candidates.any fun c => decide (c.id = choice.candidateId)

/-- One round of the loop over the choices. -/
def checkChoice (election : Election) (result : VerificationResult) (choice : BallotChoice) :
    VerificationResult :=
  if !isCandidate election choice && decide (choice.candidateId ≠ "write_in") then
    result.addError ("Invalid candidate ID: " ++ choice.candidateId)
  else result

/-- `now` is what the clock says; the voter is not known. -/
def verifyBallotStructure (now : Timestamp) (verifier : VoteVerifier) (ballot : Ballot) :
    Result VerificationResult := do
  let result := VerificationResult.new now ⟨List.Vector.replicate 32 0⟩
  if ballot.electionId ≠ verifier.election.id then
    return result.addError "Ballot election ID mismatch"
  match ← caught ballot.validate with
  | some e => return result.addError ("Ballot validation failed: " ++ e.display)
  | none =>
    let result := ballot.choices.foldl (checkChoice verifier.election) result
    if result.errors.isEmpty then return result.markValid
    return result

/-- The check returns a result that says the ballot is valid. -/
def StructureValid (now : Timestamp) (verifier : VoteVerifier) (ballot : Ballot) : Prop :=
  ∃ result, verifier.verifyBallotStructure now ballot = .ok result ∧ result.isValid = true

/-- The ballot is for the election, it is valid, and its choices are candidates or have the id
of a write-in. -/
structure Passes (election : Election) (ballot : Ballot) : Prop where
  forElection : ballot.electionId = election.id
  valid : ballot.validate = .ok ()
  choices : ∀ choice ∈ ballot.choices,
    isCandidate election choice = true ∨ choice.candidateId = "write_in"

theorem errors_foldl_checkChoice (election : Election) (choices : List BallotChoice)
    (result : VerificationResult) :
    (choices.foldl (checkChoice election) result).errors = [] ↔
      result.errors = [] ∧ ∀ choice ∈ choices,
        isCandidate election choice = true ∨ choice.candidateId = "write_in" := by
  induction choices generalizing result with
  | nil => simp
  | cons choice choices ih =>
      have hcheck : (checkChoice election result choice).errors = [] ↔
          result.errors = [] ∧
            (isCandidate election choice = true ∨ choice.candidateId = "write_in") := by
        rw [checkChoice]
        split
        · next hbad =>
            rw [Bool.and_eq_true, Bool.not_eq_true', decide_eq_true_eq] at hbad
            refine iff_of_false (List.append_ne_nil_of_right_ne_nil _ (List.cons_ne_nil _ _)) ?_
            rintro ⟨-, hcandidate | hwriteIn⟩
            · rw [hbad.1] at hcandidate
              cases hcandidate
            · exact hbad.2 hwriteIn
        · next hgood =>
            rw [Bool.and_eq_true, Bool.not_eq_true', decide_eq_true_eq, not_and_or,
              Bool.not_eq_false, not_not] at hgood
            exact (and_iff_left hgood).symm
      rw [List.foldl_cons, ih, hcheck, List.forall_mem_cons, and_assoc]

theorem isValid_foldl_checkChoice (election : Election) (choices : List BallotChoice)
    {result : VerificationResult} (h : result.isValid = false) :
    (choices.foldl (checkChoice election) result).isValid = false := by
  refine List.foldlRecOn (motive := fun result : VerificationResult => result.isValid = false)
    _ _ h ?_
  intro result hresult choice _
  rw [checkChoice]
  split
  · rfl
  · exact hresult

/-- **What the check accepts.** -/
theorem structureValid_iff {now : Timestamp} {verifier : VoteVerifier} {ballot : Ballot} :
    verifier.StructureValid now ballot ↔ Passes verifier.election ballot := by
  rw [StructureValid, verifyBallotStructure]
  by_cases hid : ballot.electionId = verifier.election.id
  · rw [if_neg (not_not_intro hid)]
    cases hvalidate : ballot.validate with
    | error e =>
        have hnot : ¬Passes verifier.election ballot := by
          intro hpasses
          rw [hpasses.valid] at hvalidate
          cases hvalidate
        refine iff_of_false ?_ hnot
        rintro ⟨result, hresult, hvalid⟩
        cases e with
        | err e =>
            obtain rfl := Except.ok.inj hresult
            cases hvalid
        | panicked => cases hresult
    | ok _ =>
        let result := ballot.choices.foldl (checkChoice verifier.election)
          (VerificationResult.new now ⟨List.Vector.replicate 32 0⟩)
        have herrors : result.errors.isEmpty = true ↔ ∀ choice ∈ ballot.choices,
            isCandidate verifier.election choice = true ∨ choice.candidateId = "write_in" := by
          rw [List.isEmpty_iff, errors_foldl_checkChoice]
          exact and_iff_right rfl
        have hinvalid : result.isValid = false := isValid_foldl_checkChoice _ _ rfl
        show (∃ result', (if result.errors.isEmpty = true then Except.ok result.markValid
          else Except.ok result) = .ok result' ∧ result'.isValid = true) ↔ _
        by_cases hempty : result.errors.isEmpty = true
        · rw [if_pos hempty]
          refine iff_of_true ⟨_, rfl, ?_⟩ ⟨hid, hvalidate, herrors.mp hempty⟩
          rw [VerificationResult.markValid, if_pos hempty]
        · rw [if_neg hempty]
          refine iff_of_false ?_ fun hpasses => hempty (herrors.mpr hpasses.choices)
          rintro ⟨result', hsame, hvalid⟩
          obtain rfl := Except.ok.inj hsame
          rw [hinvalid] at hvalid
          cases hvalid
  · rw [if_pos hid]
    refine iff_of_false ?_ fun hpasses => hid hpasses.forElection
    rintro ⟨result, hresult, hvalid⟩
    obtain rfl := Except.ok.inj hresult
    cases hvalid

end VoteVerifier

/-! ## The same candidate twice -/

namespace Ballot

/-- The ballot with other names for the candidates. -/
def relabel (rename : String → String) (ballot : Ballot) : Ballot :=
  { ballot with
    choices := ballot.choices.map fun choice =>
      { choice with candidateId := rename choice.candidateId } }

theorem validateRanks_relabel (rename : String → String) (choices : List BallotChoice) (i : Nat) :
    forEach validateRank ((choices.map fun choice =>
      { choice with candidateId := rename choice.candidateId }).zipIdx i) =
      forEach validateRank (choices.zipIdx i) := by
  induction choices generalizing i with
  | nil => rfl
  | cons choice choices ih =>
      rw [List.map_cons, List.zipIdx_cons, List.zipIdx_cons, forEach, forEach, ih]
      rfl

theorem validate_relabel (rename : String → String) (ballot : Ballot) :
    (ballot.relabel rename).validate = ballot.validate := by
  have htype : (ballot.relabel rename).ballotType = ballot.ballotType := rfl
  have hlength : (ballot.relabel rename).choices.length = ballot.choices.length :=
    List.length_map _
  have hempty : (ballot.relabel rename).choices.isEmpty = ballot.choices.isEmpty :=
    List.isEmpty_map
  have hranks : forEach validateRank (ballot.relabel rename).choices.zipIdx =
      forEach validateRank ballot.choices.zipIdx :=
    validateRanks_relabel rename ballot.choices 0
  simp only [validate, htype, hlength, hempty, hranks]

theorem Ranked.nodup {choices : List BallotChoice} (h : Ranked choices) :
    (choices.map BallotChoice.rank).Nodup := by
  rw [List.nodup_iff_getElem?_ne_getElem?]
  intro i j hij hj heq
  rw [List.length_map] at hj
  have hi : choices[i]? = some choices[i] := List.getElem?_eq_getElem (hij.trans hj)
  have hj' : choices[j]? = some choices[j] := List.getElem?_eq_getElem hj
  obtain ⟨rank, hrank, hindex⟩ := h i _ hi
  obtain ⟨rank', hrank', hindex'⟩ := h j _ hj'
  rw [List.getElem?_map, List.getElem?_map, hi, hj', Option.map_some, Option.map_some, hrank,
    hrank'] at heq
  obtain rfl := Option.some.inj (Option.some.inj heq)
  omega

end Ballot

theorem VoteCaster.validate_of_castVote [Hex] {S : VotingSuite} {now : Timestamp}
    {draw : CastBallot.Draw} {receiptId : ReceiptId} {voter : Voter} {ballot : Ballot}
    {voterKeypair : KeyPair} {electionKey : EncryptionKey} {caster caster' : VoteCaster}
    {receipt : VoteReceipt}
    (h : (castVote S now draw receiptId voter ballot voterKeypair electionKey).exec caster =
      (.ok receipt, caster')) : ballot.validate = .ok () := by
  rcases perform_cases (S := S) (.cast now draw receiptId voter ballot voterKeypair electionKey)
    caster with ⟨castBallot, _, haccepts, -⟩ | ⟨-, e, herror⟩
  · obtain ⟨_, -, hrest⟩ := bind_eq_ok.mp haccepts.casts
    obtain ⟨_, hvalid, -⟩ := bind_eq_ok.mp hrest
    exact hvalid
  · exact absurd (h.symm.trans herror) nofun

/-- **What a ballot is accepted for**: the number of its choices, and their ranks.  No rank is
given twice, but the candidates may be the same as often as there are choices, and neither
the verifier nor the caster does more than to ask whether the ballot is valid. -/
theorem Ballot.accepted_for_counts_and_ranks [Hex] (ballot : Ballot) :
    (ballot.validate = .ok () ↔ ballot.WellFormed) ∧
    (∀ maxRanks, ballot.ballotType = .rankedChoice maxRanks → ballot.validate = .ok () →
      (ballot.choices.map BallotChoice.rank).Nodup) ∧
    (∀ rename, (ballot.relabel rename).validate = ballot.validate) ∧
    (∀ now verifier, VoteVerifier.StructureValid now verifier ballot →
      ballot.validate = .ok ()) ∧
    ∀ S now draw receiptId voter voterKeypair electionKey caster receipt caster',
      (VoteCaster.castVote S now draw receiptId voter ballot voterKeypair electionKey).exec caster =
        (.ok receipt, caster') → ballot.validate = .ok () := by
  refine ⟨validate_eq_ok_iff, ?_, fun rename => validate_relabel rename ballot, ?_, ?_⟩
  · intro maxRanks htype hvalid
    exact ((validate_eq_ok_iff.mp hvalid).ranked maxRanks htype).nodup
  · intro now verifier hvalid
    exact (VoteVerifier.structureValid_iff.mp hvalid).valid
  · intro S now draw receiptId voter voterKeypair electionKey caster receipt caster' hcast
    exact VoteCaster.validate_of_castVote hcast

/-! ## What the configuration says -/

namespace VoteVerifier

/-- What a ballot of a type may hold: a ranked one, if there may be ranked ones; of any other
type, no more choices than a voter has votes. -/
def VotesPermitted (config : ElectionConfig) (ballot : Ballot) : Prop :=
  match ballot.ballotType with
  | .rankedChoice _ => config.rankedChoice = true
  | _ => ballot.choices.length ≤ config.maxVotesPerVoter.toNat

/-- A write-in, where there may be any. -/
def WriteInPermitted (config : ElectionConfig) (choice : BallotChoice) : Prop :=
  config.allowWriteIn = true ∧ choice.writeInName.isSome = true

/-- The ballot is one that the election asks for. -/
structure Respects (config : ElectionConfig) (election : Election) (ballot : Ballot) : Prop where
  forElection : ballot.electionId = election.id
  valid : ballot.validate = .ok ()
  choices : ∀ choice ∈ ballot.choices, isCandidate election choice = true ∨
    choice.candidateId = "write_in" ∧ WriteInPermitted config choice
  votes : VotesPermitted config ballot

/-- Of what the configuration says, the ballot breaks nothing. -/
structure Permits (config : ElectionConfig) (election : Election) (ballot : Ballot) : Prop where
  writeIns : ∀ choice ∈ ballot.choices,
    isCandidate election choice = false → WriteInPermitted config choice
  votes : VotesPermitted config ballot

/-- **When the check respects the election.**  It does not read the configuration, so it does
exactly for the ballots that it refuses anyway and for those with which the configuration has
nothing to find fault. -/
theorem respects_iff (now : Timestamp) (verifier : VoteVerifier) (config : ElectionConfig)
    (ballot : Ballot) :
    (verifier.StructureValid now ballot → Respects config verifier.election ballot) ↔
      (Passes verifier.election ballot → Permits config verifier.election ballot) := by
  rw [structureValid_iff]
  refine imp_congr_right ?_
  intro hpasses
  constructor
  · intro h
    refine ⟨?_, h.votes⟩
    intro choice hmem hnot
    rcases h.choices choice hmem with hcandidate | ⟨-, hpermitted⟩
    · rw [hnot] at hcandidate
      cases hcandidate
    · exact hpermitted
  · intro h
    refine ⟨hpasses.forElection, hpasses.valid, ?_, h.votes⟩
    intro choice hmem
    cases hcandidate : isCandidate verifier.election choice with
    | true => exact Or.inl rfl
    | false =>
        rcases hpasses.choices choice hmem with hother | hwriteIn
        · rw [hcandidate] at hother
          cases hother
        · exact Or.inr ⟨hwriteIn, h.writeIns choice hmem hcandidate⟩

end VoteVerifier

/-! ## Ballots that pass -/

namespace Reference

/-- A ballot for the election, of a type and with some choices. -/
def ballotOf (ballotType : BallotType) (choices : List BallotChoice) : Ballot :=
  { ballot with ballotType, choices }

/-- The first candidate twice. -/
def repeated (ballotType : BallotType) : Ballot :=
  ballotOf ballotType [⟨"c1", some 1, none⟩, ⟨"c1", some 2, none⟩]

/-- The caster of the election, with the voter on its list. -/
def caster : VoteCaster := (VoteCaster.new election).registerVoter voter.id

theorem passes_ballotOf {ballotType : BallotType} {choices : List BallotChoice}
    (hvalid : (ballotOf ballotType choices).validate = .ok ())
    (hchoices : choices.all (fun choice => VoteVerifier.isCandidate election choice ||
      decide (choice.candidateId = "write_in")) = true) :
    VoteVerifier.Passes election (ballotOf ballotType choices) := by
  refine ⟨rfl, hvalid, ?_⟩
  intro choice hmem
  have hchoice := List.all_eq_true.mp hchoices choice hmem
  rw [Bool.or_eq_true, decide_eq_true_eq] at hchoice
  exact hchoice

end Reference

namespace BallotBuilder
open Reference (election)

/-- Two ranks in order, where there may be two; and a choice where there may be none. -/
theorem build_ok_iff_sample :
    ((∃ ballot, ([.ranked "c1" 1, .ranked "c2" 2].foldl add
        (new election.id (.rankedChoice 2))).build ⟨⟨List.Vector.replicate 32 3⟩, 2000⟩ =
          .ok ballot) ∧
      ¬∃ ballot, ([.plain "c1"].foldl add (new election.id (.multipleChoice 0))).build
        ⟨⟨List.Vector.replicate 32 3⟩, 2000⟩ = .ok ballot) := by
  constructor
  · exact ((build_ok_iff _ election.id (.rankedChoice 2) [.ranked "c1" 1, .ranked "c2" 2]).1
      Reference.ballot).mpr rfl
  · rw [(build_ok_iff _ election.id (.multipleChoice 0) [.plain "c1"]).1 Reference.ballot]
    nofun

end BallotBuilder

namespace Ballot
open Reference (election repeated votingSuite castDraw caster voter keyPair)

/-- A ballot that has the same candidate twice, is valid, and is accepted by the verifier and
by the caster. -/
structure AcceptedTwice (ballot : Ballot) : Prop where
  twice : ¬(ballot.choices.map BallotChoice.candidateId).Nodup
  candidates : ∀ choice ∈ ballot.choices, choice.candidateId ≠ "write_in"
  valid : ballot.validate = .ok ()
  verified : VoteVerifier.StructureValid 2000 (VoteVerifier.new election) ballot
  cast : ∃ receipt caster', (VoteCaster.castVote votingSuite 2000 castDraw
    ⟨List.Vector.replicate 32 4⟩ voter ballot keyPair Reference.electionKey).exec caster =
      (.ok receipt, caster')

theorem acceptedTwice_repeated {ballotType : BallotType}
    (hvalid : (repeated ballotType).validate = .ok ()) : AcceptedTwice (repeated ballotType) where
  twice := by
    show ¬["c1", "c1"].Nodup
    decide
  candidates := by
    intro choice hmem
    have hname : choice.candidateId = "c1" := by
      rcases List.mem_cons.mp hmem with rfl | hmem
      · rfl
      · obtain rfl := List.mem_singleton.mp hmem
        rfl
    rw [hname]
    decide
  valid := hvalid
  verified := VoteVerifier.structureValid_iff.mpr (Reference.passes_ballotOf hvalid (by decide))
  cast := by
    obtain ⟨castBallot, hcreate⟩ : ∃ castBallot, CastBallot.create votingSuite castDraw
        (repeated ballotType) voter.id Reference.electionKey keyPair = .ok castBallot := ⟨_, rfl⟩
    let vote : VoteCaster.Vote := .cast 2000 castDraw ⟨List.Vector.replicate 32 4⟩ voter
      (repeated ballotType) keyPair Reference.electionKey
    have hactive : election.isActive 2000 = true := by decide
    have haccepts : VoteCaster.Accepts votingSuite caster vote castBallot :=
      ⟨Finset.mem_insert_self _ _, Finmap.notMem_empty, hactive,
        bind_eq_ok.mpr ⟨(), rfl, bind_eq_ok.mpr ⟨(), hvalid, hcreate⟩⟩⟩
    rcases VoteCaster.perform_cases (S := votingSuite) vote caster with
      ⟨_, receipt, -, hexec⟩ | ⟨hnot, -⟩
    · exact ⟨receipt, _, hexec⟩
    · exact absurd haccepts (hnot castBallot)

/-- With two choices, two ranks, or as many as one likes. -/
theorem repeated_candidate_accepted :
    AcceptedTwice (repeated (.multipleChoice 2)) ∧ AcceptedTwice (repeated (.rankedChoice 2)) ∧
      AcceptedTwice (repeated .approval) :=
  ⟨acceptedTwice_repeated rfl, acceptedTwice_repeated rfl, acceptedTwice_repeated rfl⟩

end Ballot

namespace VoteVerifier
open Reference (ballotOf)

/-- An election as it is by default has one vote for each voter, no write-ins and no ranks.  It
takes a write-in without a name, a ballot with two votes, and a ranked one. -/
theorem default_config_ignored :
    (StructureValid 2000 (new Reference.election) (ballotOf .singleChoice [⟨"write_in", none, none⟩]) ∧
      ¬Respects .default Reference.election (ballotOf .singleChoice [⟨"write_in", none, none⟩])) ∧
    (StructureValid 2000 (new Reference.election)
        (ballotOf (.multipleChoice 2) [⟨"c1", none, none⟩, ⟨"c2", none, none⟩]) ∧
      ¬Respects .default Reference.election
        (ballotOf (.multipleChoice 2) [⟨"c1", none, none⟩, ⟨"c2", none, none⟩])) ∧
    StructureValid 2000 (new Reference.election) (ballotOf (.rankedChoice 1) [⟨"c1", some 1, none⟩]) ∧
      ¬Respects .default Reference.election (ballotOf (.rankedChoice 1) [⟨"c1", some 1, none⟩]) := by
  refine ⟨⟨?_, ?_⟩, ⟨?_, ?_⟩, ?_, ?_⟩
  · exact structureValid_iff.mpr (Reference.passes_ballotOf rfl (by decide))
  · intro h
    rcases h.choices _ List.mem_cons_self with hcandidate | ⟨-, hpermitted, -⟩
    · exact absurd hcandidate (by decide)
    · cases hpermitted
  · exact structureValid_iff.mpr (Reference.passes_ballotOf rfl (by decide))
  · intro h
    exact absurd (show 2 ≤ (1 : UInt32).toNat from h.votes) (by decide)
  · exact structureValid_iff.mpr (Reference.passes_ballotOf rfl (by decide))
  · intro h
    cases (show false = true from h.votes)

end VoteVerifier

end VotingChain
