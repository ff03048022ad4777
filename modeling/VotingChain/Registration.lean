/-
# `VotingChain.Registration` — voter credentials and registrations

The model of the credentials and registrations of `voting/src/voter.rs`.  There are two
hashes, one inside the other: the credentials carry

    credential hash  =  H(voter id ‖ jurisdiction ‖ issued at)

and the voter signs

    message  =  H(voter id ‖ public key ‖ credential hash ‖ timestamp)

The jurisdiction is the only part of the first string without a fixed width, and the
credential hash of the second; each stands between parts that have one, so both strings
can be cut apart (`VoterCredentials.hashedBytes_inj`, `VoterRegistration.signedBytes_inj`).

What is in neither string is the expiry, and nothing compares the voter id of the
credentials with that of the registration.  `VoterRegistration.signature_binds_iff` says
that there is no other gap: two registrations under one signature of one key are the same
in all parts exactly if they agree on the expiry and the credentials are the voter's own.
-/
import VotingChain.VoteCasting

namespace VotingChain

/-! ## Credentials -/

structure VoterCredentials where
  voterId : VoterId
  jurisdiction : String
  issuedAt : Timestamp
  expiresAt : Option Timestamp
  credentialHash : Bytes
  deriving DecidableEq

namespace VoterCredentials
variable (S : Suite)

def computeHash (voterId : VoterId) (jurisdiction : String) (issuedAt : Timestamp) : Bytes :=
  S.hashBlake2bMultiple [voterId.asBytes, strBytes jurisdiction, u64Bytes issuedAt]

/-- Credentials issued at the time `now`. -/
def new (now : Timestamp) (voterId : VoterId) (jurisdiction : String) : VoterCredentials where
  voterId := voterId
  jurisdiction := jurisdiction
  issuedAt := now
  expiresAt := none
  credentialHash := computeHash S voterId jurisdiction now

def withExpiration (now : Timestamp) (voterId : VoterId) (jurisdiction : String)
    (expiresAt : Timestamp) : VoterCredentials :=
  { new S now voterId jurisdiction with expiresAt := some expiresAt }

def verifyHash (credentials : VoterCredentials) : Bool :=
  constantTimeEq
    (computeHash S credentials.voterId credentials.jurisdiction credentials.issuedAt)
    credentials.credentialHash

/-- The string that is hashed. -/
def hashedBytes (credentials : VoterCredentials) : Bytes :=
  [credentials.voterId.asBytes, strBytes credentials.jurisdiction,
    u64Bytes credentials.issuedAt].flatten

theorem hashedBytes_inj {c c' : VoterCredentials} (h : c.hashedBytes = c'.hashedBytes) :
    c.voterId = c'.voterId ∧ c.jurisdiction = c'.jurisdiction ∧ c.issuedAt = c'.issuedAt := by
  simp only [hashedBytes, List.flatten_cons, List.flatten_nil, List.append_nil] at h
  obtain ⟨hvoter, h⟩ := selfDelimiting_voterId _ _ _ _ h
  obtain ⟨hjurisdiction, hissued⟩ := append_u64Bytes_inj h
  exact ⟨hvoter, strBytes_injective hjurisdiction, hissued⟩

variable {S}

theorem verifyHash_iff {c : VoterCredentials} : c.verifyHash S = true ↔
    S.hashBlake2bMultiple [c.voterId.asBytes, strBytes c.jurisdiction, u64Bytes c.issuedAt] =
      c.credentialHash :=
  constantTimeEq_iff

/-- The expiry is set after the hash was computed. -/
theorem verifyHash_withExpiration (now : Timestamp) (voterId : VoterId) (jurisdiction : String)
    (expiresAt : Timestamp) :
    (withExpiration S now voterId jurisdiction expiresAt).verifyHash S = true :=
  verifyHash_iff.mpr rfl

end VoterCredentials

/-! ## Registrations -/

structure VoterRegistration where
  voterId : VoterId
  publicKey : PublicKey
  credentials : VoterCredentials
  signature : Signature
  timestamp : Timestamp
  deriving DecidableEq

namespace VoterRegistration
variable (S : Suite)

def computeMessage (voterId : VoterId) (publicKey : PublicKey) (credentials : VoterCredentials)
    (timestamp : Timestamp) : Bytes :=
  S.hashBlake2bMultiple
    [voterId.asBytes, publicKey.asBytes, credentials.credentialHash, u64Bytes timestamp]

/-- A registration of `voter`, whose credentials are given beside, at the time `now`. -/
def create (now : Timestamp) (voter : Voter) (credentials : Option VoterCredentials)
    (keypair : KeyPair) : Result VoterRegistration := do
  match credentials with
  | none => fail (.invalidInput "Voter has no credentials")
  | some credentials =>
      let message := computeMessage S voter.id voter.publicKey credentials now
      let signature ← S.sign message keypair
      return {
        voterId := voter.id
        publicKey := voter.publicKey
        credentials
        signature
        timestamp := now }

def verify (r : VoterRegistration) : Result Unit := do
  ensure (r.credentials.verifyHash S) (.invalidInput "Invalid credential hash")
  let message := computeMessage S r.voterId r.publicKey r.credentials r.timestamp
  S.verify message r.signature r.publicKey

/-- The string whose hash is signed. -/
def signedBytes (r : VoterRegistration) : Bytes :=
  [r.voterId.asBytes, r.publicKey.asBytes, r.credentials.credentialHash,
    u64Bytes r.timestamp].flatten

theorem signedBytes_inj {r r' : VoterRegistration} (h : r.signedBytes = r'.signedBytes) :
    r.voterId = r'.voterId ∧ r.publicKey = r'.publicKey ∧
      r.credentials.credentialHash = r'.credentials.credentialHash ∧
      r.timestamp = r'.timestamp := by
  simp only [signedBytes, List.flatten_cons, List.flatten_nil, List.append_nil] at h
  obtain ⟨hvoter, h⟩ := selfDelimiting_voterId _ _ _ _ h
  obtain ⟨hkey, h⟩ := selfDelimiting_publicKey _ _ _ _ h
  obtain ⟨hhash, htime⟩ := append_u64Bytes_inj h
  exact ⟨hvoter, hkey, hhash, htime⟩

variable {S}

theorem verify_eq_ok {r : VoterRegistration} : r.verify S = .ok () ↔
    r.credentials.verifyHash S = true ∧
      S.verify (computeMessage S r.voterId r.publicKey r.credentials r.timestamp) r.signature
        r.publicKey = .ok () := by
  simp only [verify, bind_eq_ok, ensure_eq_ok, exists_const]

/-- The two are registrations of the same voter under the same key, with the same
credentials, and these are the voter's. -/
structure SameRegistration (r r' : VoterRegistration) : Prop where
  voterId : r.voterId = r'.voterId
  publicKey : r.publicKey = r'.publicKey
  timestamp : r.timestamp = r'.timestamp
  credentialsVoterId : r.credentials.voterId = r'.credentials.voterId
  jurisdiction : r.credentials.jurisdiction = r'.credentials.jurisdiction
  issuedAt : r.credentials.issuedAt = r'.credentials.issuedAt
  expiresAt : r.credentials.expiresAt = r'.credentials.expiresAt
  own : r.credentials.voterId = r.voterId

/-- **What the signature of a registration binds.**  Two registrations that verify and
carry one signature are the same in all parts, with credentials of the voter's own,
exactly if they have one public key, one expiry, and the credentials of the first are its
voter's. -/
theorem signature_binds_iff {r r' : VoterRegistration} (hr : r.verify S = .ok ())
    (hr' : r'.verify S = .ok ()) (hsig : r.signature = r'.signature)
    (hone : S.SignsOne r.signature r.publicKey)
    (hcred : Set.InjOn S.blake2b256 {r.credentials.hashedBytes, r'.credentials.hashedBytes})
    (hmessage : Set.InjOn S.blake2b256 {r.signedBytes, r'.signedBytes}) :
    SameRegistration r r' ↔
      r.publicKey = r'.publicKey ∧ r.credentials.expiresAt = r'.credentials.expiresAt ∧
        r.credentials.voterId = r.voterId := by
  constructor
  · intro h
    exact ⟨h.publicKey, h.expiresAt, h.own⟩
  · rintro ⟨hkey, hexpires, hown⟩
    obtain ⟨hhash, hverify⟩ := verify_eq_ok.mp hr
    obtain ⟨hhash', hverify'⟩ := verify_eq_ok.mp hr'
    rw [← hsig, ← hkey] at hverify'
    -- the outer hash first: one key and one signature, so one message
    have hmsg : computeMessage S r.voterId r.publicKey r.credentials r.timestamp =
        computeMessage S r'.voterId r'.publicKey r'.credentials r'.timestamp := by
      rw [← hkey]
      exact hone _ _ hverify hverify'
    obtain ⟨hvoter, -, hdigest, htime⟩ :=
      signedBytes_inj (Suite.flatten_eq_of_hash_eq hmessage hmsg)
    -- then the inner one, which both credentials carry
    rw [← VoterCredentials.verifyHash_iff.mp hhash, ← VoterCredentials.verifyHash_iff.mp hhash']
      at hdigest
    obtain ⟨hcvoter, hjurisdiction, hissued⟩ :=
      VoterCredentials.hashedBytes_inj (Suite.flatten_eq_of_hash_eq hcred hdigest)
    exact ⟨hvoter, hkey, htime, hcvoter, hjurisdiction, hissued, hexpires, hown⟩

end VoterRegistration

namespace Reference

/-- What is signed in the registration below. -/
def registrationMessage : Bytes :=
  [189, 46, 115, 174, 159, 38, 125, 80, 201, 80, 110, 45, 4, 147, 77, 71, 106, 101, 176, 241, 10,
   32, 86, 244, 165, 222, 61, 70, 154, 141, 27, 125]

/-- The signature of `keyPair` on it. -/
def registrationSignature : Signature :=
  ⟨⟨[125, 229, 248, 212, 77, 232, 165, 97, 45, 196, 144, 56, 115, 74, 101, 228, 17, 127, 54,
     182, 142, 84, 241, 208, 94, 98, 89, 212, 245, 182, 162, 164, 65, 176, 22, 25, 255, 27,
     134, 141, 157, 216, 123, 128, 126, 69, 134, 61, 123, 166, 102, 251, 88, 102, 130, 106,
     203, 126, 147, 236, 40, 237, 71, 8],
    rfl⟩⟩

/-- The algorithms of the program, with this signature only. -/
def registrationSuite : Suite :=
  { votingSuite.toSuite with
    ed25519Sign := fun _ _ => registrationSignature
    ed25519Verify := fun publicKey message s =>
      decide (publicKey = key ∧ message = registrationMessage ∧ s = registrationSignature) }

/-- The credentials of the voter, which do not expire, in a registration. -/
def registration : VoterRegistration where
  voterId := voter.id
  publicKey := key
  credentials := VoterCredentials.new registrationSuite 1000 voter.id "Test Jurisdiction"
  signature := registrationSignature
  timestamp := 2000

/-- The same registration with credentials that have expired long since. -/
def expiredRegistration : VoterRegistration :=
  { registration with
    credentials :=
      VoterCredentials.withExpiration registrationSuite 1000 voter.id "Test Jurisdiction" 1001 }

theorem computeMessage_registration :
    VoterRegistration.computeMessage registrationSuite registration.voterId registration.publicKey
      registration.credentials registration.timestamp = registrationMessage := by
  decide +kernel

theorem verify_registrationSuite {message : Bytes} {s : Signature} {publicKey : PublicKey} :
    registrationSuite.verify message s publicKey = .ok () ↔
      publicKey = key ∧ message = registrationMessage ∧ s = registrationSignature := by
  show ensure (decide _) _ = _ ↔ _
  rw [ensure_eq_ok, decide_eq_true_eq]

theorem signsOne_registration :
    registrationSuite.SignsOne registration.signature registration.publicKey := by
  intro message message' h h'
  rw [(verify_registrationSuite.mp h).2.1, (verify_registrationSuite.mp h').2.1]

theorem verify_registration : registration.verify registrationSuite = .ok () := by
  refine VoterRegistration.verify_eq_ok.mpr ⟨VoterCredentials.verifyHash_iff.mpr rfl, ?_⟩
  exact verify_registrationSuite.mpr ⟨rfl, computeMessage_registration, rfl⟩

theorem verify_expiredRegistration : expiredRegistration.verify registrationSuite = .ok () := by
  refine VoterRegistration.verify_eq_ok.mpr
    ⟨VoterCredentials.verifyHash_withExpiration 1000 voter.id "Test Jurisdiction" 1001, ?_⟩
  exact verify_registrationSuite.mpr ⟨rfl, computeMessage_registration, rfl⟩

end Reference

namespace VoterRegistration
open Reference (registrationSuite registration expiredRegistration)

theorem signature_binds_iff_registration : SameRegistration registration registration :=
  (signature_binds_iff Reference.verify_registration Reference.verify_registration rfl
    Reference.signsOne_registration (Suite.injOn_pair_of_eq rfl)
    (Suite.injOn_pair_of_eq rfl)).mpr ⟨rfl, rfl, rfl⟩

/-- One signature, two expiries. -/
theorem expiry_not_bound :
    registration.verify registrationSuite = .ok () ∧
    expiredRegistration.verify registrationSuite = .ok () ∧
    registration.signature = expiredRegistration.signature ∧
    registrationSuite.SignsOne registration.signature registration.publicKey ∧
    Set.InjOn registrationSuite.blake2b256
      {registration.credentials.hashedBytes, expiredRegistration.credentials.hashedBytes} ∧
    Set.InjOn registrationSuite.blake2b256
      {registration.signedBytes, expiredRegistration.signedBytes} ∧
    ¬SameRegistration registration expiredRegistration := by
  refine ⟨Reference.verify_registration, Reference.verify_expiredRegistration, rfl,
    Reference.signsOne_registration, Suite.injOn_pair_of_eq rfl, Suite.injOn_pair_of_eq rfl, ?_⟩
  intro h
  cases h.expiresAt

end VoterRegistration

end VotingChain
