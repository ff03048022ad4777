/-
# `VotingChain.PeerLimit` — connecting and disconnecting peers

The model of `connect_peer` and `disconnect_peer` in `network/src/lib.rs`.

    connect_peer        read the number of peers and check it    (lock released)
                        connect                                  (await)
                        push the peer                            (lock taken again)
    disconnect_peer     take the first peer with the id out      (under one lock)

Between the check and the push other calls take steps.  A call that runs alone keeps to
`max_peers` (`peerCount_le_of_alone`); calls that overlap keep to it exactly as long as every
push still finds room (`peerCount_le_iff`), which nothing checks.
-/
import VotingChain.Gossip

namespace VotingChain

/-- The part of the network manager that connecting touches. -/
structure NetworkManager where
  maxPeers : Nat
  peers : List Peer
  deriving DecidableEq

namespace NetworkManager

def new (maxPeers : Nat) : NetworkManager := ⟨maxPeers, []⟩

/-- Get peer count. -/
def peerCount (manager : NetworkManager) : Nat := manager.peers.length

/-- `connect_peer` up to the end of the check. -/
def checkPeerCount : Exec NetworkManager Unit := do
  let manager ← get
  Exec.lift (ensure (decide (manager.peerCount < manager.maxPeers))
    (.networkError "Maximum peer count reached"))

/-- `connect_peer` from where there is a connection. -/
def pushPeer (peer : Peer) : Exec NetworkManager PeerId := do
  let peerId := peer.id
  modify fun manager => { manager with peers := manager.peers ++ [peer] }
  pure peerId

/-- `connect_peer` with nothing in between; `connected` is what the transport returns. -/
def connectPeer (connected : Result Peer) : Exec NetworkManager PeerId := do
  checkPeerCount
  let peer ← Exec.lift connected
  pushPeer peer

/-- Disconnect from a peer.  What the peer itself notes down is not the manager's. -/
def disconnectPeer (peerId : PeerId) : Exec NetworkManager Unit := do
  let manager ← get
  match manager.peers.findIdx? fun p => decide (p.id = peerId) with
  | some pos => modify fun manager => { manager with peers := manager.peers.eraseIdx pos }
  | none => pure ()

/-- The manager with one more peer. -/
def withPeer (manager : NetworkManager) (peer : Peer) : NetworkManager :=
  { manager with peers := manager.peers ++ [peer] }

@[simp] theorem peerCount_withPeer (manager : NetworkManager) (peer : Peer) :
    (manager.withPeer peer).peerCount = manager.peerCount + 1 :=
  List.length_append

theorem exec_checkPeerCount (manager : NetworkManager) :
    checkPeerCount.exec manager =
      (if manager.peerCount < manager.maxPeers then .ok ()
        else fail (.networkError "Maximum peer count reached"), manager) := by
  rw [checkPeerCount, Exec.exec_get_bind, Exec.exec_lift, ensure]
  simp only [decide_eq_true_eq]

/-- **What a call of `disconnectPeer` does**: the peers get fewer, if anything. -/
theorem exec_disconnectPeer (peerId : PeerId) (manager : NetworkManager) :
    ∃ manager', (disconnectPeer peerId).exec manager = (.ok (), manager') ∧
      manager'.maxPeers = manager.maxPeers ∧ manager'.peerCount ≤ manager.peerCount := by
  rw [disconnectPeer, Exec.exec_get_bind]
  cases manager.peers.findIdx? fun p => decide (p.id = peerId) with
  | none => exact ⟨manager, rfl, rfl, Nat.le_refl _⟩
  | some pos => exact ⟨_, rfl, rfl, List.length_eraseIdx_le _ _⟩

/-! ## One call at a time -/

/-- A call of the manager that nothing interrupts. -/
inductive Call
  | connectPeer (connected : Result Peer)
  | disconnectPeer (peerId : PeerId)

def apply (manager : NetworkManager) : Call → NetworkManager
  | .connectPeer connected => (NetworkManager.connectPeer connected).next manager
  | .disconnectPeer peerId => (NetworkManager.disconnectPeer peerId).next manager

theorem connectPeer_cases (connected : Result Peer) (manager : NetworkManager) :
    (∃ peer, connected = .ok peer ∧ manager.peerCount < manager.maxPeers ∧
      (connectPeer connected).exec manager = (.ok peer.id, manager.withPeer peer)) ∨
    ∃ e, (connectPeer connected).exec manager = (.error e, manager) := by
  rw [connectPeer, Exec.exec_bind, exec_checkPeerCount]
  by_cases hroom : manager.peerCount < manager.maxPeers
  · rw [if_pos hroom]
    cases connected with
    | ok peer => exact Or.inl ⟨peer, rfl, hroom, rfl⟩
    | error e => exact Or.inr ⟨e, rfl⟩
  · rw [if_neg hroom]
    exact Or.inr ⟨_, rfl⟩

theorem peerCount_le_of_alone (maxPeers : Nat) (calls : List Call) :
    (Runs.run apply (new maxPeers) calls).peerCount ≤ maxPeers := by
  have hkeep : ∀ manager call, manager.maxPeers = maxPeers ∧ manager.peerCount ≤ maxPeers →
      (apply manager call).maxPeers = maxPeers ∧ (apply manager call).peerCount ≤ maxPeers := by
    rintro manager call ⟨hmax, hle⟩
    cases call with
    | connectPeer connected =>
        rcases connectPeer_cases connected manager with ⟨peer, -, hroom, hexec⟩ | ⟨e, hexec⟩
        · rw [apply, Exec.next_of_ok hexec, peerCount_withPeer, ← hmax]
          exact ⟨rfl, hroom⟩
        · rw [apply, Exec.next_of_error hexec]
          exact ⟨hmax, hle⟩
    | disconnectPeer peerId =>
        obtain ⟨manager', hexec, hmax', hle'⟩ := exec_disconnectPeer peerId manager
        rw [apply, Exec.next_of_ok hexec, hmax']
        exact ⟨hmax, hle'.trans hle⟩
  exact (Runs.run_preserves hkeep ⟨rfl, Nat.zero_le _⟩ calls).2

end NetworkManager

/-! ## Calls that overlap -/

/-- How far a call of `connect_peer` has come. -/
inductive ConnectPhase
  | called
  | checked
  | connected (peer : Peer)
  | returned (result : Result PeerId)

/-- A network manager, and the calls of `connect_peer` on it. -/
structure Connecting (ι : Type) where
  manager : NetworkManager
  phase : ι → ConnectPhase

/-- A step: a call checks the number of peers, has a connection or pushes its peer, or a peer
is disconnected. -/
inductive ConnectStep (ι : Type)
  | check (i : ι)
  | connect (i : ι) (connected : Result Peer)
  | push (i : ι)
  | disconnectPeer (peerId : PeerId)

namespace Connecting
variable {ι : Type} [DecidableEq ι]

/-- A manager that has just been made, and any number of calls on it. -/
def start (maxPeers : Nat) : Connecting ι := ⟨NetworkManager.new maxPeers, fun _ => .called⟩

/-- Call `i` has come to another phase. -/
def goto (s : Connecting ι) (i : ι) (phase : ConnectPhase) (manager : NetworkManager) :
    Connecting ι :=
  ⟨manager, Function.update s.phase i phase⟩

/-- A step that is not the next one of its call does not happen. -/
def step (s : Connecting ι) : ConnectStep ι → Connecting ι
  | .check i =>
    match s.phase i with
    | .called =>
      match NetworkManager.checkPeerCount.exec s.manager with
      | (.ok _, manager) => s.goto i .checked manager
      | (.error e, manager) => s.goto i (.returned (.error e)) manager
    | _ => s
  | .connect i connected =>
    match s.phase i with
    | .checked =>
      match connected with
      | .ok peer => s.goto i (.connected peer) s.manager
      | .error e => s.goto i (.returned (.error e)) s.manager
    | _ => s
  | .push i =>
    match s.phase i with
    | .connected peer =>
      match (NetworkManager.pushPeer peer).exec s.manager with
      | (result, manager) => s.goto i (.returned result) manager
    | _ => s
  | .disconnectPeer peerId =>
    { s with manager := (NetworkManager.disconnectPeer peerId).next s.manager }

theorem step_check {s : Connecting ι} {i : ι} (hphase : s.phase i = .called) :
    s.step (.check i) =
      if s.manager.peerCount < s.manager.maxPeers then s.goto i .checked s.manager
      else s.goto i (.returned (fail (.networkError "Maximum peer count reached"))) s.manager := by
  simp only [step, hphase, NetworkManager.exec_checkPeerCount]
  by_cases hroom : s.manager.peerCount < s.manager.maxPeers
  · rw [if_pos hroom, if_pos hroom]
  · rw [if_neg hroom, if_neg hroom]
    rfl

theorem manager_check (s : Connecting ι) (i : ι) : (s.step (.check i)).manager = s.manager := by
  cases hphase : s.phase i with
  | called =>
      rw [step_check hphase]
      split
      · rfl
      · rfl
  | checked => simp only [step, hphase]
  | connected peer => simp only [step, hphase]
  | returned result => simp only [step, hphase]

theorem manager_connect (s : Connecting ι) (i : ι) (connected : Result Peer) :
    (s.step (.connect i connected)).manager = s.manager := by
  cases hphase : s.phase i with
  | called => simp only [step, hphase]
  | checked =>
      simp only [step, hphase]
      cases connected with
      | ok peer => rfl
      | error e => rfl
  | connected peer => simp only [step, hphase]
  | returned result => simp only [step, hphase]

theorem manager_push {s : Connecting ι} {i : ι} {peer : Peer}
    (hphase : s.phase i = .connected peer) :
    (s.step (.push i)).manager = s.manager.withPeer peer := by
  simp only [step, hphase]
  rfl

theorem step_push_of_not_connected {s : Connecting ι} {i : ι}
    (hphase : ¬∃ peer, s.phase i = .connected peer) : s.step (.push i) = s := by
  simp only [step]
  split
  · next peer hpeer => exact absurd ⟨peer, hpeer⟩ hphase
  · rfl

/-- There are not more peers than there may be. -/
def Limited (s : Connecting ι) : Prop := s.manager.peerCount ≤ s.manager.maxPeers

/-- A peer that is pushed finds room. -/
def FindsRoom (s : Connecting ι) : ConnectStep ι → Prop
  | .push i => (∃ peer, s.phase i = .connected peer) → s.manager.peerCount < s.manager.maxPeers
  | _ => True

/-- **What a step does to the peers**: one of them more, by a push, or fewer. -/
theorem step_cases (s : Connecting ι) (o : ConnectStep ι) :
    (∃ i peer, o = .push i ∧ s.phase i = .connected peer ∧
      (s.step o).manager = s.manager.withPeer peer) ∨
    (s.FindsRoom o ∧ (s.step o).manager.maxPeers = s.manager.maxPeers ∧
      (s.step o).manager.peerCount ≤ s.manager.peerCount) := by
  cases o with
  | check i =>
      rw [manager_check]
      exact Or.inr ⟨trivial, rfl, Nat.le_refl _⟩
  | connect i connected =>
      rw [manager_connect]
      exact Or.inr ⟨trivial, rfl, Nat.le_refl _⟩
  | push i =>
      by_cases hphase : ∃ peer, s.phase i = .connected peer
      · obtain ⟨peer, hpeer⟩ := hphase
        exact Or.inl ⟨i, peer, rfl, hpeer, manager_push hpeer⟩
      · rw [step_push_of_not_connected hphase]
        exact Or.inr ⟨fun h => absurd h hphase, rfl, Nat.le_refl _⟩
  | disconnectPeer peerId =>
      obtain ⟨manager', hexec, hmax, hle⟩ := NetworkManager.exec_disconnectPeer peerId s.manager
      refine Or.inr ⟨trivial, ?_⟩
      rw [step, Exec.next_of_ok hexec]
      exact ⟨hmax, hle⟩

/-- A step from a state with few enough peers leads to such a state if and only if what it
pushes finds room. -/
theorem limited_step_iff {s : Connecting ι} (h : s.Limited) (o : ConnectStep ι) :
    (s.step o).Limited ↔ s.FindsRoom o := by
  rcases step_cases s o with ⟨i, peer, rfl, hphase, hmanager⟩ | ⟨hroom, hmax, hle⟩
  · rw [Limited, hmanager, NetworkManager.peerCount_withPeer]
    constructor
    · intro hlt _
      exact hlt
    · intro hroom
      exact hroom ⟨peer, hphase⟩
  · refine iff_of_true ?_ hroom
    rw [Limited, hmax]
    exact hle.trans h

/-- **The limit under interleaving.**  However any number of calls overlap, there are at most
`max_peers` peers in every state if and only if every call still finds room for its peer when
it pushes it. -/
theorem peerCount_le_iff (maxPeers : Nat) (steps : List (ConnectStep ι)) :
    Runs.Visits step Limited (start maxPeers) steps ↔
      Runs.Along step FindsRoom (start maxPeers) steps :=
  Runs.visits_iff_along (I := Limited) (fun _ h => h) (fun _ o h => (limited_step_iff h o).mpr)
    (fun _ o h => (limited_step_iff h o).mp) (Nat.zero_le _)

/-- Two calls are past the check when the first of them pushes its peer. -/
theorem two_peers_of_one :
    ¬Runs.Visits step Limited (start 1 : Connecting (Fin 2))
      [.check 0, .check 1, .connect 0 (.ok Reference.listener),
        .connect 1 (.ok Reference.listener), .push 0, .push 1] := by
  intro h
  have hlast := h.last
  revert hlast
  show ¬2 ≤ 1
  decide

end Connecting

end VotingChain
