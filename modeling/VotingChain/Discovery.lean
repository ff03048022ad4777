/-
# `VotingChain.Discovery` — peers that are heard of

The model of the table of addresses in `network/src/discovery.rs`.

    add_peer(addr)        full?  then an error             full: 2 · max_peers addresses
                          known? then last_seen := now
                          else   a new entry
    mark_connected(addr)  known? then last_seen := now
    clean_stale_peers     drop what was last seen more than stale_threshold seconds ago

Whether the table is full is asked before whether the address is known.  So in a full table
nothing is refreshed, and a peer that goes on announcing itself is dropped with those that have
gone silent.  It is kept exactly if before every clean-up some announcement found room, or it
was connected to, in time (`kept_iff`).

**Runs.**  `add_peers` takes the lock for each address anew, so it is as many calls of
`add_peer` (`next_addPeers`), with anything in between.  `mark_connected` takes two locks, one
for each table, and no call reads both.  Every call comes with what the clock says when it reads
it.
-/
import Mathlib.Data.Finmap
import VotingChain.Lib.Maps
import VotingChain.Lib.Runs
import VotingChain.Common

namespace VotingChain

/-- `std::net::SocketAddr`. -/
inductive SocketAddr
  | v4 (ip : ByteArr 4) (port : UInt16)
  | v6 (ip : ByteArr 16) (port : UInt16) (flowinfo scopeId : UInt32)
  deriving DecidableEq

/-- Peer discovery configuration. -/
structure DiscoveryConfig where
  bootstrapPeers : List SocketAddr
  maxPeers : UInt64
  staleThreshold : UInt64

/-- Source of peer discovery. -/
inductive PeerSource
  | bootstrap
  | peer
  | manual
  deriving DecidableEq

/-- Discovered peer information. -/
structure DiscoveredPeer where
  addr : SocketAddr
  discoveredAt : Timestamp
  lastSeen : Timestamp
  source : PeerSource

namespace DiscoveredPeer

def new (addr : SocketAddr) (source : PeerSource) (now : Timestamp) : DiscoveredPeer :=
  ⟨addr, now, now, source⟩

def updateLastSeen (peer : DiscoveredPeer) (now : Timestamp) : DiscoveredPeer :=
  { peer with lastSeen := now }

/-- The time since then is cut off at zero. -/
def isStale (peer : DiscoveredPeer) (threshold : UInt64) (now : Timestamp) : Bool :=
  decide (threshold.toNat < now.toNat - peer.lastSeen.toNat)

end DiscoveredPeer

/-- Peer discovery protocol. -/
structure PeerDiscovery where
  config : DiscoveryConfig
  discoveredPeers : Finmap fun _ : SocketAddr => DiscoveredPeer
  connectedPeers : Finset SocketAddr

namespace PeerDiscovery

/-- `clock` is what the clock says for each of the bootstrap peers. -/
def new (config : DiscoveryConfig) (clock : Nat → Timestamp) : PeerDiscovery where
  config := config
  discoveredPeers := config.bootstrapPeers.zipIdx.foldl
    (fun peers p => peers.insert p.1 (.new p.1 .bootstrap (clock p.2))) ∅
  connectedPeers := ∅

/-- Fewer addresses are known than may be. -/
def HasRoom (s : PeerDiscovery) : Prop :=
  s.discoveredPeers.keys.card < (s.config.maxPeers * 2).toNat

instance (s : PeerDiscovery) : Decidable s.HasRoom :=
  inferInstanceAs (Decidable (_ < _))

def addPeer (addr : SocketAddr) (source : PeerSource) (now : Timestamp) :
    Exec PeerDiscovery Unit := do
  let s ← get
  Exec.lift (ensure (decide s.HasRoom) (.networkError "Discovered peers limit reached"))
  let entry :=
    match s.discoveredPeers.lookup addr with
    | some peer => peer.updateLastSeen now
    | none => .new addr source now
  modify fun s => { s with discoveredPeers := s.discoveredPeers.insert addr entry }

/-- Each address comes with what the clock says for it. -/
def addPeers (source : PeerSource) : List (SocketAddr × Timestamp) → Exec PeerDiscovery Nat
  | [] => pure 0
  | (addr, now) :: peers => do
      let added ← (addPeer addr source now).isOk
      let count ← addPeers source peers
      pure (if added then count + 1 else count)

def markConnected (addr : SocketAddr) (now : Timestamp) : Exec PeerDiscovery Unit := do
  modify fun s => { s with connectedPeers := insert addr s.connectedPeers }
  match (← get).discoveredPeers.lookup addr with
  | some peer =>
      modify fun s =>
        { s with discoveredPeers := s.discoveredPeers.insert addr (peer.updateLastSeen now) }
  | none => pure ()

def markDisconnected (addr : SocketAddr) : Exec PeerDiscovery Unit :=
  modify fun s => { s with connectedPeers := s.connectedPeers.erase addr }

/-- The clock is read for each entry. -/
def cleanStalePeers (now : SocketAddr → Timestamp) : Exec PeerDiscovery Nat := do
  let s ← get
  let threshold := s.config.staleThreshold
  let kept := s.discoveredPeers.retain fun addr peer => !peer.isStale threshold (now addr)
  modify fun s => { s with discoveredPeers := kept }
  pure (s.discoveredPeers.keys.card - kept.keys.card)

/-- A call, and what it reads from the clock. -/
inductive Call
  | addPeer (addr : SocketAddr) (source : PeerSource) (now : Timestamp)
  | markConnected (addr : SocketAddr) (now : Timestamp)
  | markDisconnected (addr : SocketAddr)
  | cleanStalePeers (now : SocketAddr → Timestamp)

def step (s : PeerDiscovery) : Call → PeerDiscovery
  | .addPeer addr source now => (PeerDiscovery.addPeer addr source now).next s
  | .markConnected addr now => (PeerDiscovery.markConnected addr now).next s
  | .markDisconnected addr => (PeerDiscovery.markDisconnected addr).next s
  | .cleanStalePeers now => (PeerDiscovery.cleanStalePeers now).next s

/-- The entry for the address. -/
def entry (s : PeerDiscovery) (addr : SocketAddr) : Option DiscoveredPeer :=
  s.discoveredPeers.lookup addr

/-! ## The clock -/

/-- What the call reads lies between these times. -/
def Call.Between (first last : Timestamp) : Call → Prop
  | .addPeer _ _ now => first ≤ now ∧ now ≤ last
  | .markConnected _ now => first ≤ now ∧ now ≤ last
  | .markDisconnected _ => True
  | .cleanStalePeers now => ∀ addr, first ≤ now addr ∧ now addr ≤ last

/-- The clock does not go back, from this time on. -/
def InOrder : Timestamp → List Call → Prop
  | _, [] => True
  | first, call :: calls => ∃ last, call.Between first last ∧ first ≤ last ∧ InOrder last calls

/-! ## What is asked -/

/-- The address is known all the time. -/
def NeverRemoved (addr : SocketAddr) : PeerDiscovery → List Call → Prop :=
  Runs.Visits step fun s => (s.entry addr).isSome = true

/-- `add_peer` was called for the address at this time. -/
def AnnouncedAt (addr : SocketAddr) (calls : List Call) (now : Timestamp) : Prop :=
  ∃ source, .addPeer addr source now ∈ calls

/-- At every clean-up, no more than the threshold has gone by since `add_peer` was called, or
since the start. -/
def Announced (threshold : UInt64) (addr : SocketAddr) (start : Timestamp) (calls : List Call) :
    Prop :=
  ∀ before now after, calls = before ++ .cleanStalePeers now :: after →
    ∃ t, (t = start ∨ AnnouncedAt addr before t) ∧ (now addr).toNat ≤ t.toNat + threshold.toNat

/-- The call puts down the time as that when the address was last seen. -/
def Refreshes (addr : SocketAddr) (now : Timestamp) (s : PeerDiscovery) : Call → Prop
  | .addPeer addr' _ now' => addr' = addr ∧ now' = now ∧ s.HasRoom
  | .markConnected addr' now' => addr' = addr ∧ now' = now
  | _ => False

/-- One of the calls did so. -/
def RefreshedAt (addr : SocketAddr) (s : PeerDiscovery) (calls : List Call) (now : Timestamp) :
    Prop :=
  ∃ before call after, calls = before ++ call :: after ∧
    Refreshes addr now (Runs.run step s before) call

/-- At every clean-up, no more than the threshold has gone by since the time was put down, or
since it was put down before the run. -/
def Refreshed (addr : SocketAddr) (lastSeen : Timestamp) (s : PeerDiscovery) (calls : List Call) :
    Prop :=
  ∀ before now after, calls = before ++ .cleanStalePeers now :: after →
    ∃ t, (t = lastSeen ∨ RefreshedAt addr s before t) ∧
      (now addr).toNat ≤ t.toNat + s.config.staleThreshold.toNat

/-- Every announcement finds room. -/
def Admitted (addr : SocketAddr) : PeerDiscovery → List Call → Prop :=
  Runs.Along step fun s call =>
    match call with
    | .addPeer addr' _ _ => addr' = addr → s.HasRoom
    | _ => True

/-! ## One call -/

variable {s : PeerDiscovery} {addr : SocketAddr}

/-- The entry that `add_peer` puts into the table. -/
def added (s : PeerDiscovery) (addr : SocketAddr) (source : PeerSource) (now : Timestamp) :
    DiscoveredPeer :=
  match s.entry addr with
  | some peer => peer.updateLastSeen now
  | none => .new addr source now

/-- The table with another entry for the address. -/
def put (s : PeerDiscovery) (addr : SocketAddr) (peer : DiscoveredPeer) : PeerDiscovery :=
  { s with discoveredPeers := s.discoveredPeers.insert addr peer }

theorem entry_put (s : PeerDiscovery) (addr : SocketAddr) (peer : DiscoveredPeer) :
    (s.put addr peer).entry addr = some peer :=
  Finmap.lookup_insert s.discoveredPeers

theorem entry_put_of_ne (s : PeerDiscovery) {addr addr' : SocketAddr} (h : addr ≠ addr')
    (peer : DiscoveredPeer) : (s.put addr' peer).entry addr = s.entry addr :=
  Finmap.lookup_insert_of_ne s.discoveredPeers h

theorem lastSeen_added (s : PeerDiscovery) (addr : SocketAddr) (source : PeerSource)
    (now : Timestamp) : (s.added addr source now).lastSeen = now := by
  rw [added]
  cases s.entry addr with
  | none => rfl
  | some peer => rfl

theorem exec_addPeer_of_room (h : s.HasRoom) (addr : SocketAddr) (source : PeerSource)
    (now : Timestamp) :
    (addPeer addr source now).exec s = (.ok (), s.put addr (s.added addr source now)) := by
  rw [addPeer, Exec.exec_get_bind, Exec.exec_ensure_bind (decide_eq_true h)]
  rfl

theorem exec_addPeer_of_full (h : ¬s.HasRoom) (addr : SocketAddr) (source : PeerSource)
    (now : Timestamp) :
    (addPeer addr source now).exec s =
      (fail (.networkError "Discovered peers limit reached"), s) := by
  rw [addPeer, Exec.exec_get_bind, decide_eq_false h]
  rfl

theorem step_addPeer (s : PeerDiscovery) (addr : SocketAddr) (source : PeerSource)
    (now : Timestamp) :
    s.step (.addPeer addr source now) =
      if s.HasRoom then s.put addr (s.added addr source now) else s := by
  rw [step]
  split
  · next h => exact Exec.next_of_ok (exec_addPeer_of_room h addr source now)
  · next h => exact Exec.next_of_error (exec_addPeer_of_full h addr source now)

theorem exec_isOk_addPeer (s : PeerDiscovery) (addr : SocketAddr) (source : PeerSource)
    (now : Timestamp) :
    ∃ added, (addPeer addr source now).isOk.exec s =
      (.ok added, s.step (.addPeer addr source now)) := by
  rw [step_addPeer, Exec.exec_isOk]
  by_cases h : s.HasRoom
  · rw [if_pos h, exec_addPeer_of_room h]
    exact ⟨true, rfl⟩
  · rw [if_neg h, exec_addPeer_of_full h]
    exact ⟨false, rfl⟩

theorem next_addPeers (source : PeerSource) (peers : List (SocketAddr × Timestamp))
    (s : PeerDiscovery) :
    (addPeers source peers).next s =
      Runs.run step s (peers.map fun p => .addPeer p.1 source p.2) := by
  have hexec : ∃ count, (addPeers source peers).exec s =
      (.ok count, Runs.run step s (peers.map fun p => .addPeer p.1 source p.2)) := by
    induction peers generalizing s with
    | nil => exact ⟨0, rfl⟩
    | cons p peers ih =>
        obtain ⟨added, hadd⟩ := exec_isOk_addPeer s p.1 source p.2
        obtain ⟨count, hrest⟩ := ih (s.step (.addPeer p.1 source p.2))
        refine ⟨if added then count + 1 else count, ?_⟩
        rw [addPeers, Exec.exec_bind, hadd]
        simp only [Exec.exec_bind, hrest]
        rfl
  obtain ⟨count, hexec⟩ := hexec
  exact Exec.next_of_ok hexec

theorem step_markConnected (s : PeerDiscovery) (addr : SocketAddr) (now : Timestamp) :
    s.step (.markConnected addr now) =
      match s.entry addr with
      | some peer =>
          { s with connectedPeers := insert addr s.connectedPeers }.put addr
            (peer.updateLastSeen now)
      | none => { s with connectedPeers := insert addr s.connectedPeers } := by
  rw [step, markConnected, entry]
  cases hentry : s.discoveredPeers.lookup addr with
  | none =>
      refine Exec.next_of_ok (a := ()) ?_
      rw [Exec.exec_modify_bind, Exec.exec_get_bind]
      simp only [hentry]
      rfl
  | some peer =>
      refine Exec.next_of_ok (a := ()) ?_
      rw [Exec.exec_modify_bind, Exec.exec_get_bind]
      simp only [hentry]
      rfl

theorem entry_cleanStalePeers (s : PeerDiscovery) (now : SocketAddr → Timestamp)
    (addr : SocketAddr) (peer : DiscoveredPeer) :
    (s.step (.cleanStalePeers now)).entry addr = some peer ↔
      s.entry addr = some peer ∧ peer.isStale s.config.staleThreshold (now addr) = false := by
  show (s.discoveredPeers.retain fun addr peer =>
    !peer.isStale s.config.staleThreshold (now addr)).lookup addr = some peer ↔ _
  rw [Finmap.lookup_retain_eq_some, Bool.not_eq_true']
  rfl

theorem config_step (s : PeerDiscovery) (call : Call) : (s.step call).config = s.config := by
  cases call with
  | addPeer addr source now =>
      rw [step_addPeer]
      split
      · rfl
      · rfl
  | markConnected addr now =>
      rw [step_markConnected]
      cases s.entry addr with
      | none => rfl
      | some peer => rfl
  | markDisconnected addr => rfl
  | cleanStalePeers now => rfl

theorem config_run (s : PeerDiscovery) (calls : List Call) :
    (Runs.run step s calls).config = s.config :=
  Runs.run_preserves (I := fun s' => s'.config = s.config)
    (fun s' call h => (config_step s' call).trans h) rfl calls

/-- **What a call does to an entry**: it puts down the time, or drops the entry as stale, or
leaves it as it was. -/
theorem entry_step_cases {peer : DiscoveredPeer} (h : s.entry addr = some peer) (call : Call) :
    (∃ now, Refreshes addr now s call ∧
      (s.step call).entry addr = some (peer.updateLastSeen now)) ∨
    (∃ now, call = .cleanStalePeers now ∧
      peer.isStale s.config.staleThreshold (now addr) = true ∧ (s.step call).entry addr = none) ∨
    (∀ now, ¬Refreshes addr now s call) ∧ (s.step call).entry addr = some peer ∧
      ∀ now, call = .cleanStalePeers now →
        peer.isStale s.config.staleThreshold (now addr) = false := by
  cases call with
  | addPeer addr' source now =>
      rw [step_addPeer]
      by_cases hroom : s.HasRoom
      · rw [if_pos hroom]
        rcases eq_or_ne addr addr' with rfl | hne
        · refine Or.inl ⟨now, ⟨rfl, rfl, hroom⟩, ?_⟩
          rw [entry_put, added, h]
        · refine Or.inr (Or.inr ⟨?_, ?_, nofun⟩)
          · rintro now' ⟨heq, -⟩
            exact hne heq.symm
          · rw [entry_put_of_ne s hne, h]
      · rw [if_neg hroom]
        refine Or.inr (Or.inr ⟨?_, h, nofun⟩)
        rintro now' ⟨-, -, hroom'⟩
        exact hroom hroom'
  | markConnected addr' now =>
      rw [step_markConnected]
      rcases eq_or_ne addr addr' with rfl | hne
      · refine Or.inl ⟨now, ⟨rfl, rfl⟩, ?_⟩
        rw [h]
        exact entry_put _ addr _
      · refine Or.inr (Or.inr ⟨?_, ?_, nofun⟩)
        · rintro now' ⟨heq, -⟩
          exact hne heq.symm
        · cases s.entry addr' with
          | none => exact h
          | some peer' => exact (entry_put_of_ne _ hne _).trans h
  | markDisconnected addr' => exact Or.inr (Or.inr ⟨fun _ => not_false, h, nofun⟩)
  | cleanStalePeers now =>
      cases hstale : peer.isStale s.config.staleThreshold (now addr) with
      | false =>
          refine Or.inr (Or.inr ⟨fun _ => not_false, ?_, ?_⟩)
          · exact (entry_cleanStalePeers s now addr peer).mpr ⟨h, hstale⟩
          · intro now' hnow
            obtain rfl := Call.cleanStalePeers.inj hnow
            exact hstale
      | true =>
          refine Or.inr (Or.inl ⟨now, rfl, hstale, ?_⟩)
          rw [Option.eq_none_iff_forall_ne_some]
          intro peer' hpeer'
          obtain ⟨hbefore, hfresh⟩ := (entry_cleanStalePeers s now addr peer').mp hpeer'
          obtain rfl := Option.some.inj (h.symm.trans hbefore)
          rw [hstale] at hfresh
          cases hfresh

/-! ## What the entries say -/

/-- No entry is from later than that. -/
def SeenBy (now : Timestamp) (s : PeerDiscovery) : Prop :=
  ∀ addr peer, s.entry addr = some peer → peer.lastSeen ≤ now

theorem seenBy_put {now : Timestamp} {peer : DiscoveredPeer} (h : s.SeenBy now)
    (hpeer : peer.lastSeen ≤ now) : (s.put addr peer).SeenBy now := by
  intro addr' peer' hentry
  rcases eq_or_ne addr' addr with rfl | hne
  · rw [entry_put] at hentry
    obtain rfl := Option.some.inj hentry
    exact hpeer
  · rw [entry_put_of_ne s hne] at hentry
    exact h addr' peer' hentry

theorem seenBy_step {first last : Timestamp} (h : s.SeenBy first) {call : Call}
    (hbetween : call.Between first last) (hle : first ≤ last) : (s.step call).SeenBy last := by
  have hlater : s.SeenBy last := fun addr peer hentry => UInt64.le_trans (h addr peer hentry) hle
  cases call with
  | addPeer addr source now =>
      rw [step_addPeer]
      split
      · refine seenBy_put hlater ?_
        rw [lastSeen_added]
        exact hbetween.2
      · exact hlater
  | markConnected addr now =>
      rw [step_markConnected]
      cases s.entry addr with
      | none => exact hlater
      | some peer => exact seenBy_put hlater hbetween.2
  | markDisconnected addr => exact hlater
  | cleanStalePeers now =>
      intro addr peer hentry
      exact hlater addr peer ((entry_cleanStalePeers s now addr peer).mp hentry).1

theorem inOrder_append {first : Timestamp} {calls calls' : List Call} (h : s.SeenBy first)
    (horder : InOrder first (calls ++ calls')) :
    InOrder first calls ∧
      ∃ last, (Runs.run step s calls).SeenBy last ∧ InOrder last calls' := by
  induction calls generalizing s first with
  | nil => exact ⟨trivial, first, h, horder⟩
  | cons call calls ih =>
      obtain ⟨last, hbetween, hle, hrest⟩ := horder
      obtain ⟨hcalls, hlast⟩ := ih (seenBy_step h hbetween hle) hrest
      exact ⟨⟨last, hbetween, hle, hcalls⟩, hlast⟩

theorem seenBy_new {config : DiscoveryConfig} {clock : Nat → Timestamp} {first : Timestamp}
    (h : ∀ n, clock n ≤ first) : (new config clock).SeenBy first := by
  let Old (peers : Finmap fun _ : SocketAddr => DiscoveredPeer) : Prop :=
    ∀ addr peer, peers.lookup addr = some peer → peer.lastSeen ≤ first
  refine List.foldlRecOn (motive := Old) _ _ ?_ ?_
  · intro addr peer hentry
    rw [Finmap.lookup_empty] at hentry
    cases hentry
  · intro peers hpeers p _
    exact seenBy_put (s := ⟨config, peers, ∅⟩) hpeers (h p.2)

/-- Of the times that were put down for the address, the entry has the last. -/
structure LastRefreshed (addr : SocketAddr) (lastSeen : Timestamp) (s : PeerDiscovery)
    (calls : List Call) (peer : DiscoveredPeer) : Prop where
  putDown : peer.lastSeen = lastSeen ∨ RefreshedAt addr s calls peer.lastSeen
  latest : ∀ t, t = lastSeen ∨ RefreshedAt addr s calls t → t ≤ peer.lastSeen

theorem refreshedAt_concat {calls : List Call} {call : Call} {now : Timestamp} :
    RefreshedAt addr s (calls ++ [call]) now ↔
      RefreshedAt addr s calls now ∨ Refreshes addr now (Runs.run step s calls) call :=
  Runs.exists_split_concat
    (P := fun before call => Refreshes addr now (Runs.run step s before) call)

theorem refreshes_inj {now now' : Timestamp} {call : Call} (h : Refreshes addr now s call)
    (h' : Refreshes addr now' s call) : now = now' := by
  cases call with
  | addPeer addr' source t => exact h.2.1.symm.trans h'.2.1
  | markConnected addr' t => exact h.2.symm.trans h'.2
  | markDisconnected addr' => cases h
  | cleanStalePeers t => cases h

theorem le_of_refreshes {first last now : Timestamp} {call : Call}
    (hbetween : call.Between first last) (h : Refreshes addr now s call) : first ≤ now := by
  cases call with
  | addPeer addr' source t => exact h.2.1 ▸ hbetween.1
  | markConnected addr' t => exact h.2 ▸ hbetween.1
  | markDisconnected addr' => cases h
  | cleanStalePeers t => cases h

theorem exists_lastRefreshed {peer : DiscoveredPeer} (h : s.entry addr = some peer)
    {first : Timestamp} (hseen : s.SeenBy first) {calls : List Call}
    (horder : InOrder first calls) (hkept : NeverRemoved addr s calls) :
    ∃ peer', (Runs.run step s calls).entry addr = some peer' ∧
      LastRefreshed addr peer.lastSeen s calls peer' := by
  induction calls using List.reverseRecOn with
  | nil =>
      refine ⟨peer, h, Or.inl rfl, ?_⟩
      rintro t (rfl | ⟨before, call, after, hcalls, -⟩)
      · exact UInt64.le_refl _
      · cases before with
        | nil => cases hcalls
        | cons _ _ => cases hcalls
  | append_singleton calls call ih =>
      obtain ⟨hkeptBefore, hknown⟩ := Runs.visits_concat.mp hkept
      obtain ⟨horderBefore, time, hseenBefore, last, hbetween, -, -⟩ :=
        inOrder_append hseen horder
      obtain ⟨peer', hentry, hlast⟩ := ih horderBefore hkeptBefore
      rw [Runs.run_concat]
      rcases entry_step_cases hentry call with
        ⟨now, hrefreshes, hnext⟩ | ⟨now, rfl, hstale, hnext⟩ | ⟨hnot, hnext, -⟩
      · refine ⟨_, hnext, Or.inr (refreshedAt_concat.mpr (Or.inr hrefreshes)), ?_⟩
        have hlater : peer'.lastSeen ≤ now :=
          UInt64.le_trans (hseenBefore addr peer' hentry) (le_of_refreshes hbetween hrefreshes)
        rintro t (rfl | ht)
        · exact UInt64.le_trans (hlast.latest _ (Or.inl rfl)) hlater
        · rcases refreshedAt_concat.mp ht with ht | ht
          · exact UInt64.le_trans (hlast.latest t (Or.inr ht)) hlater
          · rw [refreshes_inj ht hrefreshes]
            exact UInt64.le_refl now
      · rw [hnext] at hknown
        cases hknown
      · refine ⟨peer', hnext, ?_, ?_⟩
        · exact hlast.putDown.imp_right fun ht => refreshedAt_concat.mpr (Or.inl ht)
        · rintro t (rfl | ht)
          · exact hlast.latest _ (Or.inl rfl)
          · rcases refreshedAt_concat.mp ht with ht | ht
            · exact hlast.latest t (Or.inr ht)
            · exact absurd ht (hnot t)

/-! ## Runs -/

theorem forall_cleanStalePeers_concat {P : List Call → (SocketAddr → Timestamp) → Prop}
    {calls : List Call} {call : Call} :
    (∀ before now after, calls ++ [call] = before ++ .cleanStalePeers now :: after →
        P before now) ↔
      (∀ before now after, calls = before ++ .cleanStalePeers now :: after → P before now) ∧
        ∀ now, call = .cleanStalePeers now → P calls now := by
  -- a clean-up is one kind of call
  have hkind : ∀ calls : List Call,
      (∀ before now after, calls = before ++ .cleanStalePeers now :: after → P before now) ↔
        ∀ before call after, calls = before ++ call :: after →
          ∀ now, call = .cleanStalePeers now → P before now := by
    intro calls
    constructor
    · rintro h before call after hcalls now rfl
      exact h before now after hcalls
    · intro h before now after hcalls
      exact h before _ after hcalls now rfl
  rw [hkind, hkind]
  exact Runs.forall_split_concat

/-- A clean-up leaves the entry exactly if one of the times that were put down is recent
enough. -/
theorem not_stale_iff {lastSeen : Timestamp} {calls : List Call} {peer : DiscoveredPeer}
    (h : LastRefreshed addr lastSeen s calls peer) (threshold : UInt64) (now : Timestamp) :
    peer.isStale threshold now = false ↔
      ∃ t, (t = lastSeen ∨ RefreshedAt addr s calls t) ∧
        now.toNat ≤ t.toNat + threshold.toNat := by
  have hstale : peer.isStale threshold now = false ↔
      now.toNat ≤ peer.lastSeen.toNat + threshold.toNat := by
    rw [DiscoveredPeer.isStale, decide_eq_false_iff_not]
    omega
  rw [hstale]
  constructor
  · intro hrecent
    exact ⟨peer.lastSeen, h.putDown, hrecent⟩
  · rintro ⟨t, ht, hrecent⟩
    have hle := UInt64.le_iff_toNat_le.mp (h.latest t ht)
    omega

theorem neverRemoved_iff {peer : DiscoveredPeer} (h : s.entry addr = some peer)
    {first : Timestamp} (hseen : s.SeenBy first) {calls : List Call}
    (horder : InOrder first calls) :
    NeverRemoved addr s calls ↔ Refreshed addr peer.lastSeen s calls := by
  induction calls using List.reverseRecOn with
  | nil =>
      refine iff_of_true ?_ ?_
      · show (s.entry addr).isSome = true
        rw [h]
        rfl
      · intro before now after hcalls
        cases before with
        | nil => cases hcalls
        | cons _ _ => cases hcalls
  | append_singleton calls call ih =>
      obtain ⟨horderBefore, -⟩ := inOrder_append hseen horder
      rw [NeverRemoved, Runs.visits_concat, ← NeverRemoved, ih horderBefore, Refreshed, Refreshed,
        forall_cleanStalePeers_concat]
      refine and_congr_right ?_
      intro hrefreshed
      obtain ⟨peer', hentry, hlast⟩ :=
        exists_lastRefreshed h hseen horderBefore ((ih horderBefore).mpr hrefreshed)
      have hfresh := not_stale_iff hlast s.config.staleThreshold
      have hcases := entry_step_cases hentry call
      rw [config_run s calls] at hcases
      rcases hcases with
        ⟨now, hrefreshes, hnext⟩ | ⟨now, rfl, hstale, hnext⟩ | ⟨-, hnext, hkeep⟩
      · rw [hnext]
        refine iff_of_true rfl ?_
        rintro now' rfl
        cases hrefreshes
      · rw [hnext]
        refine iff_of_false Bool.false_ne_true ?_
        intro hall
        have hnot := (hfresh (now addr)).mpr (hall now rfl)
        rw [hstale] at hnot
        cases hnot
      · rw [hnext]
        refine iff_of_true rfl ?_
        intro now hcall
        exact (hfresh (now addr)).mp (hkeep now hcall)

theorem refreshed_of_admitted {lastSeen : Timestamp} {calls : List Call}
    (hannounced : Announced s.config.staleThreshold addr lastSeen calls)
    (hadmitted : Admitted addr s calls) : Refreshed addr lastSeen s calls := by
  rintro before now after rfl
  obtain ⟨t, ht, hrecent⟩ := hannounced before now after rfl
  refine ⟨t, ht.imp_right ?_, hrecent⟩
  rintro ⟨source, hmem⟩
  obtain ⟨earlier, later, rfl⟩ := List.append_of_mem hmem
  rw [Admitted, List.append_assoc, Runs.along_append] at hadmitted
  exact ⟨earlier, _, later, rfl, rfl, rfl, hadmitted.2.1 rfl⟩

/-- **Who is kept.**  From any point of a run on, an address that is known stays so exactly if
the time is put down for it often enough; and it does if it announces itself often enough and
every announcement finds room. -/
theorem kept_iff {config : DiscoveryConfig} {clock : Nat → Timestamp} {first : Timestamp}
    (hclock : ∀ n, clock n ≤ first) {earlier calls : List Call}
    (horder : InOrder first (earlier ++ calls)) {addr : SocketAddr} {peer : DiscoveredPeer}
    (h : (Runs.run step (new config clock) earlier).entry addr = some peer) :
    (NeverRemoved addr (Runs.run step (new config clock) earlier) calls ↔
      Refreshed addr peer.lastSeen (Runs.run step (new config clock) earlier) calls) ∧
    (Announced config.staleThreshold addr peer.lastSeen calls →
      Admitted addr (Runs.run step (new config clock) earlier) calls →
        NeverRemoved addr (Runs.run step (new config clock) earlier) calls) := by
  obtain ⟨-, last, hseen, horder'⟩ := inOrder_append (seenBy_new hclock) horder
  have hiff := neverRemoved_iff h hseen horder'
  refine ⟨hiff, ?_⟩
  intro hannounced hadmitted
  refine hiff.mpr (refreshed_of_admitted ?_ hadmitted)
  rw [config_run]
  exact hannounced

end PeerDiscovery

/-! ## A table for two -/

namespace Reference

def address (port : UInt16) : SocketAddr := .v4 (List.Vector.replicate 4 127) port

/-- One bootstrap peer, no more than two addresses, and ten seconds to announce oneself. -/
def discoveryConfig : DiscoveryConfig := ⟨[address 1], 1, 10⟩

/-- The bootstrap peer at the time 0, and another at the time 1. -/
def earlierCalls : List PeerDiscovery.Call := [.addPeer (address 2) .peer 1]

/-- The bootstrap peer announces itself at the time 9, and the table is cleaned up at 11. -/
def laterCalls : List PeerDiscovery.Call :=
  [.addPeer (address 1) .peer 9, .cleanStalePeers fun _ => 11]

/-- It is connected to at the time 9, and the table is cleaned up at 11. -/
def connectedCalls : List PeerDiscovery.Call :=
  [.markConnected (address 1) 9, .cleanStalePeers fun _ => 11]

end Reference

namespace PeerDiscovery
open Reference (address discoveryConfig earlierCalls laterCalls connectedCalls)

theorem inOrder_sample : InOrder 0 (earlierCalls ++ laterCalls) := by
  refine ⟨1, ⟨by decide, by decide⟩, by decide, 9, ⟨by decide, by decide⟩, by decide, 11, ?_,
    by decide, trivial⟩
  intro addr
  show (9 : Timestamp) ≤ 11 ∧ (11 : Timestamp) ≤ 11
  exact ⟨by decide, by decide⟩

theorem inOrder_connected : InOrder 0 (earlierCalls ++ connectedCalls) := by
  refine ⟨1, ⟨by decide, by decide⟩, by decide, 9, ⟨by decide, by decide⟩, by decide, 11, ?_,
    by decide, trivial⟩
  intro addr
  show (9 : Timestamp) ≤ 11 ∧ (11 : Timestamp) ≤ 11
  exact ⟨by decide, by decide⟩

theorem entry_sample :
    (Runs.run step (new discoveryConfig fun _ => 0) earlierCalls).entry (address 1) =
      some (.new (address 1) .bootstrap 0) := by
  rfl

/-- The bootstrap peer connects in time, and is kept. -/
theorem kept_iff_sample :
    NeverRemoved (address 1) (Runs.run step (new discoveryConfig fun _ => 0) earlierCalls)
      connectedCalls := by
  refine (kept_iff (fun _ => UInt64.le_refl 0) inOrder_connected entry_sample).1.mpr ?_
  intro before now after hcalls
  cases before with
  | nil => cases hcalls
  | cons call before =>
      cases before with
      | nil =>
          cases hcalls
          exact ⟨9, Or.inr ⟨[], .markConnected (address 1) 9, [], rfl, rfl, rfl⟩, by decide⟩
      | cons call' before =>
          cases before with
          | nil => cases hcalls
          | cons call'' before => cases hcalls

/-- The bootstrap peer announces itself, two seconds before the clean-up that drops it. -/
theorem dropped_though_announced :
    InOrder 0 (earlierCalls ++ laterCalls) ∧
      ((Runs.run step (new discoveryConfig fun _ => 0) earlierCalls).entry (address 1)).isSome =
        true ∧
      Announced 10 (address 1) 1 laterCalls ∧
      ¬NeverRemoved (address 1) (Runs.run step (new discoveryConfig fun _ => 0) earlierCalls)
        laterCalls := by
  have hfull : ¬(Runs.run step (new discoveryConfig fun _ => 0) earlierCalls).HasRoom := by
    decide
  refine ⟨inOrder_sample, ?_, ?_, ?_⟩
  · rw [entry_sample]
    rfl
  · intro before now after hcalls
    cases before with
    | nil => cases hcalls
    | cons call before =>
        cases before with
        | nil =>
            obtain ⟨rfl, hrest⟩ := List.cons.inj hcalls
            obtain rfl := Call.cleanStalePeers.inj (List.cons.inj hrest).1
            exact ⟨9, Or.inr ⟨.peer, List.mem_singleton_self _⟩, by decide⟩
        | cons _ before =>
            cases before with
            | nil => cases hcalls
            | cons _ _ => cases hcalls
  · rintro ⟨-, -, h⟩
    rw [step_addPeer, if_neg hfull] at h
    rcases entry_step_cases entry_sample (.cleanStalePeers fun _ => 11) with
      ⟨now, hrefreshes, -⟩ | ⟨now, -, -, hnone⟩ | ⟨-, -, hfresh⟩
    · cases hrefreshes
    · rw [Runs.Visits, hnone] at h
      cases h
    · have hstale := hfresh _ rfl
      rw [config_run] at hstale
      revert hstale
      decide

end PeerDiscovery

end VotingChain
