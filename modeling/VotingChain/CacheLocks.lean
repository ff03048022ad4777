/-
# `VotingChain.CacheLocks` — the order in which the caches are locked

`Cache` of `storage/src/cache.rs` keeps each of its maps behind a lock of its own.  Here the
methods are the sequences of what they lock, change and release, and any number of threads
call them.  A guard bound by `let` lives to the end of the method; one that is made in a
statement lives to the end of the statement, and one in the scrutinee of an `if let` to the
end of its block.

The methods that hold two locks take the block lock first, then the height lock.  All but
one: the block of `remove_block_by_height` locks the blocks while the guard of the heights is
alive.  The two orders cross in a deadlock (`deadlock_iff`), which a run avoids just as long
as the one is not begun while the other is under way (`not_deadlock_iff`).
-/
import VotingChain.Lib.Locks
import VotingChain.Cache

namespace VotingChain

/-- The locks of a cache. -/
inductive CacheLock where
  | block
  | height
  | tx
  | state
  deriving DecidableEq

namespace Cache
open Locks (Code Mode Thread State Event Always)

variable {L : LruCrate}

/-- What is left of a method of a cache. -/
abbrev CacheCode (L : LruCrate) := Code CacheLock (Cache L)

/-! ## The methods -/

def putBlockCode (hash : BlockHash) (height : BlockHeight) (data : Bytes) : CacheCode L :=
  .lock .block .write <| .lock .height .write <|
    .access (·.putBlock hash height data) fun _ => .unlock .height <| .unlock .block .done

def getBlockCode (hash : BlockHash) : CacheCode L :=
  .locked .block .write (fun c => (c.getBlock hash).2) .done

def getBlockHashByHeightCode (height : BlockHeight) : CacheCode L :=
  .locked .height .write (fun c => (c.getBlockHashByHeight height).2) .done

def getBlockByHeightCode (height : BlockHeight) : CacheCode L :=
  .lock .height .write <| .access (fun c => (c.getBlockHashByHeight height).2) fun c =>
    .unlock .height <|
      match (c.getBlockHashByHeight height).1 with
      | some hash => getBlockCode hash
      | none => .done

def removeBlockCode (hash : BlockHash) : CacheCode L :=
  .locked .block .write (·.removeBlock hash) .done

/-- The block of the `if let` of `remove_block_by_height`.  It ends with the guard of the
scrutinee. -/
def removeFoundCode : Option BlockHash → CacheCode L
  | some hash => .locked .block .write (·.removeBlock hash) <| .unlock .height .done
  | none => .unlock .height .done

/-- The scrutinee of the `if let`, and what comes after it. -/
def popHeightCode (height : BlockHeight) : CacheCode L :=
  .access (fun c => { c with heightCache := (L BlockHeight BlockHash).pop c.heightCache height })
    fun c => removeFoundCode (c.hashAt height)

def removeBlockByHeightCode (height : BlockHeight) : CacheCode L :=
  .lock .height .write (popHeightCode height)

def clearBlocksCode (next : CacheCode L) : CacheCode L :=
  .locked .block .write
    (fun c => { c with blockCache := (L BlockHash Bytes).clear c.blockCache }) <|
  .locked .height .write
    (fun c => { c with heightCache := (L BlockHeight BlockHash).clear c.heightCache }) next

/-- The methods that resize return at once where the capacity is zero. -/
def resizeCode (newCapacity : Nat) (code : Capacity → CacheCode L) : CacheCode L :=
  match nonZero newCapacity "Capacity must be > 0" with
  | .ok newSize => code newSize
  | .error _ => .done

def resizeBlockCacheCode (newCapacity : Nat) : CacheCode L :=
  resizeCode newCapacity fun newSize =>
    .locked .block .write
      (fun c => { c with blockCache := (L BlockHash Bytes).resize c.blockCache newSize }) <|
    .locked .height .write
      (fun c => { c with heightCache := (L BlockHeight BlockHash).resize c.heightCache newSize })
      .done

def clearTransactionsCode (next : CacheCode L) : CacheCode L :=
  .locked .tx .write clearTransactions next

def clearStateCode (next : CacheCode L) : CacheCode L := .locked .state .write clearState next

def resizeTxCacheCode (newCapacity : Nat) : CacheCode L :=
  resizeCode newCapacity fun newSize =>
    .locked .tx .write
      (fun c => { c with txCache := (L TxId Bytes).resize c.txCache newSize }) .done

def resizeStateCacheCode (newCapacity : Nat) : CacheCode L :=
  resizeCode newCapacity fun newSize =>
    .locked .state .write
      (fun c => { c with stateCache := (L Bytes Bytes).resize c.stateCache newSize }) .done

def clearAllCode : CacheCode L :=
  clearBlocksCode <| clearTransactionsCode <| clearStateCode .done

/-- The four read guards live until the statistics are returned. -/
def getStatsCode : CacheCode L :=
  .lock .block .read <| .lock .height .read <| .lock .tx .read <| .lock .state .read <|
    .access id fun _ => .unlock .state <| .unlock .tx <| .unlock .height <| .unlock .block .done

/-- A method a thread may call. -/
inductive Method where
  | call (c : Call)
  | getStats

/-- What the call of a method does. -/
def program : Method → CacheCode L
  | .call (.putBlock hash height data) => putBlockCode hash height data
  | .call (.getBlock hash) => getBlockCode hash
  | .call (.getBlockHashByHeight height) => getBlockHashByHeightCode height
  | .call (.getBlockByHeight height) => getBlockByHeightCode height
  | .call (.removeBlock hash) => removeBlockCode hash
  | .call (.removeBlockByHeight height) => removeBlockByHeightCode height
  | .call .clearBlocks => clearBlocksCode .done
  | .call (.resizeBlockCache newCapacity) => resizeBlockCacheCode newCapacity
  | .call (.putTransaction txId data) => .locked .tx .write (·.putTransaction txId data) .done
  | .call (.getTransaction txId) => .locked .tx .write (fun c => (c.getTransaction txId).2) .done
  | .call (.removeTransaction txId) => .locked .tx .write (·.removeTransaction txId) .done
  | .call .clearTransactions => clearTransactionsCode .done
  | .call (.resizeTxCache newCapacity) => resizeTxCacheCode newCapacity
  | .call (.putState key value) => .locked .state .write (·.putState key value) .done
  | .call (.getState key) => .locked .state .write (fun c => (c.getState key).2) .done
  | .call (.removeState key) => .locked .state .write (·.removeState key) .done
  | .call .clearState => clearStateCode .done
  | .call (.resizeStateCache newCapacity) => resizeStateCacheCode newCapacity
  | .call .clearAll => clearAllCode
  | .getStats => getStatsCode

/-! ## What a thread holds and wants -/

/-- The thread has the lock of the blocks, and is about to take that of the heights. -/
def BlockThenHeight (t : Thread CacheLock (Cache L)) : Prop :=
  (∃ m, (CacheLock.block, m) ∈ t.held) ∧ ∃ m, t.Wants .height m

/-- The thread has the lock of the heights, and is about to take that of the blocks. -/
def HeightThenBlock (t : Thread CacheLock (Cache L)) : Prop :=
  (CacheLock.height, Mode.write) ∈ t.held ∧ t.Wants .block .write

/-- The thread is at the beginning of `put_block` or of `get_stats`. -/
def BeginsWithBlock (t : Thread CacheLock (Cache L)) : Prop :=
  t.held = [] ∧
    ((∃ hash height data, t.code = putBlockCode hash height data) ∨ t.code = getStatsCode)

/-- The thread is at the pop of `remove_block_by_height`, and there is a hash at the height. -/
def FindsHash (c : Cache L) (t : Thread CacheLock (Cache L)) : Prop :=
  t.held = [(CacheLock.height, Mode.write)] ∧
    ∃ height, t.code = popHeightCode height ∧ c.hashAt height ≠ none

/-- The order in which `put_block` and `get_stats` take the locks. -/
def rank : CacheLock → Nat
  | .block => 0
  | .height => 1
  | .tx => 2
  | .state => 3

/-- The order in which `remove_block_by_height` does. -/
def rankOfRemoval : CacheLock → Nat
  | .height => 0
  | .block => 1
  | .tx => 2
  | .state => 3

/-- What holds of a thread at every point of every method: only two points are out of one
order or the other, and there is one way to come to each. -/
structure Disciplined (t : Thread CacheLock (Cache L)) : Prop where
  done : t.code = .done → t.held = []
  ordered : ¬HeightThenBlock t → t.Ordered rank
  orderedOfRemoval : ¬BlockThenHeight t → t.Ordered rankOfRemoval
  takesBlock : ∀ c, BlockThenHeight (t.advance c).2 → BeginsWithBlock t
  takesHeight : ∀ c, HeightThenBlock (t.advance c).2 → FindsHash c t

theorem BlockThenHeight.greedy {t : Thread CacheLock (Cache L)} (h : BlockThenHeight t) :
    t.Greedy := by
  obtain ⟨⟨m, hheld⟩, m', hwants⟩ := h
  exact ⟨List.ne_nil_of_mem hheld, _, m', hwants⟩

theorem HeightThenBlock.greedy {t : Thread CacheLock (Cache L)} (h : HeightThenBlock t) :
    t.Greedy :=
  ⟨List.ne_nil_of_mem h.1, _, _, h.2⟩

/-- Most points of a method: one lock at a time. -/
theorem disciplined_of_not_greedy {t : Thread CacheLock (Cache L)}
    (hdone : t.code = .done → t.held = []) (hnow : ¬t.Greedy)
    (hnext : ∀ c, ¬(t.advance c).2.Greedy) : Disciplined t where
  done := hdone
  ordered _ := Locks.ordered_of_not_greedy hnow
  orderedOfRemoval _ := Locks.ordered_of_not_greedy hnow
  takesBlock c h := absurd h.greedy (hnext c)
  takesHeight c h := absurd h.greedy (hnext c)

theorem always_done : Always Disciplined [] (.done : CacheCode L) :=
  disciplined_of_not_greedy (fun _ => rfl) (fun h => h.1 rfl) fun _ h => h.1 rfl

theorem always_unlock {held : List (CacheLock × Mode)} (rest : List (CacheLock × Mode))
    {l : CacheLock} {next : CacheCode L}
    (hrest : held.filter (fun h => decide (h.1 ≠ l)) = rest)
    (hnext : Always Disciplined rest next) (hquiet : ¬(⟨rest, next⟩ : Thread _ _).Greedy) :
    Always Disciplined held (.unlock l next) := by
  subst hrest
  refine ⟨disciplined_of_not_greedy (fun h => by cases h) ?_ fun _ => hquiet, hnext⟩
  rintro ⟨-, l', m', h⟩
  exact Locks.not_wants_unlock h

theorem always_access {held : List (CacheLock × Mode)} {change : Cache L → Cache L}
    {next : Cache L → CacheCode L} (hnext : ∀ c, Always Disciplined held (next c))
    (hquiet : ∀ c, ¬(⟨held, next c⟩ : Thread _ _).Greedy) :
    Always Disciplined held (.access change next) := by
  refine ⟨disciplined_of_not_greedy (fun h => by cases h) ?_ hquiet, hnext⟩
  rintro ⟨-, l', m', h⟩
  exact Locks.not_wants_access h

theorem not_greedy_of_nil {code : CacheCode L} : ¬(⟨[], code⟩ : Thread _ _).Greedy :=
  fun h => h.1 rfl

theorem not_greedy_unlock {held : List (CacheLock × Mode)} {l : CacheLock} {next : CacheCode L} :
    ¬(⟨held, .unlock l next⟩ : Thread _ _).Greedy := by
  rintro ⟨-, l', m', h⟩
  exact Locks.not_wants_unlock h

theorem not_greedy_access {held : List (CacheLock × Mode)} {change : Cache L → Cache L}
    {next : Cache L → CacheCode L} : ¬(⟨held, .access change next⟩ : Thread _ _).Greedy := by
  rintro ⟨-, l', m', h⟩
  exact Locks.not_wants_access h

theorem always_locked {l : CacheLock} {m : Mode} {change : Cache L → Cache L} {next : CacheCode L}
    (hnext : Always Disciplined [] next) : Always Disciplined [] (.locked l m change next) := by
  have hreleased : [(l, m)].filter (fun h => decide (h.1 ≠ l)) = [] := by simp
  refine ⟨disciplined_of_not_greedy (fun h => by cases h) not_greedy_of_nil
    fun _ => not_greedy_access, ?_⟩
  exact always_access (fun _ => always_unlock [] hreleased hnext not_greedy_of_nil)
    fun _ => not_greedy_unlock

/-- At a point where the thread holds locks and is about to take one that is above them in
either order, and would not be with the heights. -/
theorem disciplined_lock {held : List (CacheLock × Mode)} {l : CacheLock} {m : Mode}
    {next : CacheCode L} (habove : ∀ h ∈ held, rank h.1 < rank l)
    (hheight : l = .height → ∃ m, (CacheLock.block, m) ∈ held)
    (habove' : l ≠ .height → ∀ h ∈ held, rankOfRemoval h.1 < rankOfRemoval l)
    (hnext : ∀ m', ¬(⟨(l, m) :: held, next⟩ : Thread CacheLock (Cache L)).Wants .height m')
    (hnext' : ¬(⟨(l, m) :: held, next⟩ : Thread CacheLock (Cache L)).Wants .block .write) :
    Disciplined (⟨held, .lock l m next⟩ : Thread CacheLock (Cache L)) where
  done h := by cases h
  ordered _ := Locks.ordered_lock habove
  orderedOfRemoval hnot := by
    refine Locks.ordered_lock (habove' ?_)
    rintro rfl
    exact hnot ⟨hheight rfl, m, next, rfl⟩
  takesBlock _ h := by
    obtain ⟨-, m', hwants⟩ := h
    exact absurd hwants (hnext m')
  takesHeight _ h := absurd h.2 hnext'

/-! ## One method after the other -/

theorem always_putBlockCode (hash : BlockHash) (height : BlockHeight) (data : Bytes) :
    Always Disciplined [] (putBlockCode hash height data : CacheCode L) := by
  refine ⟨?_, ?_, ?_⟩
  · -- the beginning
    refine ⟨fun h => (by cases h), fun _ => Locks.ordered_of_not_greedy not_greedy_of_nil,
      fun _ => Locks.ordered_of_not_greedy not_greedy_of_nil, ?_, ?_⟩
    · exact fun _ _ => ⟨rfl, Or.inl ⟨hash, height, data, rfl⟩⟩
    · rintro c ⟨hheld, -⟩
      cases hheld with
      | tail _ h => cases h
  · -- with the lock of the blocks
    exact disciplined_lock (by simp [rank]) (fun _ => ⟨.write, List.mem_cons_self⟩) (by simp)
      (fun _ => Locks.not_wants_access) Locks.not_wants_access
  · refine always_access (fun _ => ?_) fun _ => not_greedy_unlock
    refine always_unlock [(.block, .write)] rfl ?_ not_greedy_unlock
    exact always_unlock [] rfl always_done not_greedy_of_nil

theorem always_getBlockByHeightCode (height : BlockHeight) :
    Always Disciplined [] (getBlockByHeightCode height : CacheCode L) := by
  refine ⟨disciplined_of_not_greedy (fun h => by cases h) not_greedy_of_nil
    fun _ => not_greedy_access, ?_⟩
  refine always_access (fun c => ?_) fun _ => not_greedy_unlock
  refine always_unlock [] rfl ?_ not_greedy_of_nil
  cases (c.getBlockHashByHeight height).1 with
  | none => exact always_done
  | some hash => exact always_locked always_done

theorem always_removeBlockByHeightCode (height : BlockHeight) :
    Always Disciplined [] (removeBlockByHeightCode height : CacheCode L) := by
  refine ⟨disciplined_of_not_greedy (fun h => by cases h) not_greedy_of_nil
    fun _ => not_greedy_access, ?_, ?_⟩
  · -- at the pop
    refine ⟨fun h => (by cases h), fun _ => Locks.ordered_of_not_greedy not_greedy_access,
      fun _ => Locks.ordered_of_not_greedy not_greedy_access, ?_, ?_⟩
    · rintro c ⟨⟨m, hheld⟩, -⟩
      cases hheld with
      | tail _ h => cases h
    · intro c h
      refine ⟨rfl, height, rfl, ?_⟩
      intro hnone
      have hwants : (⟨[(.height, .write)], removeFoundCode (c.hashAt height)⟩ :
        Thread CacheLock (Cache L)).Wants .block .write := h.2
      rw [hnone] at hwants
      exact Locks.not_wants_unlock hwants
  · intro c
    show Always Disciplined [(.height, .write)] (removeFoundCode (c.hashAt height))
    cases c.hashAt height with
    | none =>
        exact always_unlock [] rfl always_done not_greedy_of_nil
    | some hash =>
        refine ⟨⟨fun h => (by cases h), ?_, ?_, ?_, ?_⟩, ?_⟩
        · exact fun h => absurd ⟨List.mem_cons_self, _, rfl⟩ h
        · intro _
          exact Locks.ordered_lock (by simp [rankOfRemoval])
        · exact fun _ h => absurd h.greedy not_greedy_access
        · exact fun _ h => absurd h.greedy not_greedy_access
        · refine always_access (fun _ => ?_) fun _ => not_greedy_unlock
          refine always_unlock [(.height, .write)] rfl ?_ not_greedy_unlock
          exact always_unlock [] rfl always_done not_greedy_of_nil

theorem always_getStatsCode : Always Disciplined [] (getStatsCode : CacheCode L) := by
  have hblock : ∀ {l : CacheLock} {m : Mode} {held : List (CacheLock × Mode)} {next : CacheCode L},
      l ≠ .block → ¬(⟨held, .lock l m next⟩ : Thread CacheLock (Cache L)).Wants .block .write :=
    fun hne h => hne (Locks.wants_lock.mp h).1
  have hheight : ∀ {l : CacheLock} {m m' : Mode} {held : List (CacheLock × Mode)}
      {next : CacheCode L}, l ≠ .height →
      ¬(⟨held, .lock l m next⟩ : Thread CacheLock (Cache L)).Wants .height m' :=
    fun hne h => hne (Locks.wants_lock.mp h).1
  refine ⟨?_, ?_, ?_, ?_, ?_⟩
  · -- the beginning
    refine ⟨fun h => (by cases h), fun _ => Locks.ordered_of_not_greedy not_greedy_of_nil,
      fun _ => Locks.ordered_of_not_greedy not_greedy_of_nil, ?_, ?_⟩
    · exact fun _ _ => ⟨rfl, Or.inr rfl⟩
    · exact fun _ h => absurd h.2 (hblock CacheLock.noConfusion)
  · exact disciplined_lock (by decide) (fun _ => ⟨.read, List.mem_cons_self⟩) (by decide)
      (fun _ => hheight CacheLock.noConfusion) (hblock CacheLock.noConfusion)
  · exact disciplined_lock (by decide) CacheLock.noConfusion (by decide)
      (fun _ => hheight CacheLock.noConfusion) (hblock CacheLock.noConfusion)
  · exact disciplined_lock (by decide) CacheLock.noConfusion (by decide)
      (fun _ => Locks.not_wants_access) Locks.not_wants_access
  · refine always_access (fun _ => ?_) fun _ => not_greedy_unlock
    refine always_unlock [(.tx, .read), (.height, .read), (.block, .read)] rfl ?_
      not_greedy_unlock
    refine always_unlock [(.height, .read), (.block, .read)] rfl ?_ not_greedy_unlock
    refine always_unlock [(.block, .read)] rfl ?_ not_greedy_unlock
    exact always_unlock [] rfl always_done not_greedy_of_nil

theorem always_resizeCode {newCapacity : Nat} {code : Capacity → CacheCode L}
    (hcode : ∀ newSize, Always Disciplined [] (code newSize)) :
    Always Disciplined [] (resizeCode newCapacity code) := by
  rw [resizeCode]
  cases nonZero newCapacity "Capacity must be > 0" with
  | error e => exact always_done
  | ok newSize => exact hcode newSize

theorem always_program (method : Method) :
    Always Disciplined [] (program method : CacheCode L) := by
  have hone : ∀ (l : CacheLock) (m : Mode) (change : Cache L → Cache L),
      Always Disciplined [] (.locked l m change .done) :=
    fun l m change => always_locked always_done
  cases method with
  | getStats => exact always_getStatsCode
  | call c =>
      cases c with
      | putBlock hash height data => exact always_putBlockCode hash height data
      | getBlock hash => exact hone _ _ _
      | getBlockHashByHeight height => exact hone _ _ _
      | getBlockByHeight height => exact always_getBlockByHeightCode height
      | removeBlock hash => exact hone _ _ _
      | removeBlockByHeight height => exact always_removeBlockByHeightCode height
      | clearBlocks => exact always_locked (hone _ _ _)
      | resizeBlockCache newCapacity => exact always_resizeCode fun _ => always_locked (hone _ _ _)
      | putTransaction txId data => exact hone _ _ _
      | getTransaction txId => exact hone _ _ _
      | removeTransaction txId => exact hone _ _ _
      | clearTransactions => exact hone _ _ _
      | resizeTxCache newCapacity => exact always_resizeCode fun _ => hone _ _ _
      | putState key value => exact hone _ _ _
      | getState key => exact hone _ _ _
      | removeState key => exact hone _ _ _
      | clearState => exact hone _ _ _
      | resizeStateCache newCapacity => exact always_resizeCode fun _ => hone _ _ _
      | clearAll =>
          exact always_locked (always_locked (always_locked (always_locked always_done)))

/-! ## Deadlocks -/

section Runs
variable {ι : Type}

/-- Threads that call the methods of a cache. -/
abbrev Threads (ι : Type) (L : LruCrate) := State ι CacheLock (Cache L)

/-- Every thread is at a point of a method. -/
def AllDisciplined (s : Threads ι L) : Prop :=
  ∀ i, Always Disciplined (s.threads i).held (s.threads i).code

/-- A thread between the lock of the blocks and that of the heights, and one between that of
the heights and that of the blocks. -/
def Crossed (s : Threads ι L) : Prop :=
  (∃ i, BlockThenHeight (s.threads i)) ∧ ∃ j, HeightThenBlock (s.threads j)

theorem deadlock_iff {s : Threads ι L} (h : AllDisciplined s) : s.Deadlock ↔ Crossed s := by
  constructor
  · intro hdeadlock
    constructor
    · by_contra hnone
      refine Locks.not_deadlock_of_ordered rankOfRemoval (fun i => ?_) hdeadlock
      exact (h i).here.orderedOfRemoval fun hi => hnone ⟨i, hi⟩
    · by_contra hnone
      refine Locks.not_deadlock_of_ordered rank (fun i => ?_) hdeadlock
      exact (h i).here.ordered fun hi => hnone ⟨i, hi⟩
  · rintro ⟨⟨i, ⟨m, hheld⟩, m', hwants⟩, j, hheld', hwants'⟩
    exact Locks.deadlock_of_crossed hwants hheld hwants' hheld'

theorem allDisciplined_start (c : Cache L) : AllDisciplined (State.start c : Threads ι L) :=
  fun _ => always_done

theorem FindsHash.enabled {s : Threads ι L} {i : ι} (h : FindsHash s.data (s.threads i)) :
    s.Enabled i := by
  obtain ⟨-, height, hcode, -⟩ := h
  rw [State.Enabled, hcode]
  trivial

variable [Fintype ι] [DecidableEq ι]

/-- One event. -/
def threadStep (s : Threads ι L) (e : Event ι Method) : Threads ι L := Locks.step program s e

theorem allDisciplined_threadStep {s : Threads ι L} (h : AllDisciplined s) (e : Event ι Method) :
    AllDisciplined (threadStep s e) :=
  Locks.always_step always_program (fun _ h => h.done rfl) h e

/-- The two orders are kept apart.  A thread at the beginning of `put_block` or `get_stats`
takes the lock of the blocks only when none waits for it in `remove_block_by_height`; and a
thread in `remove_block_by_height` finds a hash to remove only when none that has the lock of
the blocks has still to take that of the heights. -/
def KeptApart (s : Threads ι L) : Event ι Method → Prop
  | .call _ _ => True
  | .advance i =>
      (BeginsWithBlock (s.threads i) → s.Enabled i → ∀ j, ¬HeightThenBlock (s.threads j)) ∧
      (FindsHash s.data (s.threads i) → ∀ j, ¬BlockThenHeight (s.threads j))

theorem not_heightThenBlock_of_block {t : Thread CacheLock (Cache L)} (h : BlockThenHeight t) :
    ¬HeightThenBlock t := by
  obtain ⟨-, m, hwants⟩ := h
  exact fun h' => CacheLock.noConfusion (hwants.unique h'.2)

theorem not_crossed_threadStep {s : Threads ι L} (hall : AllDisciplined s) (h : ¬Crossed s)
    {e : Event ι Method} (hapart : KeptApart s e) : ¬Crossed (threadStep s e) := by
  rintro ⟨⟨u, hu⟩, v, hv⟩
  cases e with
  | call i c =>
      -- a thread that is given a new piece of code holds nothing
      have hold : ∀ j, (threadStep s (.call i c)).threads j = s.threads j ∨
          ¬((threadStep s (.call i c)).threads j).Greedy := by
        intro j
        rcases Locks.threads_step_call program s i c j with hsame | ⟨hcode, hnew⟩
        · exact Or.inl hsame
        · refine Or.inr fun hgreedy => hgreedy.1 ?_
          rw [threadStep, hnew]
          exact (hall i).here.done hcode
      have hu' := (hold u).resolve_right fun hnot => hnot hu.greedy
      have hv' := (hold v).resolve_right fun hnot => hnot hv.greedy
      exact h ⟨⟨u, hu' ▸ hu⟩, v, hv' ▸ hv⟩
  | advance i =>
      by_cases henabled : s.Enabled i
      · obtain ⟨hmoved, hothers⟩ := Locks.step_advance program henabled
        by_cases hui : u = i
        · subst hui
          by_cases hvu : v = u
          · subst hvu
            exact not_heightThenBlock_of_block hu hv
          · -- the one that takes the lock of the blocks
            have hv' : HeightThenBlock (s.threads v) := hothers v hvu ▸ hv
            have hbegins := (hall u).here.takesBlock s.data (hmoved ▸ hu)
            exact hapart.1 hbegins henabled v hv'
        · have hu' : BlockThenHeight (s.threads u) := hothers u hui ▸ hu
          by_cases hvi : v = i
          · -- the one that finds a hash
            subst hvi
            have hfinds := (hall v).here.takesHeight s.data (hmoved ▸ hv)
            exact hapart.2 hfinds u hu'
          · exact h ⟨⟨u, hu'⟩, v, hothers v hvi ▸ hv⟩
      · rw [threadStep, Locks.step_advance_of_not_enabled program henabled] at hu hv
        exact h ⟨⟨u, hu⟩, v, hv⟩

theorem BeginsWithBlock.advance {t : Thread CacheLock (Cache L)} (h : BeginsWithBlock t)
    (c : Cache L) : BlockThenHeight (t.advance c).2 := by
  obtain ⟨held, code⟩ := t
  obtain ⟨rfl, hput | rfl⟩ := h
  · obtain ⟨hash, height, data, rfl⟩ := hput
    exact ⟨⟨.write, List.mem_cons_self⟩, .write, _, rfl⟩
  · exact ⟨⟨.read, List.mem_cons_self⟩, .read, _, rfl⟩

theorem FindsHash.advance {c : Cache L} {t : Thread CacheLock (Cache L)} (h : FindsHash c t) :
    HeightThenBlock (t.advance c).2 := by
  obtain ⟨held, code⟩ := t
  obtain ⟨rfl, height, rfl, hfound⟩ := h
  show HeightThenBlock ⟨[(.height, .write)], removeFoundCode (c.hashAt height)⟩
  cases hhash : c.hashAt height with
  | none => exact absurd hhash hfound
  | some hash => exact ⟨List.mem_cons_self, _, rfl⟩

theorem keptApart_of_not_crossed {s : Threads ι L} {e : Event ι Method}
    (h : ¬Crossed (threadStep s e)) : KeptApart s e := by
  cases e with
  | call i c => trivial
  | advance i =>
      constructor
      · intro hbegins henabled j hj
        obtain ⟨hmoved, hothers⟩ := Locks.step_advance program henabled
        have hne : j ≠ i := by
          rintro rfl
          exact hj.greedy.1 hbegins.1
        refine h ⟨⟨i, ?_⟩, j, ?_⟩
        · rw [threadStep, hmoved]
          exact hbegins.advance s.data
        · rw [threadStep, hothers j hne]
          exact hj
      · intro hfinds j hj
        obtain ⟨hmoved, hothers⟩ := Locks.step_advance program hfinds.enabled
        have hne : j ≠ i := by
          rintro rfl
          obtain ⟨-, height, hcode, -⟩ := hfinds
          obtain ⟨-, m, next, hwants⟩ := hj
          rw [hcode] at hwants
          cases hwants
        refine h ⟨⟨j, ?_⟩, i, ?_⟩
        · rw [threadStep, hothers j hne]
          exact hj
        · rw [threadStep, hmoved]
          exact hfinds.advance

/-- **Deadlocks.**  Any number of threads call the methods of a cache, and their moves come in
any order.  No state on the way has a cycle of threads each waiting for a lock held by the
next if and only if every move keeps the two orders apart. -/
theorem not_deadlock_iff (L : LruCrate) (ι : Type) [Fintype ι] [DecidableEq ι] (c : Cache L)
    (events : List (Event ι Method)) :
    Runs.Visits threadStep (fun s => ¬s.Deadlock) (State.start c) events ↔
      Runs.Along threadStep KeptApart (State.start c) events := by
  refine Runs.visits_iff_along (I := fun s => AllDisciplined s ∧ ¬Crossed s) ?_ ?_ ?_ ?_
  · rintro s ⟨hall, hapart⟩
    rwa [deadlock_iff hall]
  · rintro s e ⟨hall, hapart⟩ hkept
    exact ⟨allDisciplined_threadStep hall e, not_crossed_threadStep hall hapart hkept⟩
  · rintro s e ⟨hall, -⟩ hnot
    rw [deadlock_iff (allDisciplined_threadStep hall e)] at hnot
    exact keptApart_of_not_crossed hnot
  · refine ⟨allDisciplined_start c, ?_⟩
    rintro ⟨⟨i, hi⟩, -⟩
    exact hi.greedy.1 rfl

/-- One thread puts a block, and begins to put it again while another removes it by its
height. -/
def crossing : List (Event (Fin 2) Method) :=
  [.call 0 (.call (.putBlock .zero 5 [1])), .advance 0, .advance 0, .advance 0, .advance 0,
    .advance 0, .call 0 (.call (.putBlock .zero 5 [1])), .call 1 (.call (.removeBlockByHeight 5)),
    .advance 1, .advance 0, .advance 1]

/-- The first waits for the lock of the heights, which the second holds, and the second for
that of the blocks, which the first holds. -/
theorem deadlock_crossing :
    (Runs.run threadStep (State.start smallCache) crossing).Deadlock := by
  have hblock : BlockThenHeight
      ((Runs.run threadStep (State.start smallCache) crossing).threads 0) :=
    ⟨⟨.write, List.mem_cons_self⟩, .write, _, rfl⟩
  have hheight : HeightThenBlock
      ((Runs.run threadStep (State.start smallCache) crossing).threads 1) :=
    ⟨List.mem_cons_self, _, rfl⟩
  have hall : AllDisciplined (Runs.run threadStep (State.start smallCache) crossing) :=
    Runs.run_preserves (I := AllDisciplined) (fun s e h => allDisciplined_threadStep h e)
      (allDisciplined_start smallCache) crossing
  exact (deadlock_iff hall).mpr ⟨⟨0, hblock⟩, 1, hheight⟩

end Runs

end Cache

end VotingChain
