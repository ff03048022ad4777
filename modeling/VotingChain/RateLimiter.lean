/-
# `VotingChain.RateLimiter` — the rate limiter of the RPC server

The model of `RateLimiter` of `rpc/src/lib.rs`.  For each address it keeps how many requests
it has counted and when it began to count; the entries that are a minute old are thrown away
from time to time.  A call holds the lock from before it reads the clock to its end, so that
the calls come one after the other and their instants in that order.

An entry lives longer than its window, and one that is thrown away has the same answer in it
as none.  So what an address is told depends on the instants of its own calls alone
(`answersTo_eq`): it is what a counter in fixed windows says (`Lib.FixedWindow`).
-/
import Mathlib.Algebra.Order.Ring.Nat
import Mathlib.Data.UInt
import VotingChain.Lib.Maps
import VotingChain.Lib.FixedWindow
import VotingChain.Lib.Runs

namespace VotingChain

/-- A reading of the monotonic clock, in nanoseconds. -/
abbrev Instant := Nat

/-- A second. -/
def second : Nat := 1000000000

/-- `now.duration_since(timestamp).as_secs()`: zero for an instant to come. -/
def secsSince (now timestamp : Instant) : Nat := (now - timestamp) / second

/-- Rate limiter for RPC requests. -/
structure RateLimiter where
  requests : Finmap fun _ : String => UInt32 × Instant
  limitPerSecond : UInt32

namespace RateLimiter

/-- Create new rate limiter. -/
def new (limitPerSecond : UInt32) : RateLimiter := ⟨∅, limitPerSecond⟩

/-- Check if request is allowed for given IP. -/
def isAllowed (self : RateLimiter) (ip : String) (now : Instant) : RateLimiter × Bool :=
  match self.requests.lookup ip with
  | some (count, timestamp) =>
      -- reset counter if more than 1 second has passed
      if 1 ≤ secsSince now timestamp then
        ({ self with requests := self.requests.insert ip (1, now) }, true)
      else if count < self.limitPerSecond then
        ({ self with requests := self.requests.insert ip (count + 1, timestamp) }, true)
      else (self, false)
  | none => ({ self with requests := self.requests.insert ip (1, now) }, true)

/-- Clean up old entries periodically. -/
def cleanup (self : RateLimiter) (now : Instant) : RateLimiter :=
  { self with
    requests := self.requests.retain fun _ entry => decide (secsSince now entry.2 < 60) }

/-! ## Runs -/

/-- A call, and what the clock says while it has the lock. -/
inductive Call where
  | isAllowed (ip : String) (now : Instant)
  | cleanup (now : Instant)
  deriving DecidableEq

def Call.now : Call → Instant
  | .isAllowed _ now => now
  | .cleanup now => now

def step (self : RateLimiter) : Call → RateLimiter
  | .isAllowed ip now => (self.isAllowed ip now).1
  | .cleanup now => self.cleanup now

/-- What a call tells `ip`, and when. -/
def answer (ip : String) (self : RateLimiter) : Call → List (Instant × Bool)
  | .isAllowed caller now => if caller = ip then [(now, (self.isAllowed caller now).2)] else []
  | .cleanup _ => []

/-- What `ip` is told in the course of `calls`. -/
def answersTo (ip : String) (self : RateLimiter) (calls : List Call) : List (Instant × Bool) :=
  Runs.trace step (answer ip) self calls

/-- The instants of the requests of `ip`. -/
def timesOf (ip : String) : List Call → List Instant
  | [] => []
  | .isAllowed caller now :: calls =>
      if caller = ip then now :: timesOf ip calls else timesOf ip calls
  | .cleanup _ :: calls => timesOf ip calls

/-- The instants do not decrease. -/
def InOrder (calls : List Call) : Prop := calls.Pairwise fun a b => a.now ≤ b.now

/-! ## The counter of an address -/

/-- What is kept for `ip`, as a counter in fixed windows. -/
def counter (self : RateLimiter) (ip : String) : FixedWindow.Counter Instant :=
  (self.requests.lookup ip).map fun entry => (entry.1.toNat, entry.2)

theorem counter_new (limit : UInt32) (ip : String) : (new limit).counter ip = none := rfl

theorem le_secsSince {seconds now timestamp : Nat} (hseconds : 1 ≤ seconds) :
    seconds ≤ secsSince now timestamp ↔ timestamp + seconds * second ≤ now := by
  simp only [secsSince, second]
  omega

theorem one_le_secsSince {now timestamp : Instant} :
    1 ≤ secsSince now timestamp ↔ timestamp + second ≤ now := by
  rw [le_secsSince le_rfl, Nat.one_mul]

theorem counter_insert_self {self : RateLimiter} {ip : String} {count : UInt32}
    {timestamp : Instant} :
    counter { self with requests := self.requests.insert ip (count, timestamp) } ip =
      some (count.toNat, timestamp) := by
  simp [counter]

theorem counter_insert_of_ne {self : RateLimiter} {ip caller : String} (h : ip ≠ caller)
    (entry : UInt32 × Instant) :
    counter { self with requests := self.requests.insert caller entry } ip = self.counter ip := by
  simp [counter, Finmap.lookup_insert_of_ne _ h]

theorem toNat_succ_of_lt {count limit : UInt32} (h : count < limit) :
    (count + 1).toNat = count.toNat + 1 := by
  have hlt : count.toNat < limit.toNat := UInt32.lt_iff_toNat_lt.mp h
  have hlimit : limit.toNat < 4294967296 := limit.toNat_lt
  rw [UInt32.toNat_add, UInt32.toNat_one]
  exact Nat.mod_eq_of_lt (by omega)

/-- **A request.**  The caller's counter answers it and goes on; no other is touched. -/
theorem isAllowed_spec (self : RateLimiter) (caller : String) (now : Instant) :
    (self.isAllowed caller now).2 =
        FixedWindow.allows self.limitPerSecond.toNat second (self.counter caller) now ∧
      (self.isAllowed caller now).1.counter caller =
        FixedWindow.step self.limitPerSecond.toNat second (self.counter caller) now ∧
      (self.isAllowed caller now).1.limitPerSecond = self.limitPerSecond ∧
      ∀ ip, ip ≠ caller → (self.isAllowed caller now).1.counter ip = self.counter ip := by
  unfold isAllowed
  cases hentry : self.requests.lookup caller with
  | none =>
      have hcounter : self.counter caller = none := by simp [counter, hentry]
      rw [hcounter]
      exact ⟨rfl, counter_insert_self, rfl, fun ip h => counter_insert_of_ne h _⟩
  | some entry =>
      obtain ⟨count, timestamp⟩ := entry
      have hcounter : self.counter caller = some (count.toNat, timestamp) := by
        simp [counter, hentry]
      rw [hcounter]
      dsimp only
      by_cases hover : 1 ≤ secsSince now timestamp
      · have hstart := one_le_secsSince.mp hover
        rw [if_pos hover, FixedWindow.allows_of_over hstart, FixedWindow.step_of_over hstart]
        exact ⟨rfl, counter_insert_self, rfl, fun ip h => counter_insert_of_ne h _⟩
      · have hin : now < timestamp + second := not_le.mp fun h => hover (one_le_secsSince.mpr h)
        rw [if_neg hover, FixedWindow.allows_of_lt hin]
        by_cases hcount : count < self.limitPerSecond
        · have hlt : count.toNat < self.limitPerSecond.toNat := UInt32.lt_iff_toNat_lt.mp hcount
          rw [if_pos hcount, FixedWindow.step_of_lt hin hlt, decide_eq_true hlt,
            ← toNat_succ_of_lt hcount]
          exact ⟨rfl, counter_insert_self, rfl, fun ip h => counter_insert_of_ne h _⟩
        · have hfull : ¬count.toNat < self.limitPerSecond.toNat :=
            fun h => hcount (UInt32.lt_iff_toNat_lt.mpr h)
          rw [if_neg hcount, FixedWindow.step_of_full hin hfull, decide_eq_false hfull]
          exact ⟨rfl, hcounter, rfl, fun _ _ => rfl⟩

/-- **A cleanup.**  What is thrown away has been there for a minute. -/
theorem counter_cleanup (self : RateLimiter) (ip : String) (now : Instant) :
    (self.cleanup now).counter ip = self.counter ip ∨
    (self.cleanup now).counter ip = none ∧
      ∃ count start, self.counter ip = some (count, start) ∧ start + 60 * second ≤ now := by
  have hkept : ∀ entry, (self.cleanup now).requests.lookup ip = some entry ↔
      self.requests.lookup ip = some entry ∧ secsSince now entry.2 < 60 := by
    intro entry
    simp only [cleanup, Finmap.lookup_retain_eq_some, decide_eq_true_iff]
  cases hentry : self.requests.lookup ip with
  | none =>
      left
      have hnone : (self.cleanup now).requests.lookup ip = none := by
        rw [Option.eq_none_iff_forall_ne_some]
        intro entry h
        simp [hkept, hentry] at h
      simp [counter, hentry, hnone]
  | some entry =>
      by_cases hyoung : secsSince now entry.2 < 60
      · left
        rw [counter, counter, (hkept entry).mpr ⟨hentry, hyoung⟩, hentry]
      · right
        have hnone : (self.cleanup now).requests.lookup ip = none := by
          rw [Option.eq_none_iff_forall_ne_some]
          intro other h
          obtain ⟨hother, hage⟩ := (hkept other).mp h
          rw [hentry, Option.some.injEq] at hother
          exact hyoung (hother ▸ hage)
        have hage : 60 ≤ secsSince now entry.2 := not_lt.mp hyoung
        exact ⟨by simp [counter, hnone], entry.1.toNat, entry.2, by simp [counter, hentry],
          (le_secsSince (by decide)).mp hage⟩

/-! ## What an address is told -/

/-- The entry of `ip` is the counter `s`; or it is gone, and the window of `s` was over by
`last`. -/
def Shows (self : RateLimiter) (ip : String) (s : FixedWindow.Counter Instant) (last : Instant) :
    Prop :=
  self.counter ip = s ∨
    self.counter ip = none ∧ ∃ count start, s = some (count, start) ∧ start + second ≤ last

/-- A request of `ip` itself.  After it the entry is the counter. -/
theorem Shows.isAllowed {self : RateLimiter} {ip : String} {s : FixedWindow.Counter Instant}
    {last now : Instant} (h : self.Shows ip s last) (hnow : last ≤ now) :
    (self.isAllowed ip now).2 = FixedWindow.allows self.limitPerSecond.toNat second s now ∧
    (self.isAllowed ip now).1.counter ip =
      FixedWindow.step self.limitPerSecond.toNat second s now := by
  obtain ⟨hanswer, hcounter, -, -⟩ := isAllowed_spec self ip now
  rw [hanswer, hcounter]
  rcases h with heq | ⟨hnone, count, start, rfl, hover⟩
  · rw [heq]
    exact ⟨rfl, rfl⟩
  · -- no entry, or one with a window that is over: a new window is opened
    have hover' : start + second ≤ now := hover.trans hnow
    rw [hnone, FixedWindow.allows_of_over hover', FixedWindow.step_of_over hover']
    exact ⟨rfl, rfl⟩

theorem Shows.mono {self : RateLimiter} {ip : String} {s : FixedWindow.Counter Instant}
    {last now : Instant} (h : self.Shows ip s last) (hnow : last ≤ now) : self.Shows ip s now := by
  rcases h with heq | ⟨hnone, count, start, hs, hover⟩
  · exact Or.inl heq
  · exact Or.inr ⟨hnone, count, start, hs, hover.trans hnow⟩

theorem Shows.cleanup {self : RateLimiter} {ip : String} {s : FixedWindow.Counter Instant}
    {last now : Instant} (h : self.Shows ip s last) (hnow : last ≤ now) :
    (self.cleanup now).Shows ip s now := by
  rcases counter_cleanup self ip now with hkept | ⟨hgone, count, start, hentry, hage⟩
  · rw [Shows, hkept]
    exact h.mono hnow
  · rcases h with heq | ⟨hnone, -⟩
    · refine Or.inr ⟨hgone, count, start, heq.symm.trans hentry, ?_⟩
      have hminute : start + second ≤ start + 60 * second :=
        Nat.add_le_add_left (Nat.le_mul_of_pos_left second (by decide)) start
      exact hminute.trans hage
    · rw [hnone] at hentry
      simp at hentry

theorem answersTo_cons_self (self : RateLimiter) (ip : String) (now : Instant)
    (calls : List Call) :
    self.answersTo ip (.isAllowed ip now :: calls) =
      (now, (self.isAllowed ip now).2) :: (self.isAllowed ip now).1.answersTo ip calls := by
  simp [answersTo, Runs.trace, answer, step]

theorem answersTo_cons_of_ne {caller ip : String} (h : caller ≠ ip) (self : RateLimiter)
    (now : Instant) (calls : List Call) :
    self.answersTo ip (.isAllowed caller now :: calls) =
      (self.isAllowed caller now).1.answersTo ip calls := by
  simp [answersTo, Runs.trace, answer, step, h]

/-- **The limiter is a family of counters in fixed windows**, one for each address.  What `ip`
is told is what its own counter says, and the other calls have no part in it. -/
theorem answersTo_of_shows {ip : String} {calls : List Call} {self : RateLimiter}
    {s : FixedWindow.Counter Instant} {last : Instant} (horder : InOrder calls)
    (hlast : ∀ call ∈ calls, last ≤ call.now) (h : self.Shows ip s last) :
    self.answersTo ip calls =
      FixedWindow.answers self.limitPerSecond.toNat second s (timesOf ip calls) := by
  induction calls generalizing self s last with
  | nil => rfl
  | cons call calls ih =>
      obtain ⟨hafter, hcalls⟩ := List.pairwise_cons.mp horder
      cases call with
      | cleanup now =>
          have hnow : last ≤ now := hlast _ List.mem_cons_self
          exact ih hcalls hafter (h.cleanup hnow)
      | isAllowed caller now =>
          have hnow : last ≤ now := hlast _ List.mem_cons_self
          obtain ⟨-, -, hlimit, hother⟩ := isAllowed_spec self caller now
          by_cases hcaller : caller = ip
          · subst hcaller
            obtain ⟨hanswer, hcounter⟩ := h.isAllowed hnow
            have hrest := ih hcalls hafter (Or.inl hcounter)
            rw [hlimit] at hrest
            rw [answersTo_cons_self, hanswer, hrest, timesOf, if_pos rfl, FixedWindow.answers]
          · have hshows : (self.isAllowed caller now).1.Shows ip s now := by
              rw [Shows, hother ip (Ne.symm hcaller)]
              exact h.mono hnow
            have hrest := ih hcalls hafter hshows
            rw [hlimit] at hrest
            rw [answersTo_cons_of_ne hcaller, hrest, timesOf, if_neg hcaller]

theorem answersTo_eq (limit : UInt32) (ip : String) {calls : List Call} (horder : InOrder calls) :
    (new limit).answersTo ip calls =
      FixedWindow.answers limit.toNat second none (timesOf ip calls) :=
  answersTo_of_shows horder (fun _ _ => Nat.zero_le _) (Or.inl (counter_new limit ip))

/-- Whatever else there is between the requests of `ip`, what it is told is the same. -/
theorem answersTo_congr (limit : UInt32) (ip : String) {calls calls' : List Call}
    (horder : InOrder calls) (horder' : InOrder calls')
    (hsame : timesOf ip calls = timesOf ip calls') :
    (new limit).answersTo ip calls = (new limit).answersTo ip calls' := by
  rw [answersTo_eq limit ip horder, answersTo_eq limit ip horder', hsame]

/-- Two requests a minute and more apart, with another address and a cleanup between them. -/
theorem answersTo_congr_cleanup :
    (new 1).answersTo "127.0.0.1"
        [.isAllowed "127.0.0.1" 0, .isAllowed "127.0.0.2" 5, .cleanup 61000000000,
          .isAllowed "127.0.0.1" 61000000000] =
      (new 1).answersTo "127.0.0.1"
        [.isAllowed "127.0.0.1" 0, .isAllowed "127.0.0.1" 61000000000] :=
  answersTo_congr 1 "127.0.0.1" (by simp [InOrder, Call.now]) (by simp [InOrder, Call.now])
    (by simp [timesOf])

/-! ## How many requests are let through in a second -/

theorem timesOf_sublist (ip : String) (calls : List Call) :
    (timesOf ip calls).Sublist (calls.map Call.now) := by
  induction calls with
  | nil => exact List.Sublist.slnil
  | cons call calls ih =>
      cases call with
      | cleanup now => exact ih.cons now
      | isAllowed caller now =>
          rw [timesOf]
          split
          · exact ih.cons_cons now
          · exact ih.cons now

theorem InOrder.timesOf {calls : List Call} (h : InOrder calls) (ip : String) :
    (timesOf ip calls).Pairwise (· ≤ ·) := by
  have htimes : (calls.map Call.now).Pairwise (· ≤ ·) := List.pairwise_map.mpr h
  exact htimes.sublist (timesOf_sublist ip calls)

/-- Requests of one address only. -/
def requestsOf (ip : String) (times : List Instant) : List Call := times.map (Call.isAllowed ip)

theorem timesOf_requestsOf (ip : String) (times : List Instant) :
    timesOf ip (requestsOf ip times) = times := by
  induction times with
  | nil => rfl
  | cons now times ih =>
      rw [requestsOf, List.map_cons, timesOf, if_pos rfl]
      exact congrArg (now :: ·) ih

theorem inOrder_requestsOf {ip : String} {times : List Instant} (h : times.Pairwise (· ≤ ·)) :
    InOrder (requestsOf ip times) :=
  List.pairwise_map.mpr h

/-- **The limit.**  In no interval of a second are more than `2 * limit - 1` requests of an
address let through; and for every limit that is not zero there are runs with so many. -/
theorem letThrough_second_le {limit : UInt32} (hlimit : 1 ≤ limit.toNat) (ip : String) :
    (∀ calls : List Call, InOrder calls → ∀ first : Instant,
      FixedWindow.letThrough first (first + second) ((new limit).answersTo ip calls) ≤
        2 * limit.toNat - 1) ∧
    ∃ calls : List Call, InOrder calls ∧ ∃ first : Instant,
      FixedWindow.letThrough first (first + second) ((new limit).answersTo ip calls) =
        2 * limit.toNat - 1 := by
  constructor
  · intro calls horder first
    rw [answersTo_eq limit ip horder]
    exact FixedWindow.letThrough_le hlimit (horder.timesOf ip) trivial
  · have horder : InOrder (requestsOf ip (FixedWindow.burst limit.toNat second 0 1)) :=
      inOrder_requestsOf (FixedWindow.burst_sorted (by decide) (by decide))
    refine ⟨_, horder, 1, ?_⟩
    rw [answersTo_eq limit ip horder, timesOf_requestsOf]
    exact FixedWindow.letThrough_burst hlimit (by decide) (by decide) (by decide)

theorem letThrough_second_le_two :
    (∀ calls : List Call, InOrder calls → ∀ first : Instant,
      FixedWindow.letThrough first (first + second) ((new 2).answersTo "127.0.0.1" calls) ≤ 3) ∧
    ∃ calls : List Call, InOrder calls ∧ ∃ first : Instant,
      FixedWindow.letThrough first (first + second) ((new 2).answersTo "127.0.0.1" calls) = 3 :=
  letThrough_second_le (by decide) "127.0.0.1"

/-- With a limit of two: a request, another after nine tenths of a second, and two more after a
second.  All are let through, three of them within two tenths. -/
theorem letThrough_second_not_le :
    ¬∀ (limit : UInt32) (ip : String) (calls : List Call), InOrder calls → ∀ first : Instant,
      FixedWindow.letThrough first (first + second) ((new limit).answersTo ip calls) ≤
        limit.toNat := by
  intro h
  have horder : InOrder (requestsOf "127.0.0.1" [0, 900000000, 1000000000, 1100000000]) :=
    inOrder_requestsOf (by decide)
  have hle := h 2 "127.0.0.1" _ horder 900000000
  rw [answersTo_eq 2 _ horder, timesOf_requestsOf] at hle
  exact absurd hle (by decide)

end RateLimiter

end VotingChain
