/-
# `VotingChain.Lib.SlotLog` — replicated logs with one writer for each slot

Parties hold logs that only grow.  An entry carries the slot it is meant for,
and each slot has at most one owner.  A party appends to its own log either

    write   an entry of a slot it owns, the slot being the next one of its log, or
    copy    an entry that has been announced, again for its next slot.

Announcements may be lost (`write` announces the entry or not), delivered in any
order, and delivered any number of times: `copy` takes any announced entry and
never removes it.

Because an owner writes a slot only when that slot is the end of its own log,
and logs do not shrink, it writes each slot at most once.  So every entry of
every log at slot `n` is the one the owner of `n` holds there (`Inv`), and the
logs agree (`entry_unique`, `prefix_of_length_le`).
-/
import VotingChain.Lib.Runs
import Mathlib.Data.Set.Insert
import Mathlib.Data.List.Infix

namespace SlotLog

/-- The logs, and the entries announced so far. -/
structure State (ι β : Type) where
  log : ι → List β
  sent : Set β

section
variable {ι β : Type} [DecidableEq ι] (slot : β → Nat) (owner : Nat → ι → Prop) (base : List β)

/-- `i`'s log with `b` appended. -/
def State.append (s : State ι β) (i : ι) (b : β) : ι → List β :=
  Function.update s.log i (s.log i ++ [b])

/-- All logs are `base`, and nothing has been announced. -/
def Init (s : State ι β) : Prop := (∀ i, s.log i = base) ∧ s.sent = ∅

inductive Next : State ι β → State ι β → Prop
  | write {s : State ι β} (i : ι) (b : β) (sent : Set β) :
      owner (slot b) i → slot b = (s.log i).length → sent ⊆ insert b s.sent →
      Next s ⟨s.append i b, sent⟩
  | copy {s : State ι β} (i : ι) (b : β) :
      b ∈ s.sent → slot b = (s.log i).length → Next s ⟨s.append i b, s.sent⟩

/-! ## Logs only grow -/

omit [DecidableEq ι] in
theorem getElem?_of_prefix {l l' : List β} (h : l <+: l') {n : Nat} {b : β}
    (hb : l[n]? = some b) : l'[n]? = some b := by
  obtain ⟨t, rfl⟩ := h
  rw [List.getElem?_append_left (List.getElem?_eq_some_iff.mp hb).1]
  exact hb

theorem prefix_append (s : State ι β) (i : ι) (b : β) (j : ι) :
    s.log j <+: s.append i b j := by
  by_cases h : j = i
  · subst h
    rw [State.append, Function.update_self]
    exact List.prefix_append _ _
  · rw [State.append, Function.update_of_ne h]

theorem getElem?_append_of_some (s : State ι β) (i : ι) (b : β) {j : ι} {n : Nat} {c : β}
    (h : (s.log j)[n]? = some c) : (s.append i b j)[n]? = some c :=
  getElem?_of_prefix (prefix_append s i b j) h

/-- What stands in a log after an append stood there before, or is the new entry
at its end. -/
theorem getElem?_append_cases (s : State ι β) (i : ι) (b : β) {j : ι} {n : Nat} {c : β}
    (h : (s.append i b j)[n]? = some c) :
    (s.log j)[n]? = some c ∨ (j = i ∧ n = (s.log i).length ∧ c = b) := by
  by_cases hj : j = i
  · subst hj
    rw [State.append, Function.update_self] at h
    rcases Nat.lt_or_ge n (s.log j).length with hn | hn
    · rw [List.getElem?_append_left hn] at h
      exact Or.inl h
    · rw [List.getElem?_append_right hn, List.getElem?_singleton] at h
      split at h
      · exact Or.inr ⟨rfl, by omega, (Option.some.inj h).symm⟩
      · exact absurd h (by simp)
  · rw [State.append, Function.update_of_ne hj] at h
    exact Or.inl h

/-! ## The invariant -/

/-- The entry `c` stands in the log of an owner of its slot, at that slot. -/
def Owned (s : State ι β) (n : Nat) (c : β) : Prop := ∃ o, owner n o ∧ (s.log o)[n]? = some c

/-- Every log extends `base`; every entry past `base` and every announced entry
is the one its slot's owner holds. -/
structure Inv (s : State ι β) : Prop where
  extends_base : ∀ i, base <+: s.log i
  entries : ∀ i n c, base.length ≤ n → (s.log i)[n]? = some c → Owned owner s n c
  announced : ∀ c ∈ s.sent, Owned owner s (slot c) c

variable {slot owner base}

theorem Owned.append {s : State ι β} {n : Nat} {c : β} (h : Owned owner s n c) (i : ι) (b : β)
    (sent : Set β) : Owned owner ⟨s.append i b, sent⟩ n c := by
  obtain ⟨o, ho, hc⟩ := h
  exact ⟨o, ho, getElem?_append_of_some s i b hc⟩

omit [DecidableEq ι] in
theorem inv_init {s : State ι β} (h : Init base s) : Inv slot owner base s where
  extends_base i := by rw [h.1 i]
  entries i n c hn hc := by
    rw [h.1 i, List.getElem?_eq_none hn] at hc
    exact absurd hc (by simp)
  announced c hc := by
    rw [h.2] at hc
    exact absurd hc (Set.notMem_empty c)

theorem Inv.append {s : State ι β} (h : Inv slot owner base s) {i : ι} {b : β} {sent : Set β}
    (hslot : slot b = (s.log i).length)
    (howned : Owned owner ⟨s.append i b, sent⟩ (slot b) b) (hsent : sent ⊆ insert b s.sent) :
    Inv slot owner base ⟨s.append i b, sent⟩ where
  extends_base j := (h.extends_base j).trans (prefix_append s i b j)
  entries j n c hn hc := by
    rcases getElem?_append_cases s i b hc with hold | ⟨-, hn', rfl⟩
    · exact (h.entries j n c hn hold).append i b sent
    · rw [hn', ← hslot]
      exact howned
  announced c hc := by
    rcases hsent hc with rfl | hold
    · exact howned
    · exact (h.announced c hold).append i b sent

theorem inv_next {s s' : State ι β} (h : Inv slot owner base s) (hs : Next slot owner s s') :
    Inv slot owner base s' := by
  cases hs with
  | write i b sent howner hslot hsent =>
      refine h.append hslot ⟨i, howner, ?_⟩ hsent
      simp [State.append, hslot]
  | copy i b hb hslot =>
      exact h.append hslot ((h.announced b hb).append i b s.sent) (Set.subset_insert b s.sent)

theorem inv_reach {s : State ι β} (h : Runs.Reach (Init base) (Next slot owner) s) :
    Inv slot owner base s :=
  h.invariant (fun _ => inv_init) (fun _ _ => inv_next)

/-! ## Agreement -/

omit [DecidableEq ι] in
/-- **Two logs that reach a slot hold the same entry there.** -/
theorem Inv.entry_unique {s : State ι β} (h : Inv slot owner base s)
    (huniq : ∀ n i j, owner n i → owner n j → i = j) {i j : ι} {n : Nat} {b c : β}
    (hb : (s.log i)[n]? = some b) (hc : (s.log j)[n]? = some c) : b = c := by
  rcases Nat.lt_or_ge n base.length with hn | hn
  · have hbase := List.getElem?_eq_getElem hn
    have hbi := getElem?_of_prefix (h.extends_base i) hbase
    have hcj := getElem?_of_prefix (h.extends_base j) hbase
    exact Option.some.inj ((hb.symm.trans hbi).trans (hcj.symm.trans hc))
  · obtain ⟨o, ho, hbo⟩ := h.entries i n b hn hb
    obtain ⟨o', ho', hco⟩ := h.entries j n c hn hc
    rw [huniq n o o' ho ho'] at hbo
    exact Option.some.inj (hbo.symm.trans hco)

omit [DecidableEq ι] in
/-- **A log that is not longer is a prefix.** -/
theorem Inv.prefix_of_length_le {s : State ι β} (h : Inv slot owner base s)
    (huniq : ∀ n i j, owner n i → owner n j → i = j) {i j : ι}
    (hle : (s.log i).length ≤ (s.log j).length) : s.log i <+: s.log j := by
  refine List.prefix_iff_getElem.mpr ⟨hle, ?_⟩
  intro n hn
  exact h.entry_unique huniq (List.getElem?_eq_getElem hn) (List.getElem?_eq_getElem (by omega))

end

end SlotLog
