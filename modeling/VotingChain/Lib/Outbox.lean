/-
# `VotingChain.Lib.Outbox` — replicated logs whose writers keep what they have sent

Parties with logs that only grow, each with an outbox.  An entry carries the slot it is
meant for.  A party appends to its log

    write   an entry it may write, for the next slot of its log, and puts it into its outbox, or
    copy    an entry of anyone's outbox, again for its next slot.

Outboxes are never emptied, so an entry may be copied late, twice, or never.

Whoever may write what, three things follow (`Inv`): an outbox is in order of the slots, its
entries stand in the log of its party, and what stands in a log past the common beginning is
in some outbox.
-/
import VotingChain.Lib.SlotLog
import Mathlib.Data.List.Pairwise

namespace Outbox

/-- The logs, and what each party has sent. -/
structure State (ι β : Type) where
  log : ι → List β
  out : ι → List β

section
variable {ι β : Type} [DecidableEq ι] (slot : β → Nat) (may : ι → β → Prop) (base : List β)

/-- A list of each party, with `b` appended to that of `i`. -/
def push (lists : ι → List β) (i : ι) (b : β) : ι → List β :=
  Function.update lists i (lists i ++ [b])

/-- All logs are `base`, and nothing has been sent. -/
def Init (s : State ι β) : Prop := (∀ i, s.log i = base) ∧ ∀ i, s.out i = []

inductive Next : State ι β → State ι β → Prop
  | write {s : State ι β} (i : ι) (b : β) :
      may i b → slot b = (s.log i).length → Next s ⟨push s.log i b, push s.out i b⟩
  | copy {s : State ι β} (i j : ι) (b : β) :
      b ∈ s.out j → slot b = (s.log i).length → Next s ⟨push s.log i b, s.out⟩

theorem push_self (lists : ι → List β) (i : ι) (b : β) : push lists i b i = lists i ++ [b] :=
  Function.update_self i _ lists

theorem push_of_ne (lists : ι → List β) {i j : ι} (h : j ≠ i) (b : β) :
    push lists i b j = lists j :=
  Function.update_of_ne h _ lists

theorem mem_push {lists : ι → List β} {i : ι} {b : β} {j : ι} {c : β} :
    c ∈ push lists i b j ↔ c ∈ lists j ∨ (j = i ∧ c = b) := by
  by_cases h : j = i
  · subst h
    rw [push_self, List.mem_append, List.mem_singleton]
    simp
  · rw [push_of_ne lists h]
    simp [h]

theorem getElem?_push {lists : ι → List β} {j : ι} {n : Nat} {c : β}
    (h : (lists j)[n]? = some c) (i : ι) (b : β) : (push lists i b j)[n]? = some c := by
  by_cases hj : j = i
  · subst hj
    rw [push_self]
    exact SlotLog.getElem?_of_prefix (List.prefix_append _ _) h
  · rw [push_of_ne lists hj]
    exact h

theorem getElem?_push_cases {lists : ι → List β} {i : ι} {b : β} {j : ι} {n : Nat} {c : β}
    (h : (push lists i b j)[n]? = some c) :
    (lists j)[n]? = some c ∨ (n = (lists i).length ∧ c = b) := by
  by_cases hj : j = i
  · subst hj
    rw [push_self] at h
    rcases Nat.lt_or_ge n (lists j).length with hn | hn
    · rw [List.getElem?_append_left hn] at h
      exact Or.inl h
    · rw [List.getElem?_append_right hn, List.getElem?_singleton] at h
      split at h
      · exact Or.inr ⟨by omega, (Option.some.inj h).symm⟩
      · cases h
  · rw [push_of_ne lists hj] at h
    exact Or.inl h

/-! ## The invariant -/

structure Inv (s : State ι β) : Prop where
  may_write : ∀ i, ∀ b ∈ s.out i, may i b
  placed : ∀ i, ∀ b ∈ s.out i, base.length ≤ slot b ∧ (s.log i)[slot b]? = some b
  ordered : ∀ i, (s.out i).Pairwise fun b c => slot b < slot c
  origin : ∀ i n c, base.length ≤ n → (s.log i)[n]? = some c → slot c = n ∧ ∃ j, c ∈ s.out j
  extends_base : ∀ i, base <+: s.log i

variable {slot may base}

omit [DecidableEq ι] in
theorem inv_init {s : State ι β} (h : Init base s) : Inv slot may base s where
  may_write i b hb := by
    rw [h.2 i] at hb
    cases hb
  placed i b hb := by
    rw [h.2 i] at hb
    cases hb
  ordered i := by
    rw [h.2 i]
    exact List.Pairwise.nil
  origin i n c hn hc := by
    rw [h.1 i, List.getElem?_eq_none hn] at hc
    cases hc
  extends_base i := by rw [h.1 i]

omit [DecidableEq ι] in
theorem Inv.lt_of_mem_out {s : State ι β} (h : Inv slot may base s) {i : ι} {b c : β}
    (hb : b ∈ s.out i) (hslot : slot c = (s.log i).length) : slot b < slot c := by
  obtain ⟨hlt, -⟩ := List.getElem?_eq_some_iff.mp (h.placed i b hb).2
  rw [hslot]
  exact hlt

omit [DecidableEq ι] in
theorem Inv.length_le {s : State ι β} (h : Inv slot may base s) (i : ι) :
    base.length ≤ (s.log i).length :=
  (h.extends_base i).length_le

theorem prefix_push {lists : ι → List β} {j : ι} (h : base <+: lists j) (i : ι) (b : β) :
    base <+: push lists i b j := by
  by_cases hj : j = i
  · subst hj
    rw [push_self]
    exact h.trans (List.prefix_append _ _)
  · rw [push_of_ne lists hj]
    exact h

theorem inv_next {s s' : State ι β} (h : Inv slot may base s) (hs : Next slot may s s') :
    Inv slot may base s' := by
  cases hs with
  | write i b hmay hslot =>
      refine ⟨?_, ?_, ?_, ?_, fun j => prefix_push (h.extends_base j) i b⟩
      · intro j c hc
        rcases mem_push.mp hc with hc | ⟨rfl, rfl⟩
        · exact h.may_write j c hc
        · exact hmay
      · intro j c hc
        rcases mem_push.mp hc with hc | ⟨rfl, rfl⟩
        · obtain ⟨hle, hplace⟩ := h.placed j c hc
          exact ⟨hle, getElem?_push hplace i b⟩
        · refine ⟨hslot ▸ h.length_le j, ?_⟩
          show (push s.log j c j)[slot c]? = some c
          rw [push_self, hslot, List.getElem?_concat_length]
      · intro j
        by_cases hj : j = i
        · subst hj
          show (push s.out j b j).Pairwise _
          rw [push_self, List.pairwise_append]
          refine ⟨h.ordered j, List.pairwise_singleton _ _, ?_⟩
          intro c hc d hd
          rw [List.mem_singleton.mp hd]
          exact h.lt_of_mem_out hc hslot
        · show (push s.out i b j).Pairwise _
          rw [push_of_ne s.out hj]
          exact h.ordered j
      · intro j n c hn hc
        rcases getElem?_push_cases hc with hc | ⟨rfl, rfl⟩
        · obtain ⟨hsame, k, hk⟩ := h.origin j n c hn hc
          exact ⟨hsame, k, mem_push.mpr (Or.inl hk)⟩
        · exact ⟨hslot, i, mem_push.mpr (Or.inr ⟨rfl, rfl⟩)⟩
  | copy i k b hb hslot =>
      refine ⟨h.may_write, ?_, h.ordered, ?_, fun j => prefix_push (h.extends_base j) i b⟩
      · intro j c hc
        obtain ⟨hle, hplace⟩ := h.placed j c hc
        exact ⟨hle, getElem?_push hplace i b⟩
      · intro j n c hn hc
        rcases getElem?_push_cases hc with hc | ⟨rfl, rfl⟩
        · exact h.origin j n c hn hc
        · exact ⟨hslot, k, hb⟩

theorem inv_reach {s : State ι β} (h : Runs.Reach (Init base) (Next slot may) s) :
    Inv slot may base s :=
  h.invariant (fun _ => inv_init) (fun _ _ => inv_next)

/-! ## One entry for each slot -/

omit [DecidableEq ι] in
theorem Inv.out_unique {s : State ι β} (h : Inv slot may base s)
    (hmay : ∀ i j b c, may i b → may j c → slot b = slot c → i = j) {i j : ι} {b c : β}
    (hb : b ∈ s.out i) (hc : c ∈ s.out j) (heq : slot b = slot c) : i = j ∧ b = c := by
  have hij : i = j := hmay i j b c (h.may_write i b hb) (h.may_write j c hc) heq
  subst hij
  have hplace := (h.placed i b hb).2
  rw [heq, (h.placed i c hc).2] at hplace
  exact ⟨rfl, (Option.some.inj hplace).symm⟩

end

end Outbox
