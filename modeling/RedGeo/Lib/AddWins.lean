import Mathlib.Data.Finset.Lattice.Fold
import Mathlib.Order.Lattice.Nat

/-!
# Entries that are put and deleted at several nodes

The puts of each key are numbered. A node has received some of them, in any order, and
likewise some of the deletions. A deletion removes the puts that its node had received;
a put that it had not received survives it. What a node has under a key is the last put
that it has received and that has not been removed there.

* `value_put_self` — a node has what it puts itself.
* `value_of_received` — a node that has received all puts, none of which is deleted, has
  the last one.
-/

namespace RedGeo.Lib

open Finset

structure Copies (N K V : Type) where
  /-- All values that have been put, in the order of their numbers. -/
  log : K → List V
  /-- The puts that some deletion has removed. -/
  deleted : K → Finset Nat
  /-- The puts that have arrived. -/
  got : N → K → Finset Nat
  /-- The removals that have arrived. -/
  gone : N → K → Finset Nat
  got_lt : ∀ n k, ∀ i ∈ got n k, i < (log k).length
  deleted_lt : ∀ k, ∀ i ∈ deleted k, i < (log k).length
  gone_sub : ∀ n k, gone n k ⊆ deleted k

namespace Copies

variable {N K V : Type} {c : Copies N K V} {n : N} {k : K}

/-- Nothing has been put. -/
def empty : Copies N K V where
  log _ := []
  deleted _ := ∅
  got _ _ := ∅
  gone _ _ := ∅
  got_lt _ _ _ h := absurd h (Finset.notMem_empty _)
  deleted_lt _ _ h := absurd h (Finset.notMem_empty _)
  gone_sub _ _ := Finset.Subset.refl _

section

variable (c : Copies N K V) (n : N) (k : K)

/-- The number behind the last put that a node has. -/
def last : Nat := (c.got n k \ c.gone n k).sup (· + 1)

/-- What a node has under a key. -/
def value : Option V := ((c.log k).take (c.last n k)).getLast?

lemma last_le : c.last n k ≤ (c.log k).length :=
  Finset.sup_le fun i hi => c.got_lt n k i (Finset.mem_sdiff.mp hi).1

end

/-- Something is there if some put is. -/
lemma isSome_value_iff : (c.value n k).isSome ↔ 0 < c.last n k := by
  rw [value, List.getLast?_isSome, ne_eq, List.take_eq_nil_iff, not_or]
  have hLe := c.last_le n k
  constructor
  · exact fun h => Nat.pos_of_ne_zero h.1
  · intro hPos
    refine ⟨Nat.ne_of_gt hPos, fun hNil => ?_⟩
    rw [hNil, List.length_nil] at hLe
    omega

/-- A node that has received all puts has the last one, if none is deleted. -/
lemma value_of_received (hGot : c.got n k = range (c.log k).length) (hDeleted : c.deleted k = ∅) :
    c.value n k = (c.log k).getLast? := by
  have hGone : c.gone n k = ∅ := subset_empty.mp (hDeleted ▸ c.gone_sub n k)
  have hLast : c.last n k = (c.log k).length := by
    rw [last, hGone, hGot, Finset.sdiff_empty]
    refine le_antisymm (Finset.sup_le fun i hi => Finset.mem_range.mp hi) ?_
    by_contra hLt
    -- the last of the numbers is below the supremum
    have hMem : (c.log k).length - 1 ∈ range (c.log k).length :=
      mem_range.mpr (by omega)
    have hLe := le_sup (f := (· + 1)) hMem
    omega
  rw [value, hLast, List.take_length]

variable [DecidableEq N] [DecidableEq K]

/-- Change a table of nodes and keys in one place. -/
def update {α : Type} (f : N → K → α) (n : N) (k : K) (a : α) : N → K → α :=
  fun n' k' => if n' = n ∧ k' = k then a else f n' k'

@[simp] lemma update_self {α : Type} (f : N → K → α) (n : N) (k : K) (a : α) : update f n k a n k = a := by
  simp [update]

lemma update_of_ne {α : Type} (f : N → K → α) {n n' : N} {k k' : K} (a : α) (h : ¬ (n' = n ∧ k' = k)) :
    update f n k a n' k' = f n' k' := by
  rw [update, if_neg h]

/-! ## What happens at a node -/

variable (c : Copies N K V) (n : N) (k : K)

/-- A node puts a value. -/
def put (v : V) : Copies N K V where
  log := Function.update c.log k (c.log k ++ [v])
  deleted := c.deleted
  got := update c.got n k (insert (c.log k).length (c.got n k))
  gone := c.gone
  got_lt n' k' i hi := by
    by_cases hk : k' = k
    · subst hk
      rw [Function.update_self, List.length_append, List.length_singleton]
      by_cases hn : n' = n
      · subst hn
        rw [update_self, Finset.mem_insert] at hi
        rcases hi with rfl | hOld
        · omega
        · have := c.got_lt n' k' i hOld
          omega
      · rw [update_of_ne _ _ fun h => hn h.1] at hi
        have := c.got_lt n' k' i hi
        omega
    · rw [update_of_ne _ _ fun h => hk h.2] at hi
      rw [Function.update_of_ne hk]
      exact c.got_lt n' k' i hi
  deleted_lt k' i hi := by
    have hLt := c.deleted_lt k' i hi
    by_cases hk : k' = k
    · subst hk
      rw [Function.update_self, List.length_append]
      omega
    · rwa [Function.update_of_ne hk]
  gone_sub := c.gone_sub

/-- A node deletes what it has under a key. -/
def del : Copies N K V where
  log := c.log
  deleted := Function.update c.deleted k (c.deleted k ∪ c.got n k)
  got := c.got
  gone := update c.gone n k (c.gone n k ∪ c.got n k)
  got_lt := c.got_lt
  deleted_lt k' i hi := by
    by_cases hk : k' = k
    · subst hk
      rw [Function.update_self, Finset.mem_union] at hi
      exact hi.elim (c.deleted_lt k' i) (c.got_lt n k' i)
    · rw [Function.update_of_ne hk] at hi
      exact c.deleted_lt k' i hi
  gone_sub n' k' := by
    by_cases hk : k' = k
    · subst hk
      rw [Function.update_self]
      by_cases hn : n' = n
      · subst hn
        rw [update_self]
        exact Finset.union_subset_union_left (c.gone_sub n' k')
      · rw [update_of_ne _ _ fun h => hn h.1]
        exact (c.gone_sub n' k').trans Finset.subset_union_left
    · rw [update_of_ne _ _ fun h => hk h.2, Function.update_of_ne hk]
      exact c.gone_sub n' k'

/-- A node receives a put. -/
def receive (i : Nat) : Copies N K V :=
  if h : i < (c.log k).length then
    { c with
      got := update c.got n k (insert i (c.got n k))
      got_lt := fun n' k' j hj => by
        by_cases hEq : n' = n ∧ k' = k
        · obtain ⟨rfl, rfl⟩ := hEq
          rw [update_self, Finset.mem_insert] at hj
          rcases hj with rfl | hOld
          · exact h
          · exact c.got_lt n' k' j hOld
        · rw [update_of_ne _ _ hEq] at hj
          exact c.got_lt n' k' j hj }
  else c

/-- A node receives the removal of a put. -/
def forget (i : Nat) : Copies N K V :=
  if h : i ∈ c.deleted k then
    { c with
      gone := update c.gone n k (insert i (c.gone n k))
      gone_sub := fun n' k' => by
        by_cases hEq : n' = n ∧ k' = k
        · obtain ⟨rfl, rfl⟩ := hEq
          rw [update_self]
          exact Finset.insert_subset h (c.gone_sub n' k')
        · rw [update_of_ne _ _ hEq]
          exact c.gone_sub n' k' }
  else c

/-! ## What a node has then -/

section

variable (c : Copies N K V) (n : N) (k : K) {n' : N} {k' : K} (i : Nat)

/-- A node has what it has just put: nothing has removed it yet. -/
lemma value_put_self (v : V) : (c.put n k v).value n k = some v := by
  have hLast : (c.put n k v).last n k = (c.log k).length + 1 := by
    refine le_antisymm ?_ (le_sup (f := (· + 1)) ?_)
    · refine ((c.put n k v).last_le n k).trans ?_
      show (Function.update c.log k (c.log k ++ [v]) k).length ≤ _
      rw [Function.update_self, List.length_append, List.length_singleton]
    · refine mem_sdiff.mpr ⟨?_, fun hGone => ?_⟩
      · show _ ∈ update c.got n k _ n k
        rw [update_self]
        exact mem_insert_self _ _
      · exact absurd (c.deleted_lt k _ (c.gone_sub n k hGone)) (lt_irrefl _)
  have hLog : (c.put n k v).log k = c.log k ++ [v] := Function.update_self ..
  rw [value, hLast, hLog, ← List.length_singleton (a := v), ← List.length_append, List.take_length,
    List.getLast?_concat]

/-- Others do not have it yet, and other keys stay as they are. -/
lemma value_put_of_ne (v : V) (h : ¬ (n' = n ∧ k' = k)) : (c.put n k v).value n' k' = c.value n' k' := by
  have hLast : (c.put n k v).last n' k' = c.last n' k' := by
    show (update c.got n k _ n' k' \ _).sup _ = _
    rw [update_of_ne _ _ h]
    rfl
  rw [value, hLast]
  by_cases hk : k' = k
  · subst hk
    show ((Function.update c.log k' (c.log k' ++ [v]) k').take _).getLast? = _
    rw [Function.update_self, List.take_append_of_le_length (c.last_le n' k')]
    rfl
  · show ((Function.update c.log k (c.log k ++ [v]) k').take _).getLast? = _
    rw [Function.update_of_ne hk]
    rfl

lemma log_receive : (c.receive n k i).log = c.log := by
  rw [receive]
  split <;> rfl

lemma deleted_receive : (c.receive n k i).deleted = c.deleted := by
  rw [receive]
  split <;> rfl

lemma got_receive_of_ne (h : ¬ (n' = n ∧ k' = k)) : (c.receive n k i).got n' k' = c.got n' k' := by
  rw [receive]
  split
  · exact update_of_ne _ _ h
  · rfl

lemma subset_got_receive (n' : N) (k' : K) : c.got n' k' ⊆ (c.receive n k i).got n' k' := by
  by_cases h : n' = n ∧ k' = k
  · obtain ⟨rfl, rfl⟩ := h
    rw [receive]
    split
    · show _ ⊆ update c.got n' k' _ n' k'
      rw [update_self]
      exact subset_insert _ _
    · exact Finset.Subset.refl _
  · rw [got_receive_of_ne c n k i h]

lemma value_receive_of_ne (h : ¬ (n' = n ∧ k' = k)) : (c.receive n k i).value n' k' = c.value n' k' := by
  rw [value, last, got_receive_of_ne c n k i h, log_receive]
  rw [receive]
  split <;> rfl

/-- What is there is replaced, at most. -/
lemma isSome_value_receive (h : (c.value n' k').isSome) : ((c.receive n k i).value n' k').isSome := by
  have hGone : (c.receive n k i).gone = c.gone := by
    rw [receive]
    split <;> rfl
  rw [isSome_value_iff] at h ⊢
  refine lt_of_lt_of_le h (sup_mono ?_)
  rw [hGone]
  exact sdiff_subset_sdiff (c.subset_got_receive n k i n' k') (Finset.Subset.refl _)

lemma log_forget : (c.forget n k i).log = c.log := by
  rw [forget]
  split <;> rfl

end

end Copies

end RedGeo.Lib
