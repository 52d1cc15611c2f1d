import RedGeo.Lib.Sums
import RedGeo.Repo.Finds

/-!
# RedGeo — components

A value that all replicas contribute to is kept in components: below a prefix, each
replica has an entry of its own. Here is what a query of the prefix finds.

* `Components.enumerates` — the entries, by replica.
-/

namespace RedGeo.Repo

open Lib Store

/-- Below the prefix there are the components of the replicas in `R`, with the values
that `f` says. -/
structure Components (R : Finset Replica) (base : List Seg) (f : Replica → Option Bytes)
    (data : Datastore) : Prop where
  value : ∀ o ∈ R, data[slotKey base o]? = f o
  only : ∀ k v, Under base k → data[k]? = some v → ∃ o ∈ R, k = slotKey base o

/-- The entry of a replica. -/
def component (base : List Seg) (f : Replica → Option Bytes) (o : Replica) : Option (Path × Bytes) :=
  (f o).map fun v => (slotKey base o, v)

/-- **What a query of components finds.** -/
theorem Components.enumerates (h : Components R base f data) :
    Enumerates R (component base f) (data.entries base) where
  nodup := (Table.nodup_of_pairwise (Table.pairwise_select data _)).of_map _
  mem_iff e := by
    rw [Datastore.mem_entries]
    constructor
    · rintro ⟨hEntry, hUnder⟩
      obtain ⟨o, ho, hk⟩ := h.only e.1 e.2 hUnder hEntry
      refine ⟨o, ho, ?_⟩
      rw [component, ← h.value o ho, ← hk, hEntry]
      rfl
    · rintro ⟨o, ho, hEq⟩
      obtain ⟨v, hv, rfl⟩ := Option.map_eq_some_iff.mp hEq
      exact ⟨(h.value o ho).trans hv, under_slotKey base o⟩
  inj i _ j _ e hi hj := by
    obtain ⟨v, -, rfl⟩ := Option.map_eq_some_iff.mp hi
    obtain ⟨v', -, hEq⟩ := Option.map_eq_some_iff.mp hj
    exact slotKey_injective base (congrArg Prod.fst hEq).symm

/-- What a load reads off the key of a component. -/
lemma trimPrefix_slotKey (hKey : key ≠ []) (w : Word) (o : Replica) :
    trimPrefix (dataBase db key ++ [.word w]) (slotKey (dataBase db key ++ [.word w]) o) = [.enc o.name] := by
  have hSlot : slotKey (dataBase db key ++ [.word w]) o = (dataBase db key ++ [.word w]) ++ [.enc o.name] := by
    simp [slotKey, dataBase, Store.part, newKey, hKey, o.nonempty]
  rw [hSlot, trimPrefix, if_pos (List.prefix_append _ _), List.drop_left]

end RedGeo.Repo
