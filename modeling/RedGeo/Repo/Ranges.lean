import RedGeo.Repo.Fields

/-!
# RedGeo — reversed ranges of sorted sets

`ZRANGE`, `ZREVRANGE` and `ZREVRANGEBYSCORE` of `command/zset/zset.go`, from where
their arguments are parsed. `applyRange` takes a range of ranks in ascending order
and reverses it afterwards, and `ZRANGE` takes the least score first also with `REV`:

* `ranges_by_revRank_iff` — the members with the reverse ranks of a range are
  returned if the range is its own mirror image.
* `scores_reversed_iff` — the two reversed queries by score reply the same if
  their bounds are equal or the limit skips all that lies between them.
-/

namespace RedGeo.Repo

open Lib Store List Except Prod

section

variable (r : Db) (key : Bytes)

/-- `ZRange.Run`, with the fields of the command: the items that are written and returned. -/
def zRange (start stop : Float64) (byScore rev : Bool) (offset cnt : Int) : ReadM (List ZItem) :=
  zsetRange r key {
    range := if byScore then .score start stop else .rank start.toInt64.toInt stop.toInt64.toInt
    desc := rev, offset, count := cnt }

/-- `ZRevRange.Run`. -/
def zRevRange (start stop : Int64) : ReadM (List ZItem) :=
  zsetRange r key { range := .rank start.toInt stop.toInt, desc := true }

/-- `ZRangeByScore.Run`, after `ParseZRangeByScore`: with `rev` the greatest score comes first. -/
def zRangeByScore (a bb : Float64) (rev : Bool) (offset cnt : Int) : ReadM (List ZItem) :=
  let (min, max) := if rev then (bb, a) else (a, bb)
  zsetRange r key { range := .score min max, desc := rev, offset, count := cnt }

/-- The key holds a sorted set, or nothing. -/
def IsZSet (w : World) : Prop := ∀ k ∈ probeAt r key w.data (w.now 0), k.type = typeZSet

instance (w : World) : Decidable (IsZSet r key w) :=
  inferInstanceAs (Decidable (∀ k ∈ probeAt r key w.data (w.now 0), k.type = typeZSet))

/-- The members in ascending order. -/
def itemsAt (w : World) : List ZItem := sortItems (scoresAt r key w.data)

end

variable {r : Db} {key : Bytes} {w : World}

lemma perm_itemsAt : (itemsAt r key w).Perm (scoresAt r key w.data) := mergeSort_perm _ _

lemma nodup_itemsAt : ((itemsAt r key w).map fst).Nodup :=
  (perm_itemsAt.map _).nodup_iff.mpr ((map_fst_filterMap_sublist _ _ _).nodup (nodup_liveSlots _ _))

section

variable (hZSet : IsZSet r key w)

include hZSet

/-- What reads a sorted set finds its members in order. -/
lemma exec_sorted {α : Type} (f : List ZItem → ReadM α) :
    (do ensureType r typeZSet key; let items ← sortedItems r key; f items : ReadM α).exec w =
      (f (itemsAt r key w)).exec (w.probed r key) := by
  have hOk : (ensureType r typeZSet key).exec w = (.ok (), w.probed r key) := by
    rw [ensureType, read_bind (exec_probe r key w)]
    split
    · next k hFound =>
      rw [if_neg (not_not_intro (hZSet k hFound))]
      rfl
    · rfl
  have hScores : (zsetLiveScores r key).exec (w.probed r key) = (.ok (scoresAt r key _), _) := exec_load _ _ _
  rw [World.data_probed] at hScores
  rw [read_bind hOk]
  exact read_bind (read_bind hScores _) _

lemma exec_zsetRange (opts : RangeOpts) :
    ((zsetRange r key opts).exec w).1 = .ok (applyRange (itemsAt r key w) opts) :=
  congrArg fst (exec_sorted hZSet _)

/-! ## Ranks -/

omit hZSet

/-- A rank in the normalized range from `a` to `b`, of `n` members. -/
def inRange (n : Nat) (a b : Int) (i : Nat) : Prop := normIndex a n ≤ i ∧ i ≤ normIndex b n

instance (n : Nat) (a b : Int) (i : Nat) : Decidable (inRange n a b i) :=
  inferInstanceAs (Decidable (normIndex a n ≤ i ∧ i ≤ normIndex b n))

lemma mem_selectRange :
    it ∈ selectRange items (.rank a b) ↔ ∃ i, items[i]? = some it ∧ inRange items.length a b i := by
  have hBelow : ∀ i, items[i]? = some it → i < items.length := fun i h => (List.getElem?_eq_some_iff.mp h).1
  simp only [selectRange, inRange]
  split
  · simp only [mem_iff_getElem?, getElem?_take, getElem?_drop, Option.ite_none_right_eq_some]
    constructor
    · rintro ⟨i, hi, h⟩
      exact ⟨_, h, by omega⟩
    · rintro ⟨i, h, hi⟩
      have := hBelow i h
      exact ⟨i - (max 0 (normIndex a items.length)).toNat, by omega, by rwa [Nat.add_sub_cancel' (by omega)]⟩
  · refine ⟨fun h => absurd h not_mem_nil, ?_⟩
    rintro ⟨i, h, hi⟩
    have := hBelow i h
    omega

/-- `ZREVRANK` of a member. -/
def RevRanked (r : Db) (key : Bytes) (w : World) (it : ZItem) (i : Nat) : Prop :=
  ((zsetRank r key it.1 true).exec w).1 = .ok (i, it.2)

/-- The items are those whose `ZREVRANK` lies in the range, in increasing order. -/
def ByRevRank (r : Db) (key : Bytes) (w : World) (a b : Int) (l : List ZItem) : Prop :=
  (∀ it, it ∈ l ↔ ∃ i, RevRanked r key w it i ∧ inRange (scoresAt r key w.data).length a b i) ∧
  l.Pairwise fun x y => ∃ i j, RevRanked r key w x i ∧ RevRanked r key w y j ∧ i < j

/-- The range from `a'` to `b'` is the mirror image of the one from `a` to `b`. -/
def Mirrored (n : Nat) (a b a' b' : Int) : Prop := ∀ i < n, inRange n a' b' (n - 1 - i) ↔ inRange n a b i

instance (n : Nat) (a b a' b' : Int) : Decidable (Mirrored n a b a' b') :=
  inferInstanceAs (Decidable (∀ i < n, inRange n a' b' (n - 1 - i) ↔ inRange n a b i))

include hZSet

/-- It is the position in the descending order. -/
lemma revRanked_iff : RevRanked r key w it i ↔ (itemsAt r key w).reverse[i]? = some it := by
  set items := (itemsAt r key w).reverse with hItems
  have hNames : (items.map fst).Nodup := by
    rw [hItems, map_reverse, nodup_reverse]
    exact nodup_itemsAt
  rw [RevRanked, zsetRank, exec_sorted hZSet]
  simp only [if_true, ← hItems]
  split
  · next j hFind =>
    obtain ⟨hj, hName, -⟩ := findIdx?_eq_some_iff_getElem.mp hFind
    have hScore : (items.map snd).getD j (.zero false) = items[j].2 := by simp [hj]
    rw [hScore]
    constructor
    · intro h
      obtain ⟨rfl, hEq⟩ := mk.inj (ok.inj h)
      rw [getElem?_eq_getElem hj]
      exact congrArg some (Prod.ext (of_decide_eq_true hName) hEq)
    · intro h
      obtain ⟨hi, rfl⟩ := List.getElem?_eq_some_iff.mp h
      obtain rfl : j = i := by
        refine (getElem?_inj (by simpa using hj) hNames).mp ?_
        simpa [hi, hj] using hName
      rfl
  · next hFind =>
    exact ⟨fun h => (by cases h), fun h => absurd (findIdx?_eq_none_iff.mp hFind it (mem_of_getElem? h)) (by simp)⟩

/-- What a reversed range of ranks returns. -/
lemma byRevRank_iff :
    (∃ l, ((zsetRange r key { range := .rank a' b', desc := true }).exec w).1 = .ok l ∧
      ByRevRank r key w a b l) ↔ Mirrored (scoresAt r key w.data).length a b a' b' := by
  have hLength : (itemsAt r key w).length = (scoresAt r key w.data).length := perm_itemsAt.length_eq
  have hNodup : (itemsAt r key w).reverse.Nodup := nodup_reverse.mpr nodup_itemsAt.of_map
  rw [exec_zsetRange hZSet]
  simp only [ok.injEq, exists_eq_left', ByRevRank, revRanked_iff hZSet, ← hLength]
  set items := itemsAt r key w
  show (∀ it, it ∈ (selectRange items (.rank a' b')).reverse ↔ _) ∧ _ ↔ _
  have hMem : ∀ it, it ∈ (selectRange items (.rank a' b')).reverse ↔
      ∃ i, items.reverse[i]? = some it ∧ inRange items.length a' b' (items.length - 1 - i) := by
    intro it
    rw [mem_reverse, mem_selectRange]
    constructor
    · rintro ⟨i, h, hi⟩
      have hLt := (List.getElem?_eq_some_iff.mp h).1
      refine ⟨items.length - 1 - i, ?_, ?_⟩
      · rw [getElem?_reverse (by omega), ← h]
        congr 1
        omega
      · rwa [show items.length - 1 - (items.length - 1 - i) = i by omega]
    · rintro ⟨i, h, hi⟩
      have hLt : i < items.length := by simpa using (List.getElem?_eq_some_iff.mp h).1
      exact ⟨_, (getElem?_reverse hLt).symm.trans h, hi⟩
  have hSublist : (selectRange items (.rank a' b')).Sublist items := by
    rw [selectRange]
    split
    · exact (take_sublist _ _).trans (drop_sublist _ _)
    · exact nil_sublist _
  have hOrder : items.reverse.Pairwise fun x y =>
      ∃ i j : Nat, items.reverse[i]? = some x ∧ items.reverse[j]? = some y ∧ i < j :=
    pairwise_iff_getElem.mpr fun i j hi hj hLt => ⟨i, j, getElem?_eq_getElem hi, getElem?_eq_getElem hj, hLt⟩
  refine (and_iff_left (hOrder.sublist (reverse_sublist.mpr hSublist))).trans
    ⟨fun h i hi => ?_, fun h it => (hMem it).trans ?_⟩
  · -- members at different positions are different
    obtain ⟨it, hSome⟩ : ∃ it, items.reverse[i]? = some it := ⟨_, getElem?_eq_getElem (by simpa using hi)⟩
    have hOnly : ∀ j, items.reverse[j]? = some it → j = i := fun j hj =>
      ((getElem?_inj (by simpa using hi) hNodup).mp (hSome.trans hj.symm)).symm
    have hBoth := (hMem it).symm.trans (h it)
    constructor
    · intro hIn
      obtain ⟨j, hj, hIn'⟩ := hBoth.mp ⟨i, hSome, hIn⟩
      exact hOnly j hj ▸ hIn'
    · intro hIn
      obtain ⟨j, hj, hIn'⟩ := hBoth.mpr ⟨i, hSome, hIn⟩
      exact hOnly j hj ▸ hIn'
  · refine exists_congr fun i => and_congr_right fun hi => h i ?_
    simpa using (List.getElem?_eq_some_iff.mp hi).1

omit hZSet

/-- `ZREVRANGE key a b` and `ZRANGE key a b REV` return the members by their reverse ranks. -/
def RevRangesAgree (r : Db) (key : Bytes) (w : World) (a b : Int64) : Prop :=
  (∃ l, ((zRevRange r key a b).exec w).1 = .ok l ∧ ByRevRank r key w a.toInt b.toInt l) ∧
  ∃ l, ((zRange r key (.ofInt a.toInt) (.ofInt b.toInt) false true 0 0).exec w).1 = .ok l ∧
    ByRevRank r key w a.toInt b.toInt l

/-- **Reverse ranks agree** if the range is its own mirror image: a rank `i` is in it if and only
if `n - 1 - i` is. `ZRANGE` makes integers of its bounds again after it has rounded them.

Both commands cut the ascending list and reverse what they have cut, so they return the items
whose ascending rank is in the range; the reverse rank of an item with rank `i` is `n - 1 - i`. -/
theorem ranges_by_revRank_iff (hZSet : IsZSet r key w) (a b : Int64) :
    RevRangesAgree r key w a b ↔ Mirrored (scoresAt r key w.data).length a.toInt b.toInt a.toInt b.toInt ∧
      Mirrored (scoresAt r key w.data).length a.toInt b.toInt (Float64.ofInt a.toInt).toInt64.toInt
        (Float64.ofInt b.toInt).toInt64.toInt :=
  and_congr (byRevRank_iff hZSet) (byRevRank_iff hZSet)

private def ranker : Db := ⟨.named 97, 0⟩

/-- A node after `ZADD k 1 x 2 y 3 z`. -/
private def podium : World :=
  (exec (ranker.locked [107] (zsetAddMany ranker [107]
    [([120], .ofInt 1), ([121], .ofInt 2), ([122], .ofInt 3)]))
    { clock := { wall := fun _ => 1 }, now := fun _ => 1 }).2

private lemma isZSet_podium : IsZSet ranker [107] podium := by decide +kernel

/-- The whole set. -/
theorem ranges_by_revRank_whole : RevRangesAgree ranker [107] podium 0 (-1) :=
  (ranges_by_revRank_iff isZSet_podium _ _).mpr (by decide +kernel)

/-- `ZREVRANGE k 0 0` returns the member with the least score. -/
theorem revRange_returns_least : ¬ RevRangesAgree ranker [107] podium 0 0 :=
  fun h => absurd ((byRevRank_iff isZSet_podium).mp h.1) (by decide +kernel)

/-! ## Scores -/

lemma applyRange_eq_nil :
    applyRange items opts = [] ↔ (selectRange items opts.range).length ≤ opts.offset.toNat := by
  have hDesc : (if opts.desc then (selectRange items opts.range).reverse
      else selectRange items opts.range).length = (selectRange items opts.range).length := by
    split <;> simp
  have hDrop : ∀ l : List ZItem, (if 0 < opts.offset then l.drop opts.offset.toNat else l) = [] ↔
      l.length ≤ opts.offset.toNat := by
    intro l
    split
    · exact drop_eq_nil_iff
    · next h => simp [Int.toNat_of_nonpos (not_lt.mp h)]
  rw [← hDesc, ← hDrop, applyRange]
  split
  · next h => simp [take_eq_nil_iff, show opts.count.toNat ≠ 0 by omega]
  · rfl

/-- A score in the bounds. -/
def between (min max : Float64) (it : ZItem) : Bool := min.le it.2 && it.2.le max

/-- `ZRANGE key a b BYSCORE REV LIMIT offset cnt` and `ZREVRANGEBYSCORE key a b LIMIT offset cnt`
write the same. Without `LIMIT` both numbers are zero. -/
def RevScoresAgree (r : Db) (key : Bytes) (w : World) (a b : Float64) (offset cnt : Int) (withScores : Bool) :
    Prop :=
  ((zRange r key a b true true offset cnt).exec w).1.map (writeItems · withScores) =
    ((zRangeByScore r key a b true offset cnt).exec w).1.map (writeItems · withScores)

include hZSet

/-- What is replied are the ranges from `a` to `b` and from `b` to `a`; if the bounds differ,
one of them has no members. -/
lemma revScoresAgree_of_ne (hNe : ¬ a.eq b = true) : RevScoresAgree r key w a b offset cnt withScores ↔
    (scoresAt r key w.data).countP (between a b) + (scoresAt r key w.data).countP (between b a) ≤
    offset.toNat := by
  rw [RevScoresAgree, zRange, zRangeByScore, exec_zsetRange hZSet, exec_zsetRange hZSet, ← perm_itemsAt.countP_eq,
    ← perm_itemsAt.countP_eq, countP_eq_length_filter, countP_eq_length_filter]
  set items := itemsAt r key w
  have hWrites : ∀ l : List ZItem, writeItems l withScores = writeItems [] withScores ↔ l = [] := by
    intro l
    cases l <;> cases withScores <;> simp [writeItems]
  have hOne : items.filter (between a b) = [] ∨ items.filter (between b a) = [] := by
    refine or_iff_not_imp_left.mpr fun hSome => eq_nil_iff_forall_not_mem.mpr fun y hy => hNe ?_
    obtain ⟨x, hx⟩ := exists_mem_of_ne_nil _ hSome
    have hx := (mem_filter.mp hx).2
    have hy := (mem_filter.mp hy).2
    simp only [between, Float64.le, Bool.and_eq_true, decide_eq_true_iff] at hx hy
    simp only [Float64.eq, hx.1.1.1, hy.1.1.1, Bool.and_self, Bool.true_and, decide_eq_true_iff]
    omega
  show ok (writeItems (applyRange items ⟨.score a b, true, offset, cnt⟩) withScores) =
    .ok (writeItems (applyRange items ⟨.score b a, true, offset, cnt⟩) withScores) ↔ _
  rw [ok.injEq]
  have hNil : ∀ {a b}, items.filter (between a b) = [] → applyRange items ⟨.score a b, true, offset, cnt⟩ = [] :=
    fun h => applyRange_eq_nil.mpr ((congrArg length h).trans_le (Nat.zero_le _))
  rcases hOne with h | h
  · rw [hNil h, eq_comm, hWrites, applyRange_eq_nil, h, length_nil, Nat.zero_add]
    rfl
  · rw [hNil h, hWrites, applyRange_eq_nil, h, length_nil, Nat.add_zero]
    rfl

omit hZSet

/-- A sorted set without NaN scores, which is what determines the order of its members: on
others `zLess` is no order, and `sort.Slice` may leave them in one order for one command and in
another for the next. -/
structure Ranked (r : Db) (key : Bytes) (w : World) : Prop where
  isZSet : IsZSet r key w
  numbers : ∀ it ∈ scoresAt r key w.data, it.2.isNaN = false

/-- **The two reversed queries by score reply the same** if the bounds are equal, or if the
members between them, in whichever order, are no more than the limit skips.

Both commands reverse one ascending range, `ZREVRANGEBYSCORE` the one from `b` to `a` and `ZRANGE`
the one from `a` to `b`. Of two ranges with different bounds one is empty, so the replies agree
if nothing is left of the other either. -/
theorem scores_reversed_iff (hRanked : Ranked r key w) (a b : Float64) (offset cnt : Int) (withScores : Bool) :
    RevScoresAgree r key w a b offset cnt withScores ↔ a.eq b = true ∨
    (scoresAt r key w.data).countP (between a b) + (scoresAt r key w.data).countP (between b a) ≤
    offset.toNat := by
  have hZSet := hRanked.isZSet
  by_cases hEq : a.eq b = true
  · -- the same scores are in both ranges
    refine iff_of_true ?_ (.inl hEq)
    have hSame : between a b = between b a := by
      funext it
      simp only [Float64.eq, Bool.and_eq_true, decide_eq_true_iff] at hEq
      simp only [between, Float64.le, hEq.2]
      cases a.isNaN <;> cases b.isNaN <;> cases it.2.isNaN <;> simp
    have hSel : selectRange (itemsAt r key w) (.score a b) = selectRange (itemsAt r key w) (.score b a) :=
      congrArg (filter · _) hSame
    rw [RevScoresAgree, zRange, zRangeByScore, exec_zsetRange hZSet, exec_zsetRange hZSet]
    simp only [applyRange, if_true, hSel]
  · exact (revScoresAgree_of_ne hZSet hEq).trans (or_iff_right hEq).symm

/-- Equal bounds. -/
theorem scores_reversed_equal : RevScoresAgree ranker [107] podium (.ofInt 2) (.ofInt 2) 0 0 true :=
  (scores_reversed_iff ⟨isZSet_podium, by decide +kernel⟩ _ _ _ _ _).mpr (by decide +kernel)

/-- `ZRANGE k 1 2 BYSCORE REV` finds two members, `ZREVRANGEBYSCORE k 1 2` none. -/
theorem scores_reversed_differ : ¬ RevScoresAgree ranker [107] podium (.ofInt 1) (.ofInt 2) 0 0 false :=
  fun h => absurd ((revScoresAgree_of_ne isZSet_podium (by decide +kernel)).mp h) (by decide +kernel)

end

end RedGeo.Repo
