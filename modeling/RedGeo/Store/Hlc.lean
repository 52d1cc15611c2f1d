import Mathlib.Data.Prod.Lex
import RedGeo.Lib.Bytes
import RedGeo.Lib.Run

/-!
# RedGeo — the hybrid logical clock

`hlc/hlc.go`. A stamp is a wall-clock millisecond with a logical counter; every
register write of a replica carries one. `Now` follows the wall clock while it
advances and counts up while it does not. The counter is a 32-bit one and wraps
around, which is the one case (`Clock.Wraps`) in which a stamp does not exceed
the one before (`Clock.last_lt_now`), or one that was observed (`now_exceeds`).

The wall clock is what the code makes it, a function that is called again and
again: `Clock.wall i` is its `i`-th reading, and nothing is assumed of it.
-/

namespace RedGeo.Store

open Lib UInt32 Int64

structure Stamp where
  wallMS : Int64
  logical : UInt32
  deriving DecidableEq, Repr

namespace Stamp

def compare (a b : Stamp) : Ordering :=
  if a.wallMS < b.wallMS then .lt
  else if b.wallMS < a.wallMS then .gt
  else if a.logical < b.logical then .lt
  else if b.logical < a.logical then .gt
  else .eq

section

variable (a : Stamp)

/-- `Encode`: 8 bytes of wall time, 4 of the counter. -/
def encode : Bytes := toBe 8 a.wallMS.toUInt64.toNat ++ toBe 4 a.logical.toNat

def decode (b : Bytes) : Option Stamp :=
  if b.length ≠ 12 then none
  else some ⟨(UInt64.ofNat (ofBe (b.take 8))).toInt64, UInt32.ofNat (ofBe (b.drop 8))⟩

@[simp] lemma length_encode : a.encode.length = 12 := by
  simp [encode]

lemma decode_encode : decode a.encode = some a := by
  have hWall : a.encode.take 8 = toBe 8 a.wallMS.toUInt64.toNat :=
    List.take_left' (length_toBe _ _)
  have hLogical : a.encode.drop 8 = toBe 4 a.logical.toNat :=
    List.drop_left' (length_toBe _ _)
  have hWallLt : a.wallMS.toUInt64.toNat < 256 ^ 8 := UInt64.toNat_lt _
  have hLogicalLt : a.logical.toNat < 256 ^ 4 := toNat_lt _
  rw [decode, if_neg (by simp), hWall, hLogical, ofBe_toBe_of_lt hWallLt, ofBe_toBe_of_lt hLogicalLt]
  simp

/-! ## The order -/

/-- Stamps are ordered by wall time, then by counter. -/
def key : ℤ ×ₗ ℕ := toLex (a.wallMS.toInt, a.logical.toNat)

end

lemma key_injective : Function.Injective key := by
  intro a b h
  obtain ⟨hWall, hLogical⟩ := Prod.mk.inj (toLex.injective h)
  obtain ⟨w, l⟩ := a
  obtain rfl : w = b.wallMS := toInt_inj.mp hWall
  obtain rfl : l = b.logical := UInt32.toNat_inj.mp hLogical
  rfl

instance : LinearOrder Stamp := LinearOrder.lift' key key_injective

lemma lt_iff {a b : Stamp} : a < b ↔ a.wallMS < b.wallMS ∨ a.wallMS = b.wallMS ∧ a.logical < b.logical := by
  have hLex : a < b ↔ a.wallMS.toInt < b.wallMS.toInt ∨
      a.wallMS.toInt = b.wallMS.toInt ∧ a.logical.toNat < b.logical.toNat :=
    Prod.Lex.toLex_lt_toLex
  rw [hLex, lt_iff_toInt_lt, toInt_inj, lt_iff_toNat_lt]

/-- **`Compare` is the comparison of that order.** -/
theorem compare_eq_cmp (a b : Stamp) : a.compare b = cmp a b := by
  rw [compare]
  by_cases hWall : a.wallMS < b.wallMS
  · rw [if_pos hWall, (cmp_eq_lt_iff a b).mpr (lt_iff.mpr (.inl hWall))]
  rw [if_neg hWall]
  by_cases hWall' : b.wallMS < a.wallMS
  · rw [if_pos hWall', (cmp_eq_gt_iff a b).mpr (lt_iff.mpr (.inl hWall'))]
  rw [if_neg hWall']
  -- neither wall time is earlier: the counters decide
  have hEq : a.wallMS = b.wallMS := by
    rw [lt_iff_toInt_lt] at hWall hWall'
    exact toInt_inj.mp (by omega)
  by_cases hLogical : a.logical < b.logical
  · rw [if_pos hLogical, (cmp_eq_lt_iff a b).mpr (lt_iff.mpr (.inr ⟨hEq, hLogical⟩))]
  rw [if_neg hLogical]
  by_cases hLogical' : b.logical < a.logical
  · rw [if_pos hLogical', (cmp_eq_gt_iff a b).mpr (lt_iff.mpr (.inr ⟨hEq.symm, hLogical'⟩))]
  rw [if_neg hLogical']
  refine ((cmp_eq_eq_iff a b).mpr (key_injective ?_)).symm
  rw [lt_iff_toNat_lt] at hLogical hLogical'
  rw [key, key, hEq, show a.logical.toNat = b.logical.toNat by omega]

end Stamp

/-! ## The clock -/

structure Clock where
  last : Stamp := ⟨0, 0⟩
  wall : Nat → Int64
  calls : Nat := 0

namespace Clock

variable {c : Clock} {calls n : Nat}

def now (c : Clock) : Stamp × Clock :=
  let pt := c.wall c.calls
  let last := if c.last.wallMS < pt then ⟨pt, 0⟩ else { c.last with logical := c.last.logical + 1 }
  (last, { c with last := last, calls := c.calls + 1 })

@[simp] lemma now_last (c : Clock) : c.now.2.last = c.now.1 := rfl

/-- The clock after some calls. -/
def after (c : Clock) : Nat → Clock
  | 0 => c
  | n + 1 => (c.after n).now.2

/-- The next reading does not advance, and the counter is at its end. -/
def Wraps (c : Clock) : Prop :=
  c.wall c.calls ≤ c.last.wallMS ∧ c.last.logical + 1 = 0

instance (c : Clock) : Decidable c.Wraps := inferInstanceAs (Decidable (_ ∧ _))

/-- **Stamps increase**, unless the counter wraps around. -/
theorem last_lt_now (h : ¬ c.Wraps) : c.last < c.now.1 := by
  rw [Stamp.lt_iff, now]
  dsimp only
  split
  · next hAdvance => exact .inl hAdvance
  · next hStay =>
    refine .inr ⟨rfl, ?_⟩
    have hNext : c.last.logical + 1 ≠ 0 := fun hZero => h ⟨Int64.not_lt.mp hStay, hZero⟩
    -- the counter is below its end, so that adding one is adding one
    have hLt := UInt32.toNat_lt c.last.logical
    rw [UInt32.lt_iff_toNat_lt, UInt32.toNat_add]
    have hNat : (c.last.logical.toNat + 1) % 2 ^ 32 ≠ 0 := by
      intro hZero
      exact hNext (UInt32.toNat_inj.mp (by rw [UInt32.toNat_add]; exact hZero))
    have hOne : (1 : UInt32).toNat = 1 := rfl
    omega

section

variable (c : Clock)

lemma after_now (n : Nat) : c.now.2.after n = c.after (n + 1) := by
  induction n with
  | zero => rfl
  | succ n ih =>
    show (c.now.2.after n).now.2 = (c.after (n + 1)).now.2
    rw [ih]

/-- The last stamp was drawn by the call before. -/
@[simp] lemma after_last (n : Nat) : (c.after (n + 1)).last = (c.after n).now.1 := rfl

lemma after_after (m n : Nat) : (c.after m).after n = c.after (m + n) := by
  induction n with
  | zero => rfl
  | succ n ih => rw [after, ih, ← Nat.add_assoc, after]

/-- The counter does not wrap around in the next calls. -/
def Steady (calls : Nat) : Prop := ∀ n < calls, ¬ (c.after n).Wraps

end

instance (c : Clock) (calls : Nat) : Decidable (c.Steady calls) :=
  inferInstanceAs (Decidable (∀ n < calls, ¬ (c.after n).Wraps))

lemma Steady.after (h : c.Steady (n + calls)) : (c.after n).Steady calls := by
  intro m hLt
  rw [after_after]
  exact h (n + m) (by omega)

/-- The stamps to come are later than the last one. -/
lemma Steady.last_lt (h : c.Steady calls) (hLt : n < calls) : c.last < (c.after n).now.1 := by
  induction n with
  | zero => exact last_lt_now (h 0 hLt)
  | succ n ih =>
    have hNext := last_lt_now (h (n + 1) hLt)
    rw [after_last] at hNext
    exact (ih (by omega)).trans hNext

/-- Stamps that are drawn later are later. -/
lemma Steady.now_lt (h : c.Steady calls) {m : Nat} (hLt : m < n) (hCalls : n < calls) :
    (c.after m).now.1 < (c.after n).now.1 := by
  have hRest : c.Steady (m + 1 + (calls - (m + 1))) := by
    rwa [Nat.add_sub_cancel' (by omega)]
  have hLast := hRest.after.last_lt (n := n - (m + 1)) (by omega)
  rw [after_after, Nat.add_sub_cancel' hLt, after_last] at hLast
  exact hLast

/-! ## Observed stamps -/

/-- A clock whose last stamp is the later of its own and a remote one. -/
def seen (c : Clock) (remote : Stamp) : Clock :=
  if remote.compare c.last = .gt then { c with last := remote } else c

/-- `Observe`. From the later stamp on, its two cases are those of `Now`. -/
def observe (c : Clock) (remote : Stamp) : Clock := (c.seen remote).now.2

/-- What is done with a clock. -/
inductive Use
  | now
  | observe (remote : Stamp)

variable (s : Clock × List Stamp)

/-- A clock, with the stamps that it returned or was shown. -/
def use : Use → Option (Clock × List Stamp)
  | .now => some (s.1.now.2, s.1.now.1 :: s.2)
  | .observe remote => some (s.1.observe remote, remote :: s.2)

/-- The counter does not wrap around in a call. -/
def Counts : Use → Prop
  | .now => ¬ s.1.Wraps
  | .observe remote => ¬ (s.1.seen remote).Wraps

lemma le_seen (c : Clock) (remote : Stamp) : c.last ≤ (c.seen remote).last ∧ remote ≤ (c.seen remote).last := by
  have hGt : remote.compare c.last = .gt ↔ c.last < remote := by
    rw [Stamp.compare_eq_cmp, cmp_eq_gt_iff]
  rw [seen]
  split
  · next hLater => exact ⟨(hGt.mp hLater).le, le_rfl⟩
  · next hEarlier => exact ⟨le_rfl, not_lt.mp (hEarlier ∘ hGt.mpr)⟩

/-- The last stamp of a clock is not before any that it returned or was shown. -/
lemma le_last_of_reach {s : Clock × List Stamp} (h : Reach use Counts (c, []) s) : ∀ x ∈ s.2, x ≤ s.1.last := by
  induction h with
  | init => simp
  | @next s s' u _ hCounts hUse ih =>
    cases u with
    | now =>
      cases hUse
      rintro x (_ | ⟨_, hMem⟩)
      · exact le_rfl
      · exact (ih x hMem).trans (last_lt_now hCounts).le
    | observe remote =>
      cases hUse
      have hNow := (last_lt_now hCounts).le
      obtain ⟨hLast, hRemote⟩ := le_seen s.1 remote
      rintro x (_ | ⟨_, hMem⟩)
      · exact hRemote.trans hNow
      · exact (ih x hMem).trans (hLast.trans hNow)

/-- **A stamp is later than all that the clock returned or was shown before**, in
every run in which the counter does not wrap around. -/
theorem now_exceeds {s : Clock × List Stamp} (h : Reach use Counts (c, []) s) (hNow : Counts s .now) :
    ∀ x ∈ s.2, x < s.1.now.1 :=
  fun x hMem => (le_last_of_reach h x hMem).trans_lt (last_lt_now hNow)

theorem now_exceeds_observed : (⟨7, 3⟩ : Stamp) < ({ wall := fun _ => 5 : Clock }.observe ⟨7, 3⟩).now.1 :=
  now_exceeds (.next (a := .observe ⟨7, 3⟩) .init (by decide : ¬ Wraps _) rfl) (by decide : ¬ Wraps _) _
    List.mem_cons_self

/-- An observed counter at its end: the next stamp is an earlier one. -/
theorem observed_wraps : ({ wall := fun _ => 5 : Clock }.observe ⟨7, 0xffffffff⟩).now.1 < ⟨7, 0xffffffff⟩ := by
  decide

end Clock

end RedGeo.Store
