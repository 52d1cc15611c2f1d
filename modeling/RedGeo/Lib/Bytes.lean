import Mathlib.Data.List.Lex
import Mathlib.Tactic.Ring

/-!
# RedGeo — byte strings

Binary keys and values are lists of bytes. Go compares strings byte by byte,
which is the lexicographic order on such lists; fixed-width integers are stored
with their most significant byte first.

* `toBe w n` — the `w` bytes of `n`, and `ofBe` — the number they stand for.
* `ofBe_toBe` — reading back what was stored gives `n` modulo `256 ^ w`.
-/

namespace RedGeo.Lib

open List Nat

abbrev Bytes := List UInt8

instance linearOrderUInt8 : LinearOrder UInt8 where
  le_refl _ := UInt8.le_refl _
  le_trans _ _ _ := UInt8.le_trans
  lt_iff_le_not_ge a b := by
    rw [UInt8.not_le]
    exact ⟨fun h => ⟨UInt8.le_of_lt h, h⟩, fun h => h.2⟩
  le_antisymm _ _ := UInt8.le_antisymm
  le_total _ _ := UInt8.le_total _ _
  toDecidableLE := inferInstance
  toDecidableEq := inferInstance
  toDecidableLT := inferInstance

instance lawfulBEqBytes : LawfulBEq Bytes := inferInstanceAs (LawfulBEq (List UInt8))

/-- The `w` bytes of `n`, most significant first. -/
def toBe : Nat → Nat → Bytes
  | 0, _ => []
  | w + 1, n => UInt8.ofNat (n / 256 ^ w) :: toBe w n

variable (bs : Bytes)

/-- The number that bytes stand for, most significant first. -/
def ofBe : Nat := bs.foldl (fun n b => n * 256 + b.toNat) 0

@[simp] lemma length_toBe (w n : Nat) : (toBe w n).length = w := by
  induction w with
  | zero => rfl
  | succ w ih => rw [toBe, length_cons, ih]

/-- Reading the bytes of `n` after others that read as `m`. -/
lemma foldl_toBe (w n m : Nat) :
    (toBe w n).foldl (fun n b => n * 256 + b.toNat) m = m * 256 ^ w + n % 256 ^ w := by
  induction w generalizing m with
  | zero => simp [toBe, mod_one]
  | succ w ih =>
    have hByte : (UInt8.ofNat (n / 256 ^ w)).toNat = n / 256 ^ w % 256 := rfl
    rw [toBe, foldl_cons, ih, hByte, mod_pow_succ]
    ring

/-- **Reading back what was stored.** -/
theorem ofBe_toBe (w n : Nat) : ofBe (toBe w n) = n % 256 ^ w := by
  rw [ofBe, foldl_toBe, zero_mul, zero_add]

lemma ofBe_toBe_of_lt {w n : Nat} (h : n < 256 ^ w) : ofBe (toBe w n) = n := by
  rw [ofBe_toBe, mod_eq_of_lt h]

lemma ofBe_cons (b : UInt8) (bs : Bytes) : ofBe (b :: bs) = b.toNat * 256 ^ bs.length + ofBe bs := by
  have hFold : ∀ m, bs.foldl (fun n b => n * 256 + b.toNat) m = m * 256 ^ bs.length + ofBe bs := by
    induction bs with
    | nil => simp [ofBe]
    | cons c bs ih =>
      intro m
      rw [ofBe, foldl_cons, foldl_cons, ih, ih, length_cons]
      ring
  rw [ofBe, foldl_cons, hFold, zero_mul, zero_add]

lemma ofBe_lt : ofBe bs < 256 ^ bs.length := by
  induction bs with
  | nil => decide
  | cons b bs ih =>
    have hByte : b.toNat + 1 ≤ 256 := b.toNat_lt
    calc ofBe (b :: bs) = b.toNat * 256 ^ bs.length + ofBe bs := ofBe_cons b bs
      _ < b.toNat * 256 ^ bs.length + 256 ^ bs.length := by omega
      _ = (b.toNat + 1) * 256 ^ bs.length := by ring
      _ ≤ 256 * 256 ^ bs.length := mul_le_mul_right _ hByte
      _ = 256 ^ (b :: bs).length := by rw [length_cons]; ring

lemma ofBe_inj {bs cs : Bytes} (hLen : bs.length = cs.length) (h : ofBe bs = ofBe cs) : bs = cs := by
  induction bs generalizing cs with
  | nil => exact (length_eq_zero_iff.mp hLen.symm).symm
  | cons b bs ih =>
    obtain _ | ⟨c, cs⟩ := cs
    · cases hLen
    have hTail : bs.length = cs.length := succ.inj hLen
    rw [ofBe_cons, ofBe_cons, hTail] at h
    have hPos : 0 < 256 ^ cs.length := Nat.pow_pos (by decide)
    -- the first byte is the quotient, the rest the remainder
    have hDiv := congrArg (· / 256 ^ cs.length) h
    have hMod := congrArg (· % 256 ^ cs.length) h
    simp only [add_comm (_ * _), add_mul_div_right _ _ hPos, add_mul_mod_self_right] at hDiv hMod
    have hBs : ofBe bs < 256 ^ cs.length := hTail ▸ ofBe_lt bs
    rw [div_eq_of_lt hBs, div_eq_of_lt (ofBe_lt cs)] at hDiv
    rw [mod_eq_of_lt hBs, mod_eq_of_lt (ofBe_lt cs)] at hMod
    rw [ih hTail hMod, UInt8.toNat_inj.mp (by omega : b.toNat = c.toNat)]

/-- **Storing again what was read.** -/
theorem toBe_ofBe : toBe bs.length (ofBe bs) = bs :=
  ofBe_inj (length_toBe _ _) (ofBe_toBe_of_lt (ofBe_lt bs))

end RedGeo.Lib
