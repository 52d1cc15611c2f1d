import Mathlib.Data.Rat.Floor
import Mathlib.Tactic.IntervalCases

/-!
# RedGeo — geohashes

`command/geo/geohash.go`. A coordinate, here an exact number, is scaled to an index
of 26 bits; the bits of the two indexes alternate in the score. The bounds of
`validCoord` are closed, the grid is not: at the upper bounds the index has 27 bits.
The bits themselves are exact in the code too: `scores_interleave`.
-/

namespace RedGeo.Geo

open BitVec Nat

def latMax : ℚ := 85.05112878
def latMin : ℚ := -85.05112878
def lonMax : ℚ := 180
def lonMin : ℚ := -180

def spread (v : BitVec 32) : BitVec 64 :=
  let x := v.setWidth 64
  let x := (x ||| x <<< 16) &&& 0x0000ffff0000ffff#64
  let x := (x ||| x <<< 8) &&& 0x00ff00ff00ff00ff#64
  let x := (x ||| x <<< 4) &&& 0x0f0f0f0f0f0f0f0f#64
  let x := (x ||| x <<< 2) &&& 0x3333333333333333#64
  (x ||| x <<< 1) &&& 0x5555555555555555#64

def squash (x : BitVec 64) : BitVec 32 :=
  let x := x &&& 0x5555555555555555#64
  let x := (x ||| x >>> 1) &&& 0x3333333333333333#64
  let x := (x ||| x >>> 2) &&& 0x0f0f0f0f0f0f0f0f#64
  let x := (x ||| x >>> 4) &&& 0x00ff00ff00ff00ff#64
  let x := (x ||| x >>> 8) &&& 0x0000ffff0000ffff#64
  let x := (x ||| x >>> 16) &&& 0x00000000ffffffff#64
  x.setWidth 32

/-- The conversion to `uint32` drops what is behind the point. -/
def index (lo hi x : ℚ) : BitVec 32 := .ofNat 32 ⌊(x - lo) / (hi - lo) * 2 ^ 26⌋₊

def encodeRange (lon lat latLo latHi : ℚ) : BitVec 64 :=
  let la := index latLo latHi lat
  let lo := index lonMin lonMax lon
  spread la ||| spread lo <<< 1

def validCoord (lon lat : ℚ) : Prop := lonMin ≤ lon ∧ lon ≤ lonMax ∧ latMin ≤ lat ∧ lat ≤ latMax

def encode (lon lat : ℚ) : BitVec 64 := encodeRange lon lat latMin latMax

variable {a b : BitVec 32} {x lo hi lon lat : ℚ} {i : Nat}

/-! ## The bits -/

lemma getLsbD_spread_low (h : i < 32) : (spread a).getLsbD i = (decide (i % 2 = 0) && a.getLsbD (i / 2)) := by
  interval_cases i <;> simp [spread]

lemma getLsbD_spread (h : i < 64) : (spread a).getLsbD i = (decide (i % 2 = 0) && a.getLsbD (i / 2)) := by
  rcases lt_or_ge i 32 with hLow | hHigh
  · exact getLsbD_spread_low hLow
  · interval_cases i <;> simp [spread]

lemma getLsbD_squash {x : BitVec 64} (h : i < 32) : (squash x).getLsbD i = x.getLsbD (2 * i) := by
  interval_cases i <;> simp [squash]

lemma getLsbD_interleaved (h : i < 64) :
    (spread a ||| spread b <<< 1).getLsbD i = (if i % 2 = 0 then a else b).getLsbD (i / 2) := by
  rw [getLsbD_or, getLsbD_shiftLeft, getLsbD_spread h, getLsbD_spread (by omega)]
  split
  · next hEven =>
    have hOdd : i = 0 ∨ (i - 1) % 2 = 1 := by omega
    rcases hOdd with rfl | hOdd <;> simp [*]
  · next hOdd =>
    have hHalf : (i - 1) / 2 = i / 2 ∧ (i - 1) % 2 = 0 ∧ 0 < i := by omega
    simp [*]
    omega

lemma squash_even : squash (spread a ||| spread b <<< 1) = a := by
  refine eq_of_getLsbD_eq fun i hi => ?_
  rw [getLsbD_squash hi, getLsbD_interleaved (by omega), if_pos (by omega), Nat.mul_div_cancel_left i (by decide)]

lemma squash_odd : squash ((spread a ||| spread b <<< 1) >>> 1) = b := by
  refine eq_of_getLsbD_eq fun i hi => ?_
  rw [getLsbD_squash hi, getLsbD_ushiftRight, getLsbD_interleaved (by omega), if_neg (by omega),
    show (1 + 2 * i) / 2 = i by omega]

/-- **A score and its two indexes determine each other**: `decode` takes apart what `encode` has put
together, and every word of 64 bits is the score of the two indexes found in it. -/
theorem scores_interleave : (∀ bits, spread (squash bits) ||| spread (squash (bits >>> 1)) <<< 1 = bits) ∧
    ∀ lat lon, squash (spread lat ||| spread lon <<< 1) = lat ∧
      squash ((spread lat ||| spread lon <<< 1) >>> 1) = lon := by
  refine ⟨fun bits => eq_of_getLsbD_eq fun i hi => ?_, fun lat lon => ⟨squash_even, squash_odd⟩⟩
  rw [getLsbD_interleaved hi]
  split
  · rw [getLsbD_squash (by omega), show 2 * (i / 2) = i by omega]
  · rw [getLsbD_squash (by omega), getLsbD_ushiftRight, show 1 + 2 * (i / 2) = i by omega]

lemma interleaved_lt (ha : a.toNat < 2 ^ 26) (hb : b.toNat < 2 ^ 26) :
    (spread a ||| spread b <<< 1).toNat < 2 ^ 52 := by
  refine lt_pow_two_of_testBit _ fun i hi => ?_
  rw [testBit_toNat]
  by_cases hWide : i < 64
  · rw [getLsbD_interleaved hWide, ← testBit_toNat]
    have hPow : 2 ^ 26 ≤ 2 ^ (i / 2) := Nat.pow_le_pow_right (by decide) (by omega)
    exact Nat.testBit_lt_two_pow (by split <;> omega)
  · exact getLsbD_of_ge _ _ (by omega)

/-! ## The cells -/

/-- A coordinate is in a cell of the grid. -/
def InCell (lo hi x : ℚ) (i : Nat) : Prop :=
  i < 2 ^ 26 ∧ lo + i / 2 ^ 26 * (hi - lo) ≤ x ∧ x < lo + (i + 1) / 2 ^ 26 * (hi - lo)

lemma InCell.lt_hi (hRange : lo < hi) (h : InCell lo hi x i) : x < hi := by
  have hIndex : ((i : ℚ) + 1) / 2 ^ 26 ≤ 1 := by
    rw [div_le_one (by norm_num)]
    exact_mod_cast h.1
  nlinarith [h.2.2]

lemma inCell_index (hLo : lo ≤ x) (hHi : x < hi) : InCell lo hi x (index lo hi x).toNat := by
  have hRange : 0 < hi - lo := by linarith
  obtain ⟨q, hq⟩ : ∃ q, q = (x - lo) / (hi - lo) := ⟨_, rfl⟩
  obtain rfl : x = lo + q * (hi - lo) := by rw [hq, div_mul_cancel₀ _ hRange.ne']; ring
  have hNonneg : 0 ≤ q := nonneg_of_mul_nonneg_left (by linarith) hRange
  have hLt : ⌊q * 2 ^ 26⌋₊ < 2 ^ 26 := by
    rw [floor_lt (by positivity)]
    push_cast
    nlinarith
  rw [index, ← hq, toNat_ofNat, mod_eq_of_lt (by omega)]
  have hFloor : (⌊q * 2 ^ 26⌋₊ : ℚ) / 2 ^ 26 ≤ q := (div_le_iff₀ (by norm_num)).mpr (floor_le (by positivity))
  have hNext : q < (⌊q * 2 ^ 26⌋₊ + 1) / 2 ^ 26 := (lt_div_iff₀ (by norm_num)).mpr (lt_floor_add_one _)
  exact ⟨hLt, by gcongr, by gcongr⟩

/-- **A score is the cell of its coordinate**, of 52 bits, below the upper bounds and
nowhere else. -/
theorem encode_cell (h : validCoord lon lat) :
    ((encode lon lat).toNat < 2 ^ 52 ∧ InCell latMin latMax lat (squash (encode lon lat)).toNat ∧
      InCell lonMin lonMax lon (squash (encode lon lat >>> 1)).toNat) ↔ lon < lonMax ∧ lat < latMax := by
  obtain ⟨hLonMin, -, hLatMin, -⟩ := h
  rw [encode, encodeRange, squash_even, squash_odd]
  refine ⟨fun ⟨_, hLat, hLon⟩ => ?_, fun ⟨hLon, hLat⟩ => ?_⟩
  · exact ⟨hLon.lt_hi (by norm_num [lonMin, lonMax]), hLat.lt_hi (by norm_num [latMin, latMax])⟩
  · have hLatCell := inCell_index hLatMin hLat
    have hLonCell := inCell_index hLonMin hLon
    exact ⟨interleaved_lt hLatCell.1 hLonCell.1, hLatCell, hLonCell⟩

theorem encode_cell_origin : (encode 0 0).toNat < 2 ^ 52 :=
  ((encode_cell (by norm_num [validCoord, lonMin, lonMax, latMin, latMax])).mpr
    (by norm_num [lonMax, latMax])).1

/-- At the antimeridian the score has 54 bits. -/
theorem encode_antimeridian : validCoord 180 0 ∧ 2 ^ 53 ≤ (encode 180 0).toNat := by
  refine ⟨by norm_num [validCoord, lonMin, lonMax, latMin, latMax], ?_⟩
  have hLat : index latMin latMax 0 = 0x2000000#32 := by norm_num [index, latMin, latMax]
  have hLon : index lonMin lonMax 180 = 0x4000000#32 := by norm_num [index, lonMin, lonMax]
  rw [encode, encodeRange, hLat, hLon]
  decide

end RedGeo.Geo
