import RedGeo.Lib.Bytes

/-!
# Base32 without padding

Bytes are taken five at a time and written as eight characters of five bits;
what is left at the end is filled up with zero bits to whole characters. The
alphabet is `A`–`Z`, `2`–`7`.

Reading takes eight characters at a time. A last group of 1, 3 or 6 characters
is no encoding of anything, and reads as no bytes; bits beyond the last whole
byte are ignored, and so are line breaks.

* `base32Decode_encode` — reading gives back what was written.
-/

namespace RedGeo.Lib

open List Nat

variable (bs : Bytes) (ds : List Nat)

def base32Char (v : Nat) : UInt8 := UInt8.ofNat (if v < 26 then 65 + v else 24 + v)

def base32Value (c : UInt8) : Option Nat :=
  if 65 ≤ c.toNat ∧ c.toNat ≤ 90 then some (c.toNat - 65)
  else if 50 ≤ c.toNat ∧ c.toNat ≤ 55 then some (c.toNat - 24)
  else none

/-- The `w` digits of `n` to the base 32, most significant first. -/
def toBase32 : Nat → Nat → List Nat
  | 0, _ => []
  | w + 1, n => n / 32 ^ w % 32 :: toBase32 w n

/-- The number that digits to the base 32 stand for. -/
def ofBase32 (ds : List Nat) : Nat := ds.foldl (fun n d => n * 32 + d) 0

/-- How many characters `k` bytes take. -/
def charsFor (k : Nat) : Nat := (8 * k + 4) / 5

/-- How many bytes a group of `j` characters gives. -/
def bytesFor (j : Nat) : Nat := if j ∈ [2, 4, 5, 7, 8] then 5 * j / 8 else 0

/-- At most five bytes. -/
def encodeGroup (bs : Bytes) : Bytes :=
  let j := charsFor bs.length
  (toBase32 j (ofBe bs * 2 ^ (5 * j - 8 * bs.length))).map base32Char

/-- At most eight digits. -/
def decodeGroup (ds : List Nat) : Bytes :=
  let k := bytesFor ds.length
  toBe k (ofBase32 ds / 2 ^ (5 * ds.length - 8 * k))

def base32Encode : Bytes → Bytes
  | a :: b :: c :: d :: e :: rest => encodeGroup [a, b, c, d, e] ++ base32Encode rest
  | rest => encodeGroup rest

def decodeGroups : List Nat → Bytes
  | a :: b :: c :: d :: e :: f :: g :: h :: rest =>
    decodeGroup [a, b, c, d, e, f, g, h] ++ decodeGroups rest
  | rest => decodeGroup rest

def base32Decode (s : Bytes) : Option Bytes :=
  ((s.filter fun c => c ≠ 10 ∧ c ≠ 13).mapM base32Value).map decodeGroups

/-! ## Digits -/

lemma base32Value_char (h : v < 32) : base32Value (base32Char v) = some v := by
  have hAll : ∀ v < 32, base32Value (base32Char v) = some v := by decide
  exact hAll v h

@[simp] lemma length_toBase32 (w n : Nat) : (toBase32 w n).length = w := by
  induction w with
  | zero => rfl
  | succ w ih => rw [toBase32, length_cons, ih]

lemma toBase32_lt (h : d ∈ toBase32 w n) : d < 32 := by
  induction w with
  | zero => cases h
  | succ w ih =>
    rcases mem_cons.mp h with rfl | h
    · exact mod_lt _ (by decide)
    · exact ih h

lemma ofBase32_toBase32 (w n : Nat) : ofBase32 (toBase32 w n) = n % 32 ^ w := by
  have hFold : ∀ m, (toBase32 w n).foldl (fun n d => n * 32 + d) m = m * 32 ^ w + n % 32 ^ w := by
    induction w with
    | zero => simp [toBase32, mod_one]
    | succ w ih =>
      intro m
      rw [toBase32, foldl_cons, ih, mod_pow_succ]
      ring
  rw [ofBase32, hFold, zero_mul, zero_add]

/-! ## Reading back -/

lemma decodeGroup_toBase32 (h : bs.length ≤ 5) : decodeGroup (toBase32 (charsFor bs.length)
      (ofBe bs * 2 ^ (5 * charsFor bs.length - 8 * bs.length))) = bs := by
  obtain ⟨hBytes, hFit⟩ : bytesFor (charsFor bs.length) = bs.length ∧
      8 * bs.length ≤ 5 * charsFor bs.length := by
    have hAll : ∀ k ≤ 5, bytesFor (charsFor k) = k ∧ 8 * k ≤ 5 * charsFor k := by decide
    exact hAll _ h
  have hLt : ofBe bs * 2 ^ (5 * charsFor bs.length - 8 * bs.length) < 32 ^ charsFor bs.length := by
    calc ofBe bs * 2 ^ (5 * charsFor bs.length - 8 * bs.length)
        < 256 ^ bs.length * 2 ^ (5 * charsFor bs.length - 8 * bs.length) :=
          Nat.mul_lt_mul_of_pos_right (ofBe_lt bs) (Nat.two_pow_pos _)
      _ = 32 ^ charsFor bs.length := by
          rw [show 256 = 2 ^ 8 from rfl, show 32 = 2 ^ 5 from rfl, ← pow_mul, ← pow_mul, ← pow_add]
          congr 1
          omega
  rw [decodeGroup, length_toBase32, ofBase32_toBase32, Nat.mod_eq_of_lt hLt, hBytes,
    Nat.mul_div_cancel _ (Nat.two_pow_pos _), toBe_ofBe]

/-- The digits of an encoding. -/
def base32Digits : Bytes → List Nat
  | a :: b :: c :: d :: e :: rest => toBase32 8 (ofBe [a, b, c, d, e]) ++ base32Digits rest
  | rest =>
    let j := charsFor rest.length
    toBase32 j (ofBe rest * 2 ^ (5 * j - 8 * rest.length))

lemma base32Encode_eq : base32Encode bs = (base32Digits bs).map base32Char := by
  induction bs using base32Digits.induct with
  | case1 a b c d e rest ih =>
    have hGroup : encodeGroup [a, b, c, d, e] = (toBase32 8 (ofBe [a, b, c, d, e])).map base32Char := by
      simp [encodeGroup, charsFor]
    rw [base32Encode, base32Digits, map_append, ih, hGroup]
  | case2 rest h => rw [base32Encode.eq_2 rest h, base32Digits.eq_2 rest h]; rfl

lemma base32Digits_lt {bs : Bytes} (h : d ∈ base32Digits bs) : d < 32 := by
  induction bs using base32Digits.induct with
  | case1 a b c d' e rest ih =>
    rw [base32Digits] at h
    rcases mem_append.mp h with h | h
    · exact toBase32_lt h
    · exact ih h
  | case2 rest hRest =>
    rw [base32Digits.eq_2 rest hRest] at h
    exact toBase32_lt h

/-- What is written has the digits it was written from. -/
lemma mapM_base32Value (h : ∀ d ∈ ds, d < 32) : (ds.map base32Char).mapM base32Value = some ds := by
  induction ds with
  | nil => rfl
  | cons d ds ih =>
    rw [map_cons, mapM_cons, base32Value_char (h d mem_cons_self),
      ih fun d' hd' => h d' (mem_cons_of_mem d hd')]
    rfl

lemma decodeGroups_append (rest : List Nat) (h : ds.length = 8) :
    decodeGroups (ds ++ rest) = decodeGroup ds ++ decodeGroups rest := by
  match ds, h with
  | [a, b, c, d, e, f, g, i], _ => rfl

lemma decodeGroups_short (h : ds.length < 9) (h8 : ds.length ≠ 8) : decodeGroups ds = decodeGroup ds := by
  refine decodeGroups.eq_2 ds ?_
  rintro a b c d e f g i rest rfl
  simp only [length_cons] at h h8
  omega

lemma decodeGroups_base32Digits : decodeGroups (base32Digits bs) = bs := by
  induction bs using base32Digits.induct with
  | case1 a b c d e rest ih =>
    have hGroup : decodeGroup (toBase32 8 (ofBe [a, b, c, d, e])) = [a, b, c, d, e] := by
      have hEq := decodeGroup_toBase32 [a, b, c, d, e] (le_refl 5)
      simpa [charsFor] using hEq
    rw [base32Digits, decodeGroups_append _ _ (length_toBase32 _ _), ih, hGroup]
    rfl
  | case2 rest h =>
    -- fewer than five bytes are left, which take fewer than eight characters
    have hLen : rest.length < 5 := by
      match rest, h with
      | [], _ | [_], _ | [_, _], _ | [_, _, _], _ | [_, _, _, _], _ => simp
      | a :: b :: c :: d :: e :: rest, h => exact absurd rfl (h a b c d e rest)
    have hShort : charsFor rest.length < 8 := by
      rw [charsFor]
      omega
    rw [base32Digits.eq_2 rest h, decodeGroups_short _ (by rw [length_toBase32]; omega)
      (by rw [length_toBase32]; omega), decodeGroup_toBase32 rest (le_of_lt hLen)]

/-- What an encoding is written with. -/
lemma base32Value_of_mem {bs : Bytes} (h : c ∈ base32Encode bs) : ∃ v, base32Value c = some v := by
  rw [base32Encode_eq] at h
  obtain ⟨d, hd, rfl⟩ := mem_map.mp h
  exact ⟨d, base32Value_char (base32Digits_lt hd)⟩

/-- **Reading gives back what was written.** -/
@[simp] theorem base32Decode_encode : base32Decode (base32Encode bs) = some bs := by
  have hBreaks : (base32Encode bs).filter (fun c => c ≠ 10 ∧ c ≠ 13) = base32Encode bs := by
    refine filter_eq_self.mpr fun c hc => ?_
    obtain ⟨v, hv⟩ := base32Value_of_mem hc
    refine decide_eq_true ⟨?_, ?_⟩ <;> rintro rfl <;> cases hv
  rw [base32Decode, hBreaks, base32Encode_eq,
    mapM_base32Value _ fun _ hd => base32Digits_lt hd, Option.map_some, decodeGroups_base32Digits]

/-- What is not in the alphabet is not read. -/
lemma base32Decode_eq_none (hMem : c ∈ s) (hBreak : c ≠ 10 ∧ c ≠ 13)
    (hValue : base32Value c = none) : base32Decode s = none := by
  have hNone : ∀ t : Bytes, c ∈ t → t.mapM base32Value = none := by
    intro t
    induction t with
    | nil => exact fun h => nomatch h
    | cons d t ih =>
      intro h
      rw [mapM_cons]
      rcases mem_cons.mp h with rfl | h
      · rw [hValue]
        rfl
      · rw [ih h]
        cases base32Value d <;> rfl
  rw [base32Decode, hNone _ (mem_filter.mpr ⟨hMem, decide_eq_true hBreak⟩), Option.map_none]

lemma base32Encode_injective : Function.Injective base32Encode := by
  intro bs cs h
  have hDecode := congrArg base32Decode h
  rw [base32Decode_encode, base32Decode_encode] at hDecode
  exact Option.some.inj hDecode

@[simp] lemma base32Encode_nil : base32Encode [] = [] := rfl

lemma base32Encode_eq_nil_iff {bs : Bytes} : base32Encode bs = [] ↔ bs = [] :=
  ⟨fun h => base32Encode_injective (h.trans base32Encode_nil.symm), fun h => by rw [h, base32Encode_nil]⟩

end RedGeo.Lib
