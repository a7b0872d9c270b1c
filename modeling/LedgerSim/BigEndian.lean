import Mathlib.Data.Nat.Log
import Mathlib.Tactic.Ring
import Mathlib.Tactic.Linarith
import Mathlib.Algebra.Order.Ring.Int

/-!
# Big-endian integers

Unsigned integers in a fixed number of bytes, and two's-complement integers in
as many bytes as the value needs.  Byte strings are lists, so a reader may be
given any number of bytes; the two's-complement reader accepts encodings that
its writer never produces.
-/

abbrev Bytes := List UInt8

namespace BigEndian

def toNat : Bytes → ℕ
  | [] => 0
  | b :: rest => b.toNat * 256 ^ rest.length + toNat rest

/-- The low `size` bytes of `n`, most significant first. -/
def ofNat : ℕ → ℕ → Bytes
  | 0, _ => []
  | size + 1, n => UInt8.ofNat (n / 256 ^ size) :: ofNat size n

@[simp] theorem length_ofNat (size n : ℕ) :
    (ofNat size n).length = size := by
  induction size with
  | zero => rfl
  | succ size ih => simp [ofNat, ih]

theorem toNat_lt (b : Bytes) : toNat b < 256 ^ b.length := by
  induction b with
  | nil => simp [toNat]
  | cons x rest ih =>
      have hx : x.toNat ≤ 255 := by
        have := x.toNat_lt
        omega
      have hmul : x.toNat * 256 ^ rest.length ≤ 255 * 256 ^ rest.length :=
        Nat.mul_le_mul_right _ hx
      simp only [toNat, List.length_cons, pow_succ]
      omega

theorem toNat_ofNat (size n : ℕ) :
    toNat (ofNat size n) = n % 256 ^ size := by
  induction size with
  | zero => simp [ofNat, toNat, Nat.mod_one]
  | succ size ih =>
      have hdigit : (UInt8.ofNat (n / 256 ^ size)).toNat =
          n / 256 ^ size % 256 := by
        simp [UInt8.toNat_ofNat']
      have hsplit : n % 256 ^ (size + 1) =
          n % 256 ^ size + 256 ^ size * (n / 256 ^ size % 256) := by
        rw [pow_succ, Nat.mod_mul]
      simp only [ofNat, toNat, length_ofNat, ih, hdigit, hsplit]
      ring

theorem toNat_ofNat_of_lt {size n : ℕ} (hn : n < 256 ^ size) :
    toNat (ofNat size n) = n := by
  rw [toNat_ofNat, Nat.mod_eq_of_lt hn]

theorem toNat_inj {b c : Bytes} (hlength : b.length = c.length)
    (h : toNat b = toNat c) : b = c := by
  induction b generalizing c with
  | nil =>
      rw [List.length_nil, eq_comm, List.length_eq_zero_iff] at hlength
      exact hlength.symm
  | cons x b ih =>
      cases c with
      | nil => simp at hlength
      | cons y c =>
          have hrest : b.length = c.length := by simpa using hlength
          have hb := toNat_lt b
          have hc := toNat_lt c
          simp only [toNat, hrest] at h hb
          have hpositive : 0 < 256 ^ c.length := by positivity
          have hdigit : x.toNat = y.toNat := by
            have hx : (x.toNat * 256 ^ c.length + toNat b) / 256 ^ c.length =
                x.toNat := by
              rw [mul_comm, Nat.mul_add_div hpositive, Nat.div_eq_of_lt hb]
              omega
            have hy : (y.toNat * 256 ^ c.length + toNat c) / 256 ^ c.length =
                y.toNat := by
              rw [mul_comm, Nat.mul_add_div hpositive, Nat.div_eq_of_lt hc]
              omega
            rw [← hx, h, hy]
          rw [hdigit] at h
          rw [UInt8.toNat_inj.mp hdigit, ih hrest (by omega)]

theorem ofNat_toNat (b : Bytes) : ofNat b.length (toNat b) = b := by
  apply toNat_inj (length_ofNat _ _)
  exact toNat_ofNat_of_lt (toNat_lt b)

theorem ofNat_inj {size m n : ℕ} (hm : m < 256 ^ size) (hn : n < 256 ^ size)
    (h : ofNat size m = ofNat size n) : m = n := by
  have hval := congrArg toNat h
  rwa [toNat_ofNat_of_lt hm, toNat_ofNat_of_lt hn] at hval

/-! ## Two's complement -/

def signBit : Bytes → Bool
  | [] => false
  | b :: _ => 128 ≤ b.toNat

/-- Two's-complement value of a byte string of any length; the empty string
is zero. -/
def toInt (b : Bytes) : ℤ :=
  if signBit b then toNat b - 256 ^ b.length else toNat b

/-- Number of bytes used for a value: its bit length and a sign bit, rounded
up to whole bytes. -/
def byteCount (v : ℤ) : ℕ :=
  (v.natAbs.log2 + 1 + 8) / 8

/-- Two's-complement encoding; zero has no bytes. -/
def ofInt (v : ℤ) : Bytes :=
  if v = 0 then []
  else ofNat (byteCount v) (v % 256 ^ byteCount v).toNat

theorem toInt_neg_iff (b : Bytes) : toInt b < 0 ↔ signBit b = true := by
  unfold toInt
  cases hsign : signBit b with
  | false => simp
  | true =>
      have hlt := toNat_lt b
      have : (toNat b : ℤ) < 256 ^ b.length := by exact_mod_cast hlt
      simp [this]

theorem toInt_nonneg_iff (b : Bytes) : 0 ≤ toInt b ↔ signBit b = false := by
  rw [← not_lt, toInt_neg_iff, Bool.not_eq_true]

theorem byteCount_pos (v : ℤ) : 0 < byteCount v := by
  unfold byteCount
  omega

theorem natAbs_lt_two_pow_byteCount (v : ℤ) :
    v.natAbs < 128 * 256 ^ (byteCount v - 1) := by
  have hlog : v.natAbs < 2 ^ (v.natAbs.log2 + 1) := Nat.lt_log2_self
  have hbits : v.natAbs.log2 + 1 ≤ 7 + 8 * (byteCount v - 1) := by
    unfold byteCount
    omega
  have hpow : (2 : ℕ) ^ (7 + 8 * (byteCount v - 1)) =
      128 * 256 ^ (byteCount v - 1) := by
    rw [pow_add, pow_mul]
    norm_num
  calc
    v.natAbs < 2 ^ (v.natAbs.log2 + 1) := hlog
    _ ≤ 2 ^ (7 + 8 * (byteCount v - 1)) :=
      Nat.pow_le_pow_right (by norm_num) hbits
    _ = 128 * 256 ^ (byteCount v - 1) := hpow

theorem signBit_ofNat_succ {size n : ℕ} (hn : n < 256 ^ (size + 1)) :
    signBit (ofNat (size + 1) n) = true ↔ 128 * 256 ^ size ≤ n := by
  have hdiv : n / 256 ^ size < 256 := by
    apply Nat.div_lt_of_lt_mul
    rw [← pow_succ]
    exact hn
  have hhead : (UInt8.ofNat (n / 256 ^ size)).toNat = n / 256 ^ size := by
    simp [UInt8.toNat_ofNat', Nat.mod_eq_of_lt hdiv]
  simp only [ofNat, signBit, hhead, decide_eq_true_eq]
  rw [Nat.le_div_iff_mul_le (by positivity)]

theorem toInt_ofInt (v : ℤ) : toInt (ofInt v) = v := by
  unfold ofInt
  by_cases hzero : v = 0
  · simp [hzero, toInt, signBit, toNat]
  rw [if_neg hzero]
  obtain ⟨size, hsize⟩ : ∃ size, byteCount v = size + 1 :=
    ⟨byteCount v - 1, by have := byteCount_pos v; omega⟩
  have habs := natAbs_lt_two_pow_byteCount v
  rw [hsize] at habs ⊢
  simp only [Nat.add_sub_cancel] at habs
  have hhalf : (256 : ℤ) ^ (size + 1) = 2 * (128 * 256 ^ size) := by
    rw [pow_succ]; ring
  have habsInt : |v| < 128 * 256 ^ size := by
    rw [Int.abs_eq_natAbs]
    exact_mod_cast habs
  obtain ⟨hlow, hhigh⟩ := abs_lt.mp habsInt
  have hmodNonneg : 0 ≤ v % 256 ^ (size + 1) :=
    Int.emod_nonneg _ (by positivity)
  have hmodLt : v % 256 ^ (size + 1) < 256 ^ (size + 1) :=
    Int.emod_lt_of_pos _ (by positivity)
  obtain ⟨n, hn⟩ := Int.eq_ofNat_of_zero_le hmodNonneg
  have hnlt : n < 256 ^ (size + 1) := by
    have : (n : ℤ) < 256 ^ (size + 1) := hn ▸ hmodLt
    exact_mod_cast this
  rw [hn, Int.toNat_natCast]
  unfold toInt
  rw [toNat_ofNat_of_lt hnlt, length_ofNat]
  rcases lt_or_ge v 0 with hneg | hpos
  · have hval : (n : ℤ) = v + 256 ^ (size + 1) := by
      rw [← hn, ← Int.add_emod_right, Int.emod_eq_of_lt (by omega) (by omega)]
    have hsign : signBit (ofNat (size + 1) n) = true := by
      rw [signBit_ofNat_succ hnlt]
      have : (128 * 256 ^ size : ℤ) ≤ n := by omega
      exact_mod_cast this
    rw [if_pos hsign, hval]
    ring
  · have hval : (n : ℤ) = v := by
      rw [← hn, Int.emod_eq_of_lt hpos (by omega)]
    have hsign : ¬ signBit (ofNat (size + 1) n) = true := by
      rw [signBit_ofNat_succ hnlt]
      have : (n : ℤ) < 128 * 256 ^ size := by omega
      exact not_le.mpr (by exact_mod_cast this)
    rw [if_neg hsign, hval]

end BigEndian
