import BatchCompile.Proofs.Mapping.Decoded
import Mathlib.Algebra.Group.Nat.Defs

/-!
# Variable-length numbers in words

In words of 64 bits a number is written by shifts and masks, in a loop that runs until nothing is
left of the word (`Writes`). Up to 2⁶² - 1 on either side of zero the loop ends, and it writes what
`encode` says (`writes_iff`).
-/

namespace BatchCompile.Vlq

/-- A number with its sign in the lowest bit, in a word. -/
def zigzagWord (v : Int64) : Int64 :=
  if v < 0 then (-v) <<< 1 ||| 1 else v <<< 1

/-- The digit that is cut off a word: five bits, and a mark if anything is left. -/
def digitWord (w : Int64) : Int64 :=
  if w >>> 5 > 0 then w &&& 31 ||| 32 else w &&& 31

/-- The loop that cuts digits off a word, and the text it writes by the time that nothing is left. -/
inductive Writes : Int64 → Text → Prop
  | last {w : Int64} (h : w >>> 5 = 0) : Writes w [digit (digitWord w).toNatClampNeg]
  | more {w : Int64} {t : Text} (h : w >>> 5 ≠ 0) (later : Writes (w >>> 5) t) :
    Writes w (digit (digitWord w).toNatClampNeg :: t)

theorem Writes.unique {w : Int64} {t t' : Text} (h : Writes w t) (h' : Writes w t') : t = t' := by
  induction h generalizing t' with
  | last h =>
    cases h' with
    | last _ => rfl
    | more hne _ => exact absurd h hne
  | more hne _ ih =>
    cases h' with
    | last h => exact absurd h hne
    | more _ later => rw [ih later]

/-! ## Words as numbers -/

theorem toInt_of_toNat {w : Int64} {n : Nat} (h : w.toBitVec.toNat = n) (hn : n < 2 ^ 63) :
    w.toInt = n := by
  show w.toBitVec.toInt = n
  rw [BitVec.toInt_eq_toNat_of_lt (by omega), h]

section

variable {w : Int64} {n : Nat} (h : w.toInt = n)

include h

theorem toNat_toBitVec : w.toBitVec.toNat = n := by
  have := w.toBitVec.isLt
  have hw : w.toBitVec.toInt = n := h
  rw [BitVec.toInt_eq_toNat_cond] at hw
  split at hw <;> omega

theorem toInt_shiftRight : (w >>> 5).toInt = (n / 32 : Nat) := by
  have hw : w.toBitVec.toInt = n := h
  show (w >>> 5).toBitVec.toInt = _
  rw [Int64.toBitVec_shiftRight]
  show (w.toBitVec.sshiftRight 5).toInt = _
  rw [BitVec.toInt_sshiftRight, hw, Int.shiftRight_eq_div_pow]
  norm_cast

theorem toNat_and : (w &&& 31).toBitVec.toNat = n % 32 := by
  rw [Int64.toBitVec_and, BitVec.toNat_and, toNat_toBitVec h]
  exact Nat.and_two_pow_sub_one_eq_mod n 5

theorem toNat_and_or : (w &&& 31 ||| 32).toBitVec.toNat = 32 + n % 32 := by
  have hlow : n % 32 < 2 ^ 5 := Nat.mod_lt n (by decide)
  rw [Int64.toBitVec_or, BitVec.toNat_or, toNat_and h, Nat.or_comm]
  exact (Nat.two_pow_add_eq_or_of_lt hlow 1).symm

theorem shiftRight_eq_zero_iff : w >>> 5 = 0 ↔ n < 32 := by
  rw [← Int64.toInt_inj, toInt_shiftRight h, Int64.toInt_zero]
  omega

theorem toNatClampNeg_digitWord :
    (digitWord w).toNatClampNeg = if n < 32 then n else 32 + n % 32 := by
  have hleft : w >>> 5 > 0 ↔ ¬n < 32 := by
    rw [gt_iff_lt, Int64.lt_iff_toInt_lt, toInt_shiftRight h, Int64.toInt_zero]
    omega
  rw [digitWord, ← Int64.toNat_toInt]
  by_cases hn : n < 32
  · rw [if_neg (by simp [hleft, hn]), if_pos hn, toInt_of_toNat (toNat_and h) (by omega)]
    omega
  · rw [if_pos (hleft.2 hn), if_neg hn, toInt_of_toNat (toNat_and_or h) (by omega)]
    omega

theorem writes_digits : Writes w ((digits n).map digit) := by
  induction n using Nat.strongRecOn generalizing w with
  | ind n ih =>
    have hdigit := toNatClampNeg_digitWord h
    rw [digits]
    by_cases hn : n < 32
    · rw [if_pos hn] at hdigit ⊢
      rw [List.map_singleton, ← hdigit]
      exact .last ((shiftRight_eq_zero_iff h).2 hn)
    · rw [if_neg hn] at hdigit ⊢
      rw [List.map_cons, ← hdigit]
      refine .more (fun hzero => hn ((shiftRight_eq_zero_iff h).1 hzero)) ?_
      exact ih (n / 32) (by omega) (toInt_shiftRight h)

end

/-! ## Signs -/

/-- The numbers that can be written in words. -/
def Fits (v : Int) : Prop :=
  v.natAbs < 2 ^ 62

theorem toNat_shiftLeft {w : Int64} {n : Nat} (h : w.toInt = n) (hn : n < 2 ^ 62) :
    (w <<< 1).toBitVec.toNat = 2 * n := by
  rw [Int64.toBitVec_shiftLeft]
  show (w.toBitVec <<< 1).toNat = _
  rw [BitVec.toNat_shiftLeft, toNat_toBitVec h, Nat.shiftLeft_eq]
  omega

theorem toInt_zigzagWord {w : Int64} (h : Fits w.toInt) :
    (zigzagWord w).toInt = zigzag w.toInt := by
  unfold Fits at h
  unfold zigzagWord zigzag
  have hneg : w < 0 ↔ w.toInt < 0 := by rw [Int64.lt_iff_toInt_lt, Int64.toInt_zero]
  by_cases hw : w.toInt < 0
  · have hminus : (-w).toInt = w.toInt.natAbs := by
      rw [Int64.toInt_neg, Int.bmod_eq_of_le] <;> omega
    have hbit : (2 * w.toInt.natAbs) ||| 1 = 2 * w.toInt.natAbs + 1 :=
      (Nat.two_pow_add_eq_or_of_lt (i := 1) (b := 1) (by decide) w.toInt.natAbs).symm
    rw [if_pos (hneg.2 hw), if_pos hw]
    refine toInt_of_toNat ?_ (by omega)
    rw [Int64.toBitVec_or, BitVec.toNat_or, toNat_shiftLeft hminus h]
    exact hbit
  · have hself : w.toInt = w.toInt.natAbs := by omega
    rw [if_neg (mt hneg.1 hw), if_neg hw]
    exact toInt_of_toNat (toNat_shiftLeft hself h) (by omega)

/-- In words the same is written as without bounds, as long as the number fits. -/
theorem writes_iff {w : Int64} {v : Int} (hw : w.toInt = v) (hv : Fits v) {t : Text} :
    Writes (zigzagWord w) t ↔ t = encode v := by
  subst hw
  have hwrites := writes_digits (toInt_zigzagWord hv)
  refine ⟨fun h => h.unique hwrites, ?_⟩
  rintro rfl
  exact hwrites

end BatchCompile.Vlq
