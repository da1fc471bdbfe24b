import Shadowsocks.Writer

/-!
The nonce counter of shadowsocks/stream.go as a number. `increment` adds one to the
little-endian value of its bytes modulo `2 ^ (8 * len(b))`, carrying through the leading
`0xFF` bytes and changing nothing after the first byte that was not `0xFF`. From a zeroed
counter, `k` increments leave the encoding of `k`, and `isZero`, with it the writer's
choice to send the salt, sees zero again exactly after a multiple of `2 ^ (8 * len(b))`.
-/

namespace Shadowsocks

/-- `LE(b)`: the value of a little-endian byte string. -/
def leValue : List UInt8 → Nat
  | [] => 0
  | x :: rest => x.toNat + 256 * leValue rest

theorem byte_toNat_ofNat (k : Nat) : (UInt8.ofNat k).toNat = k % 256 := rfl

theorem byte_toNat_lt (x : UInt8) : x.toNat < 256 := UInt8.toNat_lt_size x

theorem byte_add_one_eq_zero (x : UInt8) : x + 1 = 0 ↔ x = 255 := by
  have bound := byte_toNat_lt x
  have wrap : (x + 1).toNat = (x.toNat + 1) % 256 := by
    simp only [UInt8.add_def, UInt8.toNat, BitVec.toNat_add]; rfl
  constructor
  · intro zero
    have := congrArg UInt8.toNat zero
    rw [wrap, UInt8.toNat_zero] at this
    exact UInt8.toNat.inj (show x.toNat = 255 by omega)
  · rintro rfl
    rfl

theorem two_pow_eight_mul (n : Nat) : 2 ^ (8 * n) = 256 ^ n := by
  rw [pow_mul]; rfl

theorem leValue_leBytes (width value : Nat) :
    leValue (leBytes width value) = value % 256 ^ width := by
  induction width generalizing value with
  | zero => simp [leBytes, leValue, Nat.mod_one]
  | succ width ih =>
    rw [leBytes, leValue, ih, byte_toNat_ofNat, pow_succ', mod_mul_256]

theorem leBytes_leValue (b : List UInt8) : leBytes b.length (leValue b) = b := by
  induction b with
  | nil => rfl
  | cons x rest ih =>
    have bound := byte_toNat_lt x
    have low : UInt8.ofNat (x.toNat + 256 * leValue rest) = x :=
      UInt8.toNat.inj (by rw [byte_toNat_ofNat]; show _ = x.toNat; omega)
    have high : (x.toNat + 256 * leValue rest) / 256 = leValue rest := by
      show _ = leValue rest; omega
    rw [List.length_cons, leBytes, leValue, low, high, ih]

theorem increment_leValue (b : List UInt8) :
    leValue (increment b) = (leValue b + 1) % 2 ^ (8 * b.length) := by
  conv_lhs => rw [← leBytes_leValue b]
  rw [increment_leBytes, leValue_leBytes, two_pow_eight_mul]

theorem increment_eq_carry (b : List UInt8) :
    increment b = List.replicate (b.takeWhile (· == 255)).length 0 ++
      (b.drop (b.takeWhile (· == 255)).length).modifyHead (· + 1) := by
  induction b with
  | nil => rfl
  | cons x rest ih =>
    by_cases full : x = 255
    · subst full
      rw [increment, if_neg (by decide), ih]
      simp only [List.takeWhile_cons, beq_self_eq_true, if_true, List.length_cons,
        List.replicate_succ, List.drop_succ_cons, List.cons_append]
      rfl
    · have stops : x + 1 ≠ 0 := fun zero => full ((byte_add_one_eq_zero x).mp zero)
      simp [increment, List.takeWhile_cons, full, stops]

example : increment [255, 255, 7, 9] = [0, 0, 8, 9] := rfl

theorem iterate_increment_zero (n k : Nat) :
    increment^[k] (List.replicate n 0) = leBytes n k := by
  induction k with
  | zero => exact (leBytes_zero n).symm
  | succ k ih => rw [Function.iterate_succ_apply', ih, increment_leBytes]

theorem increment_counts_modulo_width :
    (∀ b : List UInt8, leValue (increment b) = (leValue b + 1) % 2 ^ (8 * b.length) ∧
      increment b = List.replicate (b.takeWhile (· == 255)).length 0 ++
        (b.drop (b.takeWhile (· == 255)).length).modifyHead (· + 1)) ∧
    (∀ n k : Nat, leValue (increment^[k] (List.replicate n 0)) = k % 2 ^ (8 * n) ∧
      (isZero (increment^[k] (List.replicate n 0)) = true ↔ 2 ^ (8 * n) ∣ k)) ∧
    ∀ (sw : Writer) (n k : Nat), sw.counter = increment^[k] (List.replicate n 0) →
      sw.firstStart = if 2 ^ (8 * n) ∣ k then 0 else sw.ssCipher.saltSize := by
  have zero (n k : Nat) :
      isZero (increment^[k] (List.replicate n 0)) = true ↔ 2 ^ (8 * n) ∣ k := by
    rw [iterate_increment_zero, isZero_leBytes, two_pow_eight_mul, Nat.dvd_iff_mod_eq_zero]
  refine ⟨fun b => ⟨increment_leValue b, increment_eq_carry b⟩,
    fun n k => ⟨by rw [iterate_increment_zero, leValue_leBytes, two_pow_eight_mul], zero n k⟩,
    fun sw n k counter => ?_⟩
  unfold Writer.firstStart
  rw [counter]
  by_cases wrapped : 2 ^ (8 * n) ∣ k
  · rw [if_pos ((zero n k).mpr wrapped), if_pos wrapped]
  · rw [if_neg (mt (zero n k).mp wrapped), if_neg wrapped]

end Shadowsocks
