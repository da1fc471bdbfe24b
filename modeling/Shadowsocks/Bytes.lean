import Mathlib.Data.List.Basic
import Mathlib.Data.Nat.Bitwise

/-!
Byte-level helpers of shadowsocks/stream.go: the Go errors the codec returns, the
`io.ReadFull` contract on an inner reader, the little-endian nonce counter
(`increment`, `isZero`) and the big-endian length field. An inner `io.Reader` is
modelled by the bytes it will deliver and the error it reports once they are
exhausted; `io.ReadFull` only observes that much of it.
-/

namespace Shadowsocks

/-- `payloadSizeMask`, the largest payload of one chunk (16*1024 - 1). -/
def payloadSizeMask : Nat := 0x3FFF

/-- The Go errors the codec produces or passes on. `wrap context cause` is
`fmt.Errorf("<context>: %v", cause)`; `external` stands for an error value made by a
collaborator (an inner reader or writer, the AEAD, the random source). -/
inductive Err where
  | eof
  | unexpectedEOF
  | shortBuffer
  | external (code : Nat)
  | wrap (context : String) (cause : Err)
  deriving DecidableEq, Repr

/-- An inner `io.Reader`: the bytes it delivers, then the error it keeps returning. -/
structure ByteStream where
  bytes : List UInt8
  final : Err
  deriving DecidableEq, Repr

/-- `io.ReadFull(r, buf)` with `len(buf) = n`. The error is `io.EOF` only if no byte was
read; an `io.EOF` after some but not all bytes becomes `io.ErrUnexpectedEOF`. -/
def ByteStream.readFull (r : ByteStream) (n : Nat) : Except Err (List UInt8) × ByteStream :=
  if n ≤ r.bytes.length then (.ok (r.bytes.take n), { r with bytes := r.bytes.drop n })
  else if r.bytes = [] then (.error r.final, r)
  else (.error (if r.final = .eof then .unexpectedEOF else r.final), { r with bytes := [] })

theorem ByteStream.readFull_of_le {r : ByteStream} {n : Nat} (enough : n ≤ r.bytes.length) :
    r.readFull n = (.ok (r.bytes.take n), { r with bytes := r.bytes.drop n }) := by
  simp [readFull, enough]

theorem ByteStream.readFull_of_lt {r : ByteStream} {n : Nat} (short : r.bytes.length < n) :
    r.readFull n =
      (.error (if r.bytes = [] then r.final else if r.final = .eof then .unexpectedEOF else r.final),
        { r with bytes := [] }) := by
  unfold readFull
  rw [if_neg (by omega)]
  by_cases empty : r.bytes = []
  · simp only [empty, if_true]
    cases r
    simp_all
  · simp [empty]

theorem ByteStream.readFull_ok {r r' : ByteStream} {n : Nat} {b : List UInt8}
    (filled : r.readFull n = (.ok b, r')) : b.length = n := by
  unfold readFull at filled
  split at filled
  · next enough => simp only [Prod.mk.injEq, Except.ok.injEq] at filled; simp [← filled.1, enough]
  · split at filled <;> simp at filled

def increment : List UInt8 → List UInt8
  | [] => []
  | b :: rest => if b + 1 ≠ 0 then (b + 1) :: rest else (b + 1) :: increment rest

def isZero (b : List UInt8) : Bool := b.all (· == 0)

/-- The `width`-byte little-endian encoding of `value`, reduced modulo `256 ^ width`. -/
def leBytes : Nat → Nat → List UInt8
  | 0, _ => []
  | width + 1, value => UInt8.ofNat value :: leBytes width (value / 256)

@[simp] theorem leBytes_length (width value : Nat) : (leBytes width value).length = width := by
  induction width generalizing value <;> simp [leBytes, *]

theorem leBytes_zero (width : Nat) : leBytes width 0 = List.replicate width 0 := by
  induction width with
  | zero => rfl
  | succ width ih => simp [leBytes, ih, List.replicate_succ]

theorem ofNat_add_one (k : Nat) : UInt8.ofNat k + 1 = UInt8.ofNat (k + 1) :=
  UInt8.toNat.inj (by
    simp only [UInt8.add_def, UInt8.toNat, BitVec.toNat_add]
    show (k % 256 + 1) % 256 = (k + 1) % 256
    omega)

theorem ofNat_eq_zero (k : Nat) : UInt8.ofNat k = 0 ↔ k % 256 = 0 :=
  ⟨fun h => congrArg UInt8.toNat h, fun h => UInt8.toNat.inj h⟩

theorem increment_leBytes (width value : Nat) :
    increment (leBytes width value) = leBytes width (value + 1) := by
  induction width generalizing value with
  | zero => rfl
  | succ width ih =>
    simp only [leBytes, increment, ofNat_add_one, ne_eq, ofNat_eq_zero]
    by_cases carry : (value + 1) % 256 = 0
    · rw [if_neg (by simpa using carry), ih]
      congr 2
      omega
    · rw [if_pos carry]
      congr 2
      omega

theorem increment_increment_leBytes (width i : Nat) :
    increment (increment (leBytes width (2 * i))) = leBytes width (2 * (i + 1)) := by
  rw [increment_leBytes, increment_leBytes, show 2 * i + 1 + 1 = 2 * (i + 1) by omega]

theorem increment_length (b : List UInt8) : (increment b).length = b.length := by
  induction b with
  | nil => rfl
  | cons x rest ih => unfold increment; split <;> simp [ih]

theorem mod_mul_256 (value width : Nat) :
    value % (256 * 256 ^ width) = value % 256 + 256 * (value / 256 % 256 ^ width) := by
  rw [Nat.mod_mul]

theorem isZero_leBytes (width value : Nat) :
    isZero (leBytes width value) = true ↔ value % 256 ^ width = 0 := by
  induction width generalizing value with
  | zero => simp [isZero, leBytes, Nat.mod_one]
  | succ width ih =>
    have ih' := ih (value / 256)
    simp only [isZero, leBytes, List.all_cons, Bool.and_eq_true, beq_iff_eq, ofNat_eq_zero] at ih' ⊢
    rw [ih', pow_succ', mod_mul_256]
    omega

/-- `binary.BigEndian.PutUint16(b, uint16(v))`. -/
def putUint16 (v : Nat) : List UInt8 := [UInt8.ofNat (v / 256), UInt8.ofNat v]

theorem length_putUint16 (v : Nat) : (putUint16 v).length = 2 := rfl

/-- `binary.BigEndian.Uint16(b)`. Callers always pass at least two bytes. -/
def uint16 : List UInt8 → Nat
  | b0 :: b1 :: _ => b0.toNat * 256 + b1.toNat
  | _ => 0

theorem uint16_putUint16 {v : Nat} (rest : List UInt8) (small : v < 65536) :
    uint16 (putUint16 v ++ rest) = v := by
  simp only [putUint16, uint16, List.cons_append]
  show v / 256 % 256 * 256 + v % 256 = v
  omega

theorem land_payloadSizeMask (x : Nat) : x &&& payloadSizeMask = x % 16384 :=
  Nat.and_pow_two_sub_one_eq_mod x 14

end Shadowsocks
