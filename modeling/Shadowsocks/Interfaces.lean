import Mathlib.Algebra.Order.Ring.Nat
import Shadowsocks.Bytes

/-!
The collaborators of shadowsocks/stream.go: `cipher.AEAD`, `shadowaead.Cipher`, the
inner `io.Writer`, and the readers a writer pulls from (`bytes.Reader` and an arbitrary
source for `ReadFrom`). The AEAD is abstract: only its lengths and the pairing of
`Encrypter(salt)` with `Decrypter(salt)` are assumed.
-/

namespace Shadowsocks

/-- A `cipher.AEAD` as the codec uses it, with no additional data: `encrypt` is `Seal`,
which adds exactly `Overhead()` bytes, and `decrypt` is `Open`, whose plaintext is
`Overhead()` bytes shorter than what it opens. -/
structure Aead where
  nonceSize : Nat
  overhead : Nat
  encrypt : List UInt8 → List UInt8 → List UInt8
  decrypt : List UInt8 → List UInt8 → Except Err (List UInt8)
  encrypt_length : ∀ nonce plaintext, (encrypt nonce plaintext).length = plaintext.length + overhead
  decrypt_length : ∀ nonce sealed plaintext, decrypt nonce sealed = .ok plaintext →
    plaintext.length + overhead = sealed.length

/-- `shadowaead.Cipher`: the salt size and the AEADs it derives from a salt. -/
structure Cipher where
  saltSize : Nat
  encrypter : List UInt8 → Except Err Aead
  decrypter : List UInt8 → Except Err Aead

/-- What every shadowaead cipher provides: when `Encrypter(salt)` succeeds, so does
`Decrypter(salt)`, with the same sizes, and it opens what the sealer sealed under the
same nonce. -/
def Cipher.Matched (c : Cipher) : Prop :=
  ∀ salt e, c.encrypter salt = .ok e → ∃ d, c.decrypter salt = .ok d ∧
    d.nonceSize = e.nonceSize ∧ d.overhead = e.overhead ∧
    ∀ nonce plaintext, d.decrypt nonce (e.encrypt nonce plaintext) = .ok plaintext

/-- An `io.Writer`: the bytes it took from each `Write` call so far, and its reply to the
`n`-th call: how many bytes it takes (all of them for `none`) and the error it reports. -/
structure Sink where
  writes : List (List UInt8)
  reply : Nat → Option Nat × Option Err

def Sink.write (k : Sink) (b : List UInt8) : Sink × Nat × Option Err :=
  let taken := match (k.reply k.writes.length).1 with
    | none => b
    | some limit => b.take limit
  ({ k with writes := k.writes ++ [taken] }, taken.length, (k.reply k.writes.length).2)

def Sink.AcceptsAll (k : Sink) : Prop := ∀ n, k.reply n = (none, none)

theorem Sink.write_of_acceptsAll {k : Sink} (accepts : k.AcceptsAll) (b : List UInt8) :
    k.write b = ({ k with writes := k.writes ++ [b] }, b.length, none) := by
  simp [write, accepts k.writes.length]

/-- `bytes.Reader.Read` on the unread part `s` of the slice, into a buffer of `n` bytes. -/
def bytesRead (s : List UInt8) (n : Nat) : (List UInt8 × Option Err) × List UInt8 :=
  if s = [] then (([], some .eof), []) else ((s.take n, none), s.drop n)

/-- A source for `ReadFrom`, given by the results of its successive `Read` calls and the
error it returns once they are used up. A result longer than the caller's buffer is
delivered over several calls, so every `Read` respects the buffer length. -/
structure Source where
  results : List (List UInt8 × Option Err)
  final : Err

def Source.read (r : Source) (n : Nat) : (List UInt8 × Option Err) × Source :=
  match r.results with
  | [] => (([], some r.final), r)
  | (data, err) :: rest =>
    if data.length ≤ n then ((data, err), { r with results := rest })
    else ((data.take n, none), { r with results := (data.drop n, err) :: rest })

def Source.budget (r : Source) : Nat :=
  r.results.length + (r.results.map fun result => result.1.length).sum + 2

def Source.data (r : Source) : List UInt8 := (r.results.map Prod.fst).flatten

/-- A sealer for running the model on concrete inputs: it appends the nonce's first byte,
so each sealed block records the nonce it was sealed under, and opening checks it. -/
def Aead.tagging (nonceSize : Nat) : Aead where
  nonceSize := nonceSize
  overhead := 1
  encrypt nonce plaintext := plaintext ++ [nonce.headD 0]
  decrypt nonce sealed :=
    if sealed.getLast? = some (nonce.headD 0) then .ok sealed.dropLast else .error (.external 0)
  encrypt_length _ _ := by simp
  decrypt_length nonce sealed plaintext opened := by
    by_cases tagged : sealed.getLast? = some (nonce.headD 0)
    · dsimp only at opened
      rw [if_pos tagged, Except.ok.injEq] at opened
      have : sealed ≠ [] := fun empty => by simp [empty] at tagged
      rw [← opened, List.length_dropLast]
      have := List.length_pos.mpr this
      omega
    · dsimp only at opened
      rw [if_neg tagged] at opened
      cases opened

def Cipher.tagging (saltSize nonceSize : Nat) : Cipher where
  saltSize := saltSize
  encrypter _ := .ok (Aead.tagging nonceSize)
  decrypter _ := .ok (Aead.tagging nonceSize)

theorem Cipher.tagging_matched (saltSize nonceSize : Nat) :
    (Cipher.tagging saltSize nonceSize).Matched := by
  intro salt e made
  simp only [Cipher.tagging, Except.ok.injEq] at made
  subst made
  exact ⟨_, rfl, rfl, rfl, fun nonce plaintext => by simp [Aead.tagging]⟩

end Shadowsocks
