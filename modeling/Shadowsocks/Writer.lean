import Shadowsocks.Interfaces

/-!
`shadowsocksWriter` of shadowsocks/stream.go, with sequential calls. `pending` holds the
buffered bytes `payloadBuf[:pending]`; `salt` is the head of `buf`, which `init` fills
together with `aead` and `counter`; `flushDone` records that the `sync.Once` has run.
The loop of `readFrom` runs for at most `fuel` passes: `write` gives it `len(p) + 2`
and `ReadFrom` the source's budget, bounds proved sufficient in `Termination`.
-/

namespace Shadowsocks

@[ext] structure Writer where
  writer : Sink
  ssCipher : Cipher
  rand : ByteStream
  byteWrapper : List UInt8
  flushDone : Bool
  pending : List UInt8
  salt : List UInt8
  aead : Option Aead
  counter : List UInt8

/-- `NewShadowsocksWriter`, with `crypto/rand.Reader` made explicit. -/
def newShadowsocksWriter (writer : Sink) (ssCipher : Cipher) (rand : ByteStream) : Writer :=
  { writer, ssCipher, rand, byteWrapper := [], flushDone := false, pending := [], salt := [],
    aead := none, counter := [] }

/-- `init`: on first use draw the salt, derive the sealer and zero the nonce. -/
def Writer.init (sw : Writer) : Writer × Except Err Aead :=
  match sw.aead with
  | some a => (sw, .ok a)
  | none =>
    match sw.rand.readFull sw.ssCipher.saltSize with
    | (.error e, rand) => ({ sw with rand }, .error (.wrap "failed to generate salt" e))
    | (.ok salt, rand) =>
      match sw.ssCipher.encrypter salt with
      | .error e => ({ sw with rand }, .error (.wrap "failed to create AEAD" e))
      | .ok a =>
        ({ sw with rand, salt, aead := some a, counter := List.replicate a.nonceSize 0 }, .ok a)

inductive Mode where
  | normal
  | lazy
  | flush
  deriving DecidableEq, Repr

/-- Lines 181-184: the length and the pending bytes, each sealed under the next nonce,
as `buf[start : saltSize+len(sizeBuf)+payloadSize]`. -/
def Writer.chunkBytes (sw : Writer) (a : Aead) (start : Nat) : List UInt8 :=
  let sizeBlock := a.encrypt sw.counter (putUint16 sw.pending.length)
  let payloadBlock := a.encrypt (increment sw.counter) sw.pending
  (sw.salt ++ sizeBlock ++ payloadBlock).drop start

/-- Lines 181-186: hand the sealed chunk to the inner writer and empty the buffer. -/
def Writer.writeChunk (sw : Writer) (a : Aead) (start : Nat) : Writer × Option Err :=
  let (writer, _, err) := sw.writer.write (sw.chunkBytes a start)
  ({ sw with writer, pending := [], counter := increment (increment sw.counter) }, err)

/-- Line 178: `sw.pending += plaintextSize`, the bytes read landing in `payloadBuf`. -/
def Writer.buffer (sw : Writer) (data : List UInt8) : Writer :=
  { sw with pending := sw.pending ++ data }

/-- The variables of `readFrom`'s loop. -/
structure Loop (σ : Type) where
  sw : Writer
  r : σ
  start : Nat
  written : Nat

section Loop
variable {σ : Type} (read : σ → Nat → (List UInt8 × Option Err) × σ) (mode : Mode) (a : Aead)

/-- One pass of the loop body, up to the error check (lines 177-187). -/
def Loop.step (l : Loop σ) : Loop σ × Option Err :=
  let result := read l.r (payloadSizeMask - l.sw.pending.length)
  let sw := l.sw.buffer result.1.1
  let written := l.written + result.1.1.length
  if sw.pending.length = payloadSizeMask ∨ (mode ≠ .lazy ∧ 0 < sw.pending.length) then
    (⟨(sw.writeChunk a l.start).1, result.2, sw.ssCipher.saltSize, written⟩,
      (sw.writeChunk a l.start).2)
  else (⟨sw, result.2, l.start, written⟩, result.1.2)

/-- The loop of `readFrom`, for at most `fuel` passes. -/
def Loop.run : Nat → Loop σ → Option (Loop σ × Option Err)
  | 0, _ => none
  | fuel + 1, l =>
    match l.step read mode a with
    | (l, none) => run fuel l
    | (l, some .eof) => some (l, none)
    | (l, some e) => some (l, some (.wrap "Failed to read payload" e))

end Loop

/-- `sw.flush.Do(func() {})` in the normal mode: the `sync.Once` has run. -/
def Writer.markFlushed (sw : Writer) : Writer := { sw with flushDone := true }

/-- `sw.flush = sync.Once{}`: a fresh flush action. -/
def Writer.resetFlush (sw : Writer) : Writer := { sw with flushDone := false }

/-- `sw.byteWrapper.Reset(p)`. -/
def Writer.reset (sw : Writer) (p : List UInt8) : Writer := { sw with byteWrapper := p }

/-- Lines 162-170: the first chunk of a call starts at the salt iff the nonce is zero. -/
def Writer.firstStart (sw : Writer) : Nat := if isZero sw.counter then 0 else sw.ssCipher.saltSize

/-- `readFrom`, returning the writer, the source, the bytes read and the error. -/
def Writer.readFrom {σ : Type} (read : σ → Nat → (List UInt8 × Option Err) × σ) (fuel : Nat)
    (sw : Writer) (r : σ) (mode : Mode) : Option (Writer × σ × Nat × Option Err) :=
  match sw.init with
  | (sw, .error e) => some (sw, r, 0, some e)
  | (sw, .ok a) =>
    let sw := if mode = .normal then sw.markFlushed else sw
    (Loop.run read mode a fuel ⟨sw, r, sw.firstStart, 0⟩).map
      fun (l, err) => (l.sw, l.r, l.written, err)

/-- `write`: reset `byteWrapper` to `p` and pull it through `readFrom`. -/
def Writer.write (sw : Writer) (p : List UInt8) (mode : Mode) : Option (Writer × Nat × Option Err) :=
  ((sw.reset p).readFrom bytesRead (p.length + 2) p mode).map
    fun (sw, r, n, err) => (sw.reset r, n, err)

def Writer.Write (sw : Writer) (p : List UInt8) : Option (Writer × Nat × Option Err) :=
  sw.write p .normal

def Writer.LazyWrite (sw : Writer) (p : List UInt8) : Option (Writer × Nat × Option Err) :=
  sw.resetFlush.write p .lazy

/-- `Flush` runs `write(nil, modeFlush)` unless the `sync.Once` has already run. -/
def Writer.Flush (sw : Writer) : Option (Writer × Option Err) :=
  if sw.flushDone then some (sw, none)
  else (sw.write [] .flush).map fun (sw, _, err) => (sw.markFlushed, err)

def Writer.ReadFrom (sw : Writer) (r : Source) : Option (Writer × Nat × Option Err) :=
  (sw.readFrom Source.read r.budget r .normal).map fun (sw, _, n, err) => (sw, n, err)

inductive Call where
  | write (p : List UInt8)
  | lazyWrite (p : List UInt8)
  | flush
  | readFrom (r : Source)

/-- One call, with the count and error it returns (`Flush` returns no count). -/
def Writer.call (sw : Writer) : Call → Option (Writer × Nat × Option Err)
  | .write p => sw.Write p
  | .lazyWrite p => sw.LazyWrite p
  | .flush => sw.Flush.map fun (sw, err) => (sw, 0, err)
  | .readFrom r => sw.ReadFrom r

/-- A sequential history of calls; `none` if a call's loop did not return. -/
def Writer.run (sw : Writer) : List Call → Option Writer
  | [] => some sw
  | c :: cs =>
    match sw.call c with
    | some (sw, _) => sw.run cs
    | none => none

end Shadowsocks
