import Shadowsocks.Interfaces

/-!
The reading side of shadowsocks/stream.go: `chunkReader`, which reads the salt and then
one chunk per `ReadChunk`, and `readConverter`, which turns chunks into `Read` and
`WriteTo`. `buf` is not kept: each message is read into a prefix of it and `Open`
decrypts it in place, so a message is the buffer as `Open` leaves it, the plaintext
followed by the rest of what was read. The converter is stated for any chunk reader, by
its `ReadChunk` on a state; its `WriteTo` loop runs for at most `fuel` passes.
-/

namespace Shadowsocks

structure ChunkReader where
  reader : ByteStream
  ssCipher : Cipher
  aead : Option Aead
  counter : List UInt8

def newChunkReader (reader : ByteStream) (ssCipher : Cipher) : ChunkReader :=
  { reader, ssCipher, aead := none, counter := [] }

/-- `init`: on first use read the salt and derive the opener. -/
def ChunkReader.init (cr : ChunkReader) : ChunkReader × Except Err Aead :=
  match cr.aead with
  | some a => (cr, .ok a)
  | none =>
    match cr.reader.readFull cr.ssCipher.saltSize with
    | (.error e, reader) =>
      ({ cr with reader },
        .error (if e = .eof ∨ e = .unexpectedEOF then e else .wrap "failed to read salt" e))
    | (.ok salt, reader) =>
      match cr.ssCipher.decrypter salt with
      | .error e => ({ cr with reader }, .error (.wrap "failed to create AEAD" e))
      | .ok a =>
        ({ cr with reader, aead := some a, counter := List.replicate a.nonceSize 0 }, .ok a)

/-- `readMessage` into a buffer of `n` bytes, returning the buffer as `Open` left it. -/
def ChunkReader.readMessage (cr : ChunkReader) (a : Aead) (n : Nat) :
    ChunkReader × Except Err (List UInt8) :=
  match cr.reader.readFull n with
  | (.error e, reader) => ({ cr with reader }, .error e)
  | (.ok sealed, reader) =>
    match a.decrypt cr.counter sealed with
    | .error e =>
      ({ cr with reader, counter := increment cr.counter }, .error (.wrap "failed to decrypt" e))
    | .ok plaintext =>
      ({ cr with reader, counter := increment cr.counter },
        .ok (plaintext ++ sealed.drop plaintext.length))

/-- `ReadChunk`: the length block, then a payload block of that length. -/
def ChunkReader.ReadChunk (cr : ChunkReader) : ChunkReader × Except Err (List UInt8) :=
  match cr.init with
  | (cr, .error e) => (cr, .error e)
  | (cr, .ok a) =>
    match cr.readMessage a (2 + a.overhead) with
    | (cr, .error e) =>
      (cr, .error (if e = .eof ∨ e = .unexpectedEOF then e else .wrap "failed to read payload size" e))
    | (cr, .ok sizeBuf) =>
      let size := uint16 sizeBuf &&& payloadSizeMask
      if payloadSizeMask + a.overhead < size + a.overhead then (cr, .error .shortBuffer)
      else
        match cr.readMessage a (size + a.overhead) with
        | (cr, .error e) => (cr, .error (if e = .eof then .unexpectedEOF else e))
        | (cr, .ok payloadBuf) => (cr, .ok (payloadBuf.take size))

structure Converter (σ : Type) where
  cr : σ
  leftover : List UInt8

section Converter
variable {σ : Type} (readChunk : σ → σ × Except Err (List UInt8))

/-- `ensureLeftover`: read a chunk only when nothing is left over. -/
def Converter.ensureLeftover (c : Converter σ) : Converter σ × Option Err :=
  if c.leftover ≠ [] then (c, none)
  else
    match readChunk c.cr with
    | (cr, .error e) => ({ c with cr }, some e)
    | (cr, .ok payload) => (⟨cr, payload⟩, none)

def Converter.Read (c : Converter σ) (n : Nat) : Converter σ × List UInt8 × Option Err :=
  match c.ensureLeftover readChunk with
  | (c, some e) => (c, [], some e)
  | (c, none) => ({ c with leftover := c.leftover.drop n }, c.leftover.take n, none)

/-- The loop of `WriteTo`, for at most `fuel` passes, with the count so far. -/
def Converter.writeTo : Nat → Converter σ → Sink → Nat →
    Option (Converter σ × Sink × Nat × Option Err)
  | 0, _, _, _ => none
  | fuel + 1, c, w, written =>
    match c.ensureLeftover readChunk with
    | (c, some e) => some (c, w, written, if e = .eof then none else some e)
    | (c, none) =>
      match w.write c.leftover with
      | (w, n, some e) => some ({ c with leftover := c.leftover.drop n }, w, written + n, some e)
      | (w, n, none) => writeTo fuel { c with leftover := c.leftover.drop n } w (written + n)

def Converter.WriteTo (fuel : Nat) (c : Converter σ) (w : Sink) :
    Option (Converter σ × Sink × Nat × Option Err) :=
  c.writeTo readChunk fuel w 0

end Converter

def newShadowsocksReader (reader : ByteStream) (ssCipher : Cipher) : Converter ChunkReader :=
  ⟨newChunkReader reader ssCipher, []⟩

/-- Passes enough for `WriteTo` over the chunk reader: every chunk read takes at least two
bytes of the inner reader, and every pass that does not return hands over a byte. -/
def Converter.budget (c : Converter ChunkReader) : Nat :=
  c.leftover.length + c.cr.reader.bytes.length + 2

end Shadowsocks
