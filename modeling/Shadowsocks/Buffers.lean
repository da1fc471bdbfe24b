import Shadowsocks.History
import Shadowsocks.Reader

/-!
The buffers of shadowsocks/stream.go and the slice expressions over them. A slice is kept
as Go keeps it, by where it starts in the buffer, its length and its capacity; `s[lo:hi]`
is `none` where Go panics, and `Seal(plaintext[:0], ...)` is `none` where the tag does not
fit after the plaintext, so that the sealed block would not land in the buffer.

From every writer state that `readFrom` is called on, every pass of its loop takes its
slices inside `sw.buf`: the slice handed to `Read` is `payloadBuf[pending:payloadSizeMask]`,
both blocks are sealed in place, and the slice handed to the inner writer runs from
`start` to the end of the sealed payload, as many bytes as the chunk the pass sends. The
reader's `io.ErrShortBuffer` test never holds, since the length field is masked to 14 bits.
-/

namespace Shadowsocks

/-- A slice of a buffer: where it starts in the buffer, its length and its capacity. -/
structure Slice where
  off : Nat
  len : Nat
  cap : Nat
  deriving DecidableEq, Repr

def Slice.make (n : Nat) : Slice := ⟨0, n, n⟩

/-- `s[lo:hi]`, which panics unless `lo <= hi <= cap(s)`. -/
def Slice.sub (s : Slice) (lo hi : Nat) : Option Slice :=
  if lo ≤ hi ∧ hi ≤ s.cap then some ⟨s.off + lo, hi - lo, s.cap - lo⟩ else none

def Slice.subFrom (s : Slice) (lo : Nat) : Option Slice := s.sub lo s.len

/-- `Seal(plaintext[:0], nonce, plaintext, nil)`: the sealed block, `overhead` bytes longer,
stays over the plaintext when the capacity has room for the tag, and is `none` otherwise. -/
def Slice.sealInPlace (plaintext : Slice) (overhead : Nat) : Option Slice :=
  if plaintext.len + overhead ≤ plaintext.cap then
    some { plaintext with len := plaintext.len + overhead }
  else none

theorem Slice.sub_mk {off len cap lo hi : Nat} (order : lo ≤ hi) (within : hi ≤ cap) :
    (⟨off, len, cap⟩ : Slice).sub lo hi = some ⟨off + lo, hi - lo, cap - lo⟩ :=
  if_pos ⟨order, within⟩

theorem Slice.sealInPlace_mk {off len cap overhead : Nat} (room : len + overhead ≤ cap) :
    (⟨off, len, cap⟩ : Slice).sealInPlace overhead = some ⟨off, len + overhead, cap⟩ :=
  if_pos room

/-- `sw.buf` as `init` makes it (lines 84-91): the salt, then `sizeBufSize` and
`maxPayloadBufSize` bytes. -/
def Writer.buf (sw : Writer) (a : Aead) : Slice :=
  .make (sw.salt.length + (2 + a.overhead) + (payloadSizeMask + a.overhead))

theorem length_chunkBytes (sw : Writer) (a : Aead) (start : Nat) :
    (sw.chunkBytes a start).length =
      sw.salt.length + (2 + a.overhead) + (sw.pending.length + a.overhead) - start := by
  simp only [Writer.chunkBytes, List.length_drop, List.length_append, a.encrypt_length,
    length_putUint16]

section Slices
variable {σ : Type} (read : σ → Nat → (List UInt8 × Option Err) × σ) (mode : Mode) (a : Aead)

/-- Lines 171-172, before the loop: `sizeBuf` and `payloadBuf`. -/
def Writer.blockBufs (sw : Writer) : Option (Slice × Slice) := do
  let saltSize := sw.ssCipher.saltSize
  let sizeBuf ← (sw.buf a).sub saltSize (saltSize + 2 + a.overhead)
  let payloadBuf ← (sw.buf a).subFrom (saltSize + sizeBuf.len)
  pure (sizeBuf, payloadBuf)

/-- Lines 177-184, one pass from the loop head `l`: the slice handed to `Read`, and when the
pass sends a chunk, the sealed size block, the sealed payload block and the slice handed to
the inner writer. -/
def Loop.passSlices (l : Loop σ) (sizeBuf payloadBuf : Slice) :
    Option (Slice × Option (Slice × Slice × Slice)) := do
  let readBuf ← payloadBuf.sub l.sw.pending.length payloadSizeMask
  let pending := l.sw.pending.length + (read l.r readBuf.len).1.1.length
  if pending = payloadSizeMask ∨ (mode ≠ .lazy ∧ 0 < pending) then
    -- `PutUint16` indexes `sizeBuf[1]`
    if sizeBuf.len < 2 then none
    else
      let sizeBlock ← (← sizeBuf.sub 0 2).sealInPlace a.overhead
      let payloadBlock ← (← payloadBuf.sub 0 pending).sealInPlace a.overhead
      let out ← (l.sw.buf a).sub l.start
        (l.sw.ssCipher.saltSize + sizeBuf.len + payloadBlock.len)
      pure (readBuf, some (sizeBlock, payloadBlock, out))
  else pure (readBuf, none)

/-- The slices of `sw.buf` that the pass from the loop head `l` takes. The code takes
`sizeBuf` and `payloadBuf` once before the loop; they depend only on the salt and the
cipher, which no pass changes (`step_salt`, `step_ssCipher`). -/
def Loop.slices (l : Loop σ) : Option (Slice × Option (Slice × Slice × Slice)) := do
  let (sizeBuf, payloadBuf) ← l.sw.blockBufs a
  l.passSlices read mode a sizeBuf payloadBuf

end Slices

theorem Writer.blockBufs_eq {sw : Writer} {a : Aead}
    (saltLen : sw.salt.length = sw.ssCipher.saltSize) :
    sw.blockBufs a = some
      (⟨sw.ssCipher.saltSize, 2 + a.overhead, 2 + a.overhead + (payloadSizeMask + a.overhead)⟩,
        ⟨sw.ssCipher.saltSize + (2 + a.overhead), payloadSizeMask + a.overhead,
          payloadSizeMask + a.overhead⟩) := by
  simp only [Writer.blockBufs, Writer.buf, Slice.make, saltLen, Slice.subFrom, Option.bind_eq_bind]
  rw [Slice.sub_mk (by omega) (by omega)]
  simp only [Option.some_bind]
  rw [Slice.sub_mk (by omega) (by omega)]
  simp only [Option.some_bind, Option.pure_def, Option.some.injEq, Prod.mk.injEq, Slice.mk.injEq]
  omega

/-! ### The writer -/

/-- What every head of `readFrom`'s loop keeps: the buffer below a full chunk, a salt of
the cipher's size at the start of `sw.buf`, and the next chunk starting within the salt. -/
structure Loop.InBounds {σ : Type} (l : Loop σ) : Prop where
  room : l.sw.pending.length < payloadSizeMask
  saltLen : l.sw.salt.length = l.sw.ssCipher.saltSize
  start : l.start ≤ l.sw.ssCipher.saltSize

/-- What `readFrom` needs of the writer it is called on: the buffer below a full chunk, and
once `init` has set up the AEAD, a salt of the cipher's size. -/
structure Writer.InBounds (sw : Writer) : Prop where
  room : sw.pending.length < payloadSizeMask
  saltLen : ∀ a, sw.aead = some a → sw.salt.length = sw.ssCipher.saltSize

/-- The heads of `readFrom`'s loop on `sw` over `r` in `mode`, with the AEAD that `init`
returned: the first as lines 148-170 set it up, then each one that a pass reporting no
error leads to. -/
inductive Writer.LoopHead {σ : Type} (read : σ → Nat → (List UInt8 × Option Err) × σ)
    (sw : Writer) (r : σ) (mode : Mode) : Aead → Loop σ → Prop
  | first {sw₁ : Writer} {a : Aead} : sw.init = (sw₁, .ok a) →
    LoopHead read sw r mode a ⟨if mode = .normal then sw₁.markFlushed else sw₁, r,
      (if mode = .normal then sw₁.markFlushed else sw₁).firstStart, 0⟩
  | next {a : Aead} {l : Loop σ} : LoopHead read sw r mode a l → (l.step read mode a).2 = none →
    LoopHead read sw r mode a (l.step read mode a).1

theorem firstStart_le_saltSize (sw : Writer) : sw.firstStart ≤ sw.ssCipher.saltSize := by
  unfold Writer.firstStart; split <;> omega

section Step
variable {σ : Type} {read : σ → Nat → (List UInt8 × Option Err) × σ} {mode : Mode} {a : Aead}
  {l : Loop σ}

@[simp] theorem step_salt (l : Loop σ) : (l.step read mode a).1.sw.salt = l.sw.salt := by
  simp only [Loop.step]; split <;> rfl

@[simp] theorem step_ssCipher (l : Loop σ) :
    (l.step read mode a).1.sw.ssCipher = l.sw.ssCipher := by
  simp only [Loop.step]; split <;> rfl

theorem step_start_le (fits : l.InBounds) :
    (l.step read mode a).1.start ≤ l.sw.ssCipher.saltSize := by
  simp only [Loop.step]
  split
  · exact le_rfl
  · exact fits.start

theorem Loop.InBounds.step (bounded : ReadBounded read) (fits : l.InBounds) :
    (l.step read mode a).1.InBounds where
  room := step_pending_lt bounded l fits.room
  saltLen := by rw [step_salt, step_ssCipher]; exact fits.saltLen
  start := by rw [step_ssCipher]; exact step_start_le fits

end Step

section Calls
variable {σ : Type} {read : σ → Nat → (List UInt8 × Option Err) × σ} {sw sw₁ : Writer}
  {a : Aead}

theorem Writer.InBounds.init_ok (fits : sw.InBounds) (ok : sw.init = (sw₁, .ok a)) :
    sw₁.pending.length < payloadSizeMask ∧ sw₁.salt.length = sw₁.ssCipher.saltSize := by
  have pending : sw₁.pending = sw.pending := by rw [← init_pending sw, ok]
  refine ⟨pending ▸ fits.room, ?_⟩
  cases ready : sw.aead with
  | none => exact (init_sent ready ok).saltLen
  | some a' =>
    obtain ⟨rfl, -⟩ := Prod.mk.inj (init_of_aead sw ready ▸ ok)
    exact fits.saltLen a' ready

theorem Writer.InBounds.init_error {e : Err} (fits : sw.InBounds)
    (failed : sw.init = (sw₁, .error e)) : sw₁.InBounds where
  room := by rw [← show sw.init.1 = sw₁ by rw [failed], init_pending]; exact fits.room
  saltLen a set := by
    cases ready : sw.aead with
    | none => rw [init_error_aead ready failed] at set; cases set
    | some a' => rw [init_of_aead sw ready] at failed; cases failed

theorem Writer.InBounds.first (fits : sw.InBounds) (ok : sw.init = (sw₁, .ok a)) (r : σ)
    (mode : Mode) :
    Loop.InBounds ⟨if mode = .normal then sw₁.markFlushed else sw₁, r,
      (if mode = .normal then sw₁.markFlushed else sw₁).firstStart, 0⟩ := by
  obtain ⟨room, saltLen⟩ := fits.init_ok ok
  split <;> exact ⟨room, saltLen, firstStart_le_saltSize _⟩

theorem Writer.InBounds.loopHead (bounded : ReadBounded read) (fits : sw.InBounds) {r : σ}
    {mode : Mode} {l : Loop σ} (head : sw.LoopHead read r mode a l) : l.InBounds := by
  induction head with
  | first ok => exact fits.first ok r mode
  | next _ _ ih => exact ih.step bounded

theorem Writer.InBounds.readFrom (bounded : ReadBounded read) (fits : sw.InBounds)
    {fuel : Nat} {r r' : σ} {mode : Mode} {sw' : Writer} {n : Nat} {e : Option Err}
    (ran : sw.readFrom read fuel r mode = some (sw', r', n, e)) : sw'.InBounds := by
  rcases readFrom_cases ran with ⟨e₁, failed⟩ | ⟨sw₁, a, l, e', ok, loop, rfl⟩
  · exact fits.init_error failed
  · have last := Loop.run_preserves Loop.InBounds (fun _ fits => fits.step bounded)
      (fits.first ok r mode) loop
    exact ⟨last.room, fun _ _ => last.saltLen⟩

theorem Writer.Reachable.inBounds (reach : sw.Reachable) : sw.InBounds := by
  obtain ⟨writer, ssCipher, rand, _, ran⟩ := reach
  have fresh : (newShadowsocksWriter writer ssCipher rand).InBounds :=
    ⟨payloadSizeMask_pos, fun _ unset => nomatch unset⟩
  exact Writer.run_preserves Writer.InBounds
    (fun fits ran => Writer.call_preserves Writer.InBounds (fun _ _ fits => ⟨fits.1, fits.2⟩)
      (fun _ fits => ⟨fits.1, fits.2⟩) (fun _ fits => ⟨fits.1, fits.2⟩)
      (fun bounded fits ran => fits.readFrom bounded ran) fits ran) fresh ran

end Calls

section Pass
variable {σ : Type} {read : σ → Nat → (List UInt8 × Option Err) × σ} {mode : Mode} {a : Aead}
  {l : Loop σ}

theorem Loop.InBounds.slices (bounded : ReadBounded read) (fits : l.InBounds) :
    let sw := l.sw.buffer (read l.r (payloadSizeMask - l.sw.pending.length)).1.1
    ∃ readBuf sent, l.slices read mode a = some (readBuf, sent) ∧
      readBuf.len = payloadSizeMask - l.sw.pending.length ∧
      readBuf.off + readBuf.len ≤ (l.sw.buf a).len ∧
      (sent.isSome ↔
        sw.pending.length = payloadSizeMask ∨ (mode ≠ .lazy ∧ 0 < sw.pending.length)) ∧
      ∀ sizeBlock payloadBlock out, sent = some (sizeBlock, payloadBlock, out) →
        sizeBlock.off = l.sw.ssCipher.saltSize ∧ sizeBlock.off + sizeBlock.len = payloadBlock.off ∧
        payloadBlock.len = sw.pending.length + a.overhead ∧
        out.off = l.start ∧ out.off + out.len = payloadBlock.off + payloadBlock.len ∧
        out.off + out.len ≤ (l.sw.buf a).len ∧
        out.len = (sw.chunkBytes a l.start).length := by
  intro sw
  have bound := bounded l.r (payloadSizeMask - l.sw.pending.length)
  have room := fits.room
  have start := fits.start
  have chunk := length_chunkBytes sw a l.start
  simp only [sw, buffer_eq, withPending_pending, withPending_salt, fits.saltLen,
    List.length_append] at chunk ⊢
  rw [Loop.slices, Writer.blockBufs_eq fits.saltLen]
  simp only [Option.bind_eq_bind, Option.some_bind]
  rw [Loop.passSlices, Slice.sub_mk (by omega) (by omega)]
  simp only [Option.bind_eq_bind, Option.some_bind, Writer.buf, Slice.make, fits.saltLen]
  generalize (read l.r (payloadSizeMask - l.sw.pending.length)).1.1.length = n at bound chunk ⊢
  by_cases sends : l.sw.pending.length + n = payloadSizeMask ∨
    (mode ≠ .lazy ∧ 0 < l.sw.pending.length + n)
  · rw [if_pos sends, if_neg (by omega : ¬ 2 + a.overhead < 2)]
    simp (disch := omega) only [Slice.sub_mk, Slice.sealInPlace_mk, Option.some_bind]
    refine ⟨_, _, rfl, rfl, by dsimp only; omega, iff_of_true rfl sends, ?_⟩
    rintro _ _ _ ⟨⟩
    dsimp only
    rw [chunk]
    omega
  · rw [if_neg sends]
    exact ⟨_, _, rfl, rfl, by dsimp only; omega, iff_of_false Bool.false_ne_true sends,
      fun _ _ _ none => nomatch none⟩

end Pass

/-! ### The reader -/

/-- `cr.buf` as `init` makes it (line 247). -/
def readerBuf (a : Aead) : Slice := .make (payloadSizeMask + a.overhead)

/-- `ReadChunk` without the `cap(cr.buf) < sizeWithTag` test of lines 285-288. -/
def ChunkReader.readChunkUnchecked (cr : ChunkReader) : ChunkReader × Except Err (List UInt8) :=
  match cr.init with
  | (cr, .error e) => (cr, .error e)
  | (cr, .ok a) =>
    match cr.readMessage a (2 + a.overhead) with
    | (cr, .error e) =>
      (cr, .error
        (if e = .eof ∨ e = .unexpectedEOF then e else .wrap "failed to read payload size" e))
    | (cr, .ok sizeBuf) =>
      let size := uint16 sizeBuf &&& payloadSizeMask
      match cr.readMessage a (size + a.overhead) with
      | (cr, .error e) => (cr, .error (if e = .eof then .unexpectedEOF else e))
      | (cr, .ok payloadBuf) => (cr, .ok (payloadBuf.take size))

theorem sizeWithTag_le_cap (a : Aead) (sizeBuf : List UInt8) :
    (uint16 sizeBuf &&& payloadSizeMask) + a.overhead ≤ (readerBuf a).cap :=
  Nat.add_le_add_right Nat.and_le_right a.overhead

theorem ReadChunk_eq_readChunkUnchecked (cr : ChunkReader) :
    cr.ReadChunk = cr.readChunkUnchecked := by
  unfold ChunkReader.ReadChunk ChunkReader.readChunkUnchecked
  rcases cr.init with ⟨cr₁, e | a⟩
  · rfl
  · dsimp only
    rcases cr₁.readMessage a (2 + a.overhead) with ⟨cr₂, e | sizeBuf⟩
    · rfl
    · exact if_neg (Nat.not_lt.mpr (sizeWithTag_le_cap a sizeBuf))

/-- Every slice expression of `readFrom` stays within `sw.buf` on every writer a call hands it
from a reachable state, and `ReadChunk`'s `io.ErrShortBuffer` branch is never taken. -/
theorem slices_within_buffers_and_short_buffer_unreachable :
    (∀ sw : Writer, sw.Reachable → ∀ p : List UInt8,
      sw.InBounds ∧ (sw.reset p).InBounds ∧ (sw.resetFlush.reset p).InBounds) ∧
    (∀ (σ : Type) (read : σ → Nat → (List UInt8 × Option Err) × σ), ReadBounded read →
      ∀ sw : Writer, sw.InBounds → ∀ (r : σ) (mode : Mode) (a : Aead) (l : Loop σ),
      sw.LoopHead read r mode a l →
      let sw' := l.sw.buffer (read l.r (payloadSizeMask - l.sw.pending.length)).1.1
      (l.sw.buf a).len =
        l.sw.ssCipher.saltSize + (2 + a.overhead) + (payloadSizeMask + a.overhead) ∧
      ∃ readBuf sent, l.slices read mode a = some (readBuf, sent) ∧
        readBuf.len = payloadSizeMask - l.sw.pending.length ∧
        readBuf.off + readBuf.len ≤ (l.sw.buf a).len ∧
        (sent.isSome ↔
          sw'.pending.length = payloadSizeMask ∨ (mode ≠ .lazy ∧ 0 < sw'.pending.length)) ∧
        ∀ sizeBlock payloadBlock out, sent = some (sizeBlock, payloadBlock, out) →
          sizeBlock.off = l.sw.ssCipher.saltSize ∧
          sizeBlock.off + sizeBlock.len = payloadBlock.off ∧
          payloadBlock.len = sw'.pending.length + a.overhead ∧
          out.off = l.start ∧ out.off + out.len = payloadBlock.off + payloadBlock.len ∧
          out.off + out.len ≤ (l.sw.buf a).len ∧
          out.len = (sw'.chunkBytes a l.start).length) ∧
    (∀ (a : Aead) (sizeBuf : List UInt8),
      ((readerBuf a).sub 0 (2 + a.overhead)).isSome ∧
      ¬ (readerBuf a).cap < (uint16 sizeBuf &&& payloadSizeMask) + a.overhead ∧
      ((readerBuf a).sub 0 ((uint16 sizeBuf &&& payloadSizeMask) + a.overhead)).isSome) ∧
    ∀ cr : ChunkReader, cr.ReadChunk = cr.readChunkUnchecked := by
  refine ⟨fun _ reach _ => ?_, fun _ _ bounded _ fits _ _ _ _ head => ?_, fun a sizeBuf => ?_,
    ReadChunk_eq_readChunkUnchecked⟩
  · have fits := reach.inBounds
    exact ⟨fits, ⟨fits.1, fits.2⟩, ⟨fits.1, fits.2⟩⟩
  · have inner := fits.loopHead bounded head
    exact ⟨by rw [Writer.buf, Slice.make, inner.saltLen], inner.slices bounded⟩
  · have sized := sizeWithTag_le_cap a sizeBuf
    refine ⟨?_, Nat.not_lt.mpr sized, ?_⟩
    · rw [readerBuf, Slice.make, Slice.sub_mk (Nat.zero_le _)
        (Nat.add_le_add_right (by decide) a.overhead)]
      rfl
    · rw [readerBuf, Slice.make,
        Slice.sub_mk (Nat.zero_le _) (show _ ≤ payloadSizeMask + a.overhead from sized)]
      rfl

end Shadowsocks
