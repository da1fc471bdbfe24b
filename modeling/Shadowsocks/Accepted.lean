import Shadowsocks.ReaderSteps

/-!
What `chunkReader` of shadowsocks/stream.go accepts, on every stream. A `ReadChunk` on a
set-up reader succeeds exactly when the stream holds a length block and a payload block
that open, under the next two nonces, to a two-byte length whose low fourteen bits are the
payload's length and to the payload; the two top bits of the length are never looked at.
So a fresh reader's first chunks are `ps` exactly when the stream starts with a salt the
cipher accepts and then such pairs for `ps` under nonces `0, 1, 2, ...`, and `io.EOF` comes
exactly where the inner reader ended with `io.EOF` at a chunk boundary.
-/

namespace Shadowsocks

/-- The chunks `ps` sealed from nonce `2i` on, as `d` opens them: for each, a length block
opening under nonce `2i` to two bytes whose low fourteen bits are the chunk's length, then
a payload block opening under nonce `2i+1` to the chunk. -/
inductive SealedChunks (d : Aead) : Nat → List (List UInt8) → List UInt8 → Prop
  | nil (i : Nat) : SealedChunks d i [] []
  | cons {i : Nat} {p sizeBlock lenField payloadBlock rest : List UInt8} {ps : List (List UInt8)}
      (size : d.decrypt (leBytes d.nonceSize (2 * i)) sizeBlock = .ok lenField)
      (two : lenField.length = 2) (masked : uint16 lenField &&& payloadSizeMask = p.length)
      (payload : d.decrypt (leBytes d.nonceSize (2 * i + 1)) payloadBlock = .ok p)
      (tail : SealedChunks d (i + 1) ps rest) :
      SealedChunks d i (p :: ps) (sizeBlock ++ payloadBlock ++ rest)

theorem sealedChunks_frames {d a : Aead} (opens : Opens d a) (i : Nat) {cs : List (List UInt8)}
    (valid : ∀ c ∈ cs, ValidChunk c) : SealedChunks d i cs (frames a i cs).flatten := by
  induction cs generalizing i with
  | nil => exact .nil i
  | cons c cs ih =>
    have sized := size_of_sealed (valid c (.head cs)) []
    rw [List.append_nil] at sized
    simp only [frames_cons, List.flatten_cons, frame, List.append_assoc]
    rw [← List.append_assoc]
    refine .cons (by rw [opens.nonceSize, opens.decrypt]) (length_putUint16 _) sized
      (by rw [opens.nonceSize, opens.decrypt]) (ih (i + 1) fun c' mem => valid c' (.tail c mem))

theorem uint16_append {x : List UInt8} (two : x.length = 2) (y : List UInt8) :
    uint16 (x ++ y) = uint16 x := by
  match x, two with
  | [_, _], _ => rfl

theorem ByteStream.readFull_ok_iff {r r' : ByteStream} {n : Nat} {b : List UInt8} :
    r.readFull n = (.ok b, r') ↔ ∃ rest, b.length = n ∧ r.bytes = b ++ rest ∧
      r' = { r with bytes := rest } := by
  constructor
  · intro filled
    have := ByteStream.readFull_ok filled
    unfold ByteStream.readFull at filled
    split at filled
    · obtain ⟨read, rfl⟩ := Prod.mk.inj filled
      cases read
      exact ⟨_, this, (List.take_append_drop n r.bytes).symm, rfl⟩
    · split at filled <;> cases filled
  · rintro ⟨rest, rfl, bytes, rfl⟩
    rw [ByteStream.readFull_of_le (by simp [bytes]), bytes, List.take_left' rfl,
      List.drop_left' rfl]

theorem ByteStream.readFull_eof_iff (r : ByteStream) (n : Nat) :
    (r.readFull n).1 = .error .eof ↔ 0 < n ∧ r = ⟨[], .eof⟩ := by
  unfold ByteStream.readFull
  by_cases enough : n ≤ r.bytes.length
  · rw [if_pos enough]
    constructor
    · intro h; cases h
    · rintro ⟨pos, rfl⟩; simp at enough; omega
  · rw [if_neg enough]
    obtain ⟨bytes, final⟩ := r
    by_cases empty : bytes = []
    · subst empty; simp at enough ⊢; omega
    · simp only [if_neg empty]
      constructor
      · intro h; split at h <;> simp_all
      · rintro ⟨-, h⟩; cases h; contradiction

def ChunkReader.moveTo (cr : ChunkReader) (rest counter : List UInt8) : ChunkReader :=
  { cr with reader := { cr.reader with bytes := rest }, counter }

section Moves
variable {cr : ChunkReader} {rest counter : List UInt8}

@[simp] theorem moveTo_reader : (cr.moveTo rest counter).reader = ⟨rest, cr.reader.final⟩ := rfl
@[simp] theorem moveTo_ssCipher : (cr.moveTo rest counter).ssCipher = cr.ssCipher := rfl
@[simp] theorem moveTo_aead : (cr.moveTo rest counter).aead = cr.aead := rfl
@[simp] theorem moveTo_counter : (cr.moveTo rest counter).counter = counter := rfl
@[simp] theorem moveTo_moveTo (rest' counter' : List UInt8) :
    (cr.moveTo rest counter).moveTo rest' counter' = cr.moveTo rest' counter' := rfl
@[simp] theorem moveTo_self : cr.moveTo cr.reader.bytes cr.counter = cr := rfl

end Moves

section Accepts
variable {cr cr' : ChunkReader} {d : Aead}

theorem ChunkReader.readMessage_ok_iff {n : Nat} {buf : List UInt8} :
    cr.readMessage d n = (cr', .ok buf) ↔
      ∃ sealed plaintext rest, sealed.length = n ∧ cr.reader.bytes = sealed ++ rest ∧
        d.decrypt cr.counter sealed = .ok plaintext ∧
        buf = plaintext ++ sealed.drop plaintext.length ∧
        cr' = cr.moveTo rest (increment cr.counter) := by
  unfold ChunkReader.readMessage
  constructor
  · intro read
    rcases filled : cr.reader.readFull n with ⟨e | sealed, r⟩ <;> rw [filled] at read <;>
      dsimp only at read
    · cases read
    obtain ⟨rest, len, bytes, rfl⟩ := ByteStream.readFull_ok_iff.mp filled
    rcases opened : d.decrypt cr.counter sealed with e | plaintext <;> rw [opened] at read <;>
      dsimp only at read
    · cases read
    obtain ⟨rfl, found⟩ := Prod.mk.inj read
    cases found
    exact ⟨sealed, plaintext, rest, len, bytes, opened, rfl, rfl⟩
  · rintro ⟨sealed, plaintext, rest, rfl, bytes, opened, rfl, rfl⟩
    rw [ByteStream.readFull_ok_iff.mpr ⟨rest, rfl, bytes, rfl⟩]
    simp only [opened]
    rfl

theorem ChunkReader.readMessage_eof_iff (n : Nat) :
    (cr.readMessage d n).2 = .error .eof ↔ 0 < n ∧ cr.reader = ⟨[], .eof⟩ := by
  rw [← ByteStream.readFull_eof_iff]
  unfold ChunkReader.readMessage
  rcases cr.reader.readFull n with ⟨e | sealed, r⟩
  · rfl
  · dsimp only
    split <;> simp

theorem size_fits (sizeBuf : List UInt8) :
    ¬ payloadSizeMask + d.overhead < (uint16 sizeBuf &&& payloadSizeMask) + d.overhead := by
  have := @Nat.and_le_right (uint16 sizeBuf) payloadSizeMask
  omega

theorem ChunkReader.ReadChunk_ok_iff {p : List UInt8} (set : cr.aead = some d) :
    cr.ReadChunk = (cr', .ok p) ↔
      ∃ sizeBlock lenField payloadBlock rest,
        cr.reader.bytes = sizeBlock ++ payloadBlock ++ rest ∧
        d.decrypt cr.counter sizeBlock = .ok lenField ∧ lenField.length = 2 ∧
        uint16 lenField &&& payloadSizeMask = p.length ∧
        d.decrypt (increment cr.counter) payloadBlock = .ok p ∧
        cr' = cr.moveTo rest (increment (increment cr.counter)) := by
  unfold ChunkReader.ReadChunk
  rw [ChunkReader.init_of_set set]
  dsimp only
  constructor
  · intro read
    rcases sized : cr.readMessage d (2 + d.overhead) with ⟨cr₂, e | sizeBuf⟩ <;>
      rw [sized] at read <;> dsimp only at read
    · cases read
    obtain ⟨sizeBlock, lenField, rest₁, sizeLen, bytes₁, size, rfl, rfl⟩ :=
      ChunkReader.readMessage_ok_iff.mp sized
    have two : lenField.length = 2 := by have := d.decrypt_length _ _ _ size; omega
    rw [uint16_append two, if_neg (size_fits _)] at read
    rcases paid : (cr.moveTo rest₁ (increment cr.counter)).readMessage d
        ((uint16 lenField &&& payloadSizeMask) + d.overhead) with ⟨cr₃, e | payloadBuf⟩ <;>
      rw [paid] at read <;> dsimp only at read
    · cases read
    obtain ⟨payloadBlock, plaintext, rest, payLen, bytes₂, payload, rfl, rfl⟩ :=
      ChunkReader.readMessage_ok_iff.mp paid
    obtain ⟨rfl, found⟩ := Prod.mk.inj read
    cases found
    have plainLen : plaintext.length = uint16 lenField &&& payloadSizeMask := by
      have := d.decrypt_length _ _ _ payload; omega
    rw [List.take_left' plainLen]
    have bytes₂ : rest₁ = payloadBlock ++ rest := bytes₂
    exact ⟨sizeBlock, lenField, payloadBlock, rest, by rw [bytes₁, bytes₂, List.append_assoc],
      size, two, plainLen.symm, payload, rfl⟩
  · rintro ⟨sizeBlock, lenField, payloadBlock, rest, bytes, size, two, masked, payload, rfl⟩
    have sizeLen : sizeBlock.length = 2 + d.overhead := by
      have := d.decrypt_length _ _ _ size; omega
    rw [ChunkReader.readMessage_ok_iff.mpr ⟨sizeBlock, lenField, payloadBlock ++ rest, sizeLen,
      by rw [bytes, List.append_assoc], size, rfl, rfl⟩]
    dsimp only
    rw [uint16_append two, if_neg (size_fits _), masked,
      ChunkReader.readMessage_ok_iff.mpr ⟨payloadBlock, p, rest,
        (d.decrypt_length _ _ _ payload).symm, rfl, payload, rfl, rfl⟩]
    simp

/-- The two top bits of the length are not checked: a length field `0xC001` reads as a
one-byte chunk. -/
example : (⟨⟨[0xC0, 0x01, 0, 5, 1], .eof⟩, Cipher.tagging 0 1, some (Aead.tagging 1), [0]⟩ :
    ChunkReader).ReadChunk.2 = .ok [5] := rfl

theorem ChunkReader.ReadChunk_eof_iff_of_set (set : cr.aead = some d) :
    cr.ReadChunk.2 = .error .eof ↔ cr.reader = ⟨[], .eof⟩ := by
  have := @ChunkReader.readMessage_eof_iff cr d (2 + d.overhead)
  simp only [Nat.add_pos_left two_pos, true_and] at this
  rw [← this]
  unfold ChunkReader.ReadChunk
  rw [ChunkReader.init_of_set set]
  dsimp only
  rcases cr.readMessage d (2 + d.overhead) with ⟨cr₂, e | sizeBuf⟩
  · dsimp only
    split <;> simp_all
  · dsimp only
    rw [if_neg (size_fits _)]
    rcases cr₂.readMessage d ((uint16 sizeBuf &&& payloadSizeMask) + d.overhead) with
      ⟨cr₃, e | payloadBuf⟩
    · dsimp only
      split <;> simp_all
    · simp

theorem ChunkReader.init_ok_iff (unset : cr.aead = none) :
    cr.init = (cr', .ok d) ↔ ∃ salt rest, salt.length = cr.ssCipher.saltSize ∧
      cr.reader.bytes = salt ++ rest ∧ cr.ssCipher.decrypter salt = .ok d ∧
      cr' = { cr.moveTo rest (leBytes d.nonceSize 0) with aead := some d } := by
  unfold ChunkReader.init
  rw [unset]
  dsimp only
  constructor
  · intro ready
    rcases filled : cr.reader.readFull cr.ssCipher.saltSize with ⟨e | salt, r⟩ <;>
      rw [filled] at ready <;> dsimp only at ready
    · cases ready
    obtain ⟨rest, len, bytes, rfl⟩ := ByteStream.readFull_ok_iff.mp filled
    rcases opened : cr.ssCipher.decrypter salt with e | d' <;> rw [opened] at ready <;>
      dsimp only at ready
    · cases ready
    obtain ⟨rfl, found⟩ := Prod.mk.inj ready
    cases found
    exact ⟨salt, rest, len, bytes, opened, by rw [leBytes_zero]; rfl⟩
  · rintro ⟨salt, rest, len, bytes, opened, rfl⟩
    rw [← len, ByteStream.readFull_ok_iff.mpr ⟨rest, rfl, bytes, rfl⟩]
    simp only [opened, leBytes_zero]
    rfl

theorem readChunks_sealed_iff (set : cr.aead = some d) {i : Nat}
    (counter : cr.counter = leBytes d.nonceSize (2 * i)) (ps : List (List UInt8)) (m : Nat)
    (tail : List (Except Err (List UInt8))) :
    readChunks ChunkReader.ReadChunk (ps.length + m) cr = ps.map .ok ++ tail ↔
      ∃ bytes rest, cr.reader.bytes = bytes ++ rest ∧ SealedChunks d i ps bytes ∧
        readChunks ChunkReader.ReadChunk m
          (cr.moveTo rest (leBytes d.nonceSize (2 * (i + ps.length)))) = tail := by
  induction ps generalizing cr i with
  | nil =>
    simp only [List.length_nil, Nat.zero_add, List.map_nil, List.nil_append, Nat.add_zero,
      ← counter]
    constructor
    · exact fun run => ⟨[], cr.reader.bytes, rfl, .nil i, run⟩
    · rintro ⟨bytes, rest, split, sealed, run⟩
      cases sealed
      rwa [← show cr.reader.bytes = rest from split, moveTo_self] at run
  | cons p ps ih =>
    have next := fun rest => @ih (cr.moveTo rest (increment (increment cr.counter))) set (i + 1)
      (by rw [moveTo_counter, counter, increment_increment_leBytes])
    have past : i + 1 + ps.length = i + (p :: ps).length := by simp only [List.length_cons]; omega
    rw [show (p :: ps).length + m = ps.length + m + 1 by simp only [List.length_cons]; omega]
    rcases step : cr.ReadChunk with ⟨cr₁, result⟩
    simp only [readChunks, step, List.map_cons, List.cons_append, List.cons.injEq]
    constructor
    · rintro ⟨rfl, run⟩
      obtain ⟨sizeBlock, lenField, payloadBlock, rest₁, bytes, size, two, masked, payload, rfl⟩ :=
        (ChunkReader.ReadChunk_ok_iff set).mp step
      obtain ⟨bytes', rest, split, sealed, after⟩ := (next rest₁).mp run
      refine ⟨sizeBlock ++ payloadBlock ++ bytes', rest, ?_, .cons (counter ▸ size) two masked
        (by rwa [counter, increment_leBytes] at payload) sealed, ?_⟩
      · rw [bytes, show rest₁ = bytes' ++ rest from split]; simp only [List.append_assoc]
      · rwa [moveTo_moveTo, past] at after
    · rintro ⟨bytes, rest, split, sealed, run⟩
      cases sealed with
      | @cons _ _ sizeBlock lenField payloadBlock rest' _ size two masked payload tail =>
        obtain ⟨rfl, rfl⟩ := Prod.mk.inj (step.symm.trans ((ChunkReader.ReadChunk_ok_iff set).mpr
          ⟨sizeBlock, lenField, payloadBlock, rest' ++ rest,
            by rw [split]; simp only [List.append_assoc], by rwa [counter], two, masked,
            by rwa [counter, increment_leBytes], rfl⟩))
        refine ⟨rfl, (next _).mpr ⟨rest', rest, rfl, tail, ?_⟩⟩
        rwa [moveTo_moveTo, past]

theorem readChunks_of_init {p : List UInt8} {m : Nat} {results : List (Except Err (List UInt8))} :
    readChunks ChunkReader.ReadChunk (m + 1) cr = .ok p :: results ↔
      ∃ cr₁ d, cr.init = (cr₁, .ok d) ∧
        readChunks ChunkReader.ReadChunk (m + 1) cr₁ = .ok p :: results := by
  rcases ready : cr.init with ⟨cr₁, e | d⟩
  · simp [readChunks, ChunkReader.ReadChunk_of_init_error ready]
  · have set := (ChunkReader.init_ok ready).2
    simp only [readChunks, ChunkReader.ReadChunk_of_init_ok ready set]
    exact ⟨fun run => ⟨cr₁, d, rfl, run⟩, fun ⟨_, _, same, run⟩ => by cases same; exact run⟩

theorem ByteStream.eq_drained_iff (r : ByteStream) : r = ⟨[], .eof⟩ ↔ r.bytes = [] ∧ r.final = .eof := by
  cases r; simp

theorem ChunkReader.init_eof_iff (unset : cr.aead = none) :
    cr.init.2 = .error .eof ↔ 0 < cr.ssCipher.saltSize ∧ cr.reader = ⟨[], .eof⟩ := by
  rw [← ByteStream.readFull_eof_iff]
  unfold ChunkReader.init
  rw [unset]
  dsimp only
  rcases cr.reader.readFull cr.ssCipher.saltSize with ⟨e | salt, r⟩
  · dsimp only; split <;> simp_all
  · dsimp only; split <;> simp

theorem ChunkReader.ReadChunk_eof_iff_fresh (unset : cr.aead = none) :
    cr.ReadChunk.2 = .error .eof ↔ cr.reader.final = .eof ∧
      ((cr.reader.bytes = [] ∧ 0 < cr.ssCipher.saltSize) ∨
        (cr.reader.bytes.length = cr.ssCipher.saltSize ∧
          ∃ d, cr.ssCipher.decrypter cr.reader.bytes = .ok d)) := by
  rcases ready : cr.init with ⟨cr₁, e | d⟩
  · have failed := ChunkReader.init_eof_iff unset
    rw [ready] at failed
    rw [ChunkReader.ReadChunk_of_init_error ready]
    simp only [Except.error.injEq] at failed ⊢
    rw [failed, ByteStream.eq_drained_iff]
    constructor
    · rintro ⟨salted, empty, final⟩; exact ⟨final, .inl ⟨empty, salted⟩⟩
    · rintro ⟨final, ⟨empty, salted⟩ | ⟨whole, d, opened⟩⟩
      · exact ⟨salted, empty, final⟩
      · have := (ChunkReader.init_ok_iff unset).mpr ⟨_, [], whole, (List.append_nil _).symm,
          opened, rfl⟩
        rw [ready] at this; cases this
  · obtain ⟨salt, rest, len, bytes, opened, rfl⟩ := (ChunkReader.init_ok_iff unset).mp ready
    rw [ChunkReader.ReadChunk_of_init_ok ready rfl, ChunkReader.ReadChunk_eof_iff_of_set rfl,
      ByteStream.eq_drained_iff, bytes]
    simp only [moveTo_reader, List.append_eq_nil, List.length_append]
    constructor
    · rintro ⟨rfl, final⟩
      exact ⟨final, .inr ⟨by simp [len], d, by simpa using opened⟩⟩
    · rintro ⟨final, ⟨⟨-, rfl⟩, -⟩ | ⟨whole, -⟩⟩
      · exact ⟨rfl, final⟩
      · exact ⟨List.eq_nil_of_length_eq_zero (by omega), final⟩

theorem readChunks_fresh_iff (reader : ByteStream) (c : Cipher) (p : List UInt8)
    (ps : List (List UInt8)) (m : Nat) (tail : List (Except Err (List UInt8))) :
    readChunks ChunkReader.ReadChunk ((p :: ps).length + m) (newChunkReader reader c) =
        (p :: ps).map .ok ++ tail ↔
      ∃ salt d bytes rest, salt.length = c.saltSize ∧ c.decrypter salt = .ok d ∧
        reader.bytes = salt ++ bytes ++ rest ∧ SealedChunks d 0 (p :: ps) bytes ∧
        readChunks ChunkReader.ReadChunk m
          ⟨⟨rest, reader.final⟩, c, some d, leBytes d.nonceSize (2 * (p :: ps).length)⟩ = tail := by
  have calls : (p :: ps).length + m = ps.length + m + 1 := by simp only [List.length_cons]; omega
  have fromZero : ∀ d : Aead, leBytes d.nonceSize 0 = leBytes d.nonceSize (2 * 0) := fun _ => rfl
  rw [calls, List.map_cons, List.cons_append, readChunks_of_init]
  constructor
  · rintro ⟨cr₁, d, ready, run⟩
    obtain ⟨salt, rest₀, len, bytes₀, opened, rfl⟩ := (ChunkReader.init_ok_iff rfl).mp ready
    rw [← List.cons_append, ← List.map_cons, ← calls] at run
    obtain ⟨bytes, rest, split, sealed, after⟩ :=
      (readChunks_sealed_iff rfl (fromZero d) (p :: ps) m tail).mp run
    rw [Nat.zero_add] at after
    exact ⟨salt, d, bytes, rest, len, opened, by rw [show reader.bytes = _ from bytes₀,
      show rest₀ = _ from split, List.append_assoc], sealed, after⟩
  · rintro ⟨salt, d, bytes, rest, len, opened, split, sealed, after⟩
    refine ⟨_, d, (ChunkReader.init_ok_iff rfl).mpr ⟨salt, bytes ++ rest, len,
      by rw [show (newChunkReader reader c).reader.bytes = _ from split, List.append_assoc],
      opened, rfl⟩, ?_⟩
    rw [← List.cons_append, ← List.map_cons, ← calls]
    exact (readChunks_sealed_iff rfl (fromZero d) (p :: ps) m tail).mpr
      ⟨bytes, rest, rfl, sealed, by rwa [Nat.zero_add]⟩

end Accepts

/-- What `chunkReader` accepts on every stream: a chunk exactly when its length and payload
blocks open under the next two nonces (the length's top two bits unchecked), after a salt the
cipher accepts; the writer's frames are such a stream. -/
theorem chunkReader_accepts_exactly_sealed_chunks :
    (∀ (cr cr' : ChunkReader) (d : Aead) (p : List UInt8), cr.aead = some d →
      (cr.ReadChunk = (cr', .ok p) ↔
        ∃ sizeBlock lenField payloadBlock rest,
          cr.reader.bytes = sizeBlock ++ payloadBlock ++ rest ∧
          d.decrypt cr.counter sizeBlock = .ok lenField ∧ lenField.length = 2 ∧
          uint16 lenField &&& payloadSizeMask = p.length ∧
          d.decrypt (increment cr.counter) payloadBlock = .ok p ∧
          cr' = cr.moveTo rest (increment (increment cr.counter)))) ∧
    (∀ (reader : ByteStream) (c : Cipher) (p : List UInt8) (ps : List (List UInt8)),
      readChunks ChunkReader.ReadChunk (p :: ps).length (newChunkReader reader c) =
          (p :: ps).map .ok ↔
        ∃ salt d bytes rest, salt.length = c.saltSize ∧ c.decrypter salt = .ok d ∧
          reader.bytes = salt ++ bytes ++ rest ∧ SealedChunks d 0 (p :: ps) bytes) ∧
    ∀ (d a : Aead), Opens d a → ∀ (i : Nat) (cs : List (List UInt8)),
      (∀ c ∈ cs, ValidChunk c) → SealedChunks d i cs (frames a i cs).flatten := by
  refine ⟨fun _ _ _ _ set => ChunkReader.ReadChunk_ok_iff set, fun reader c p ps => ?_,
    fun _ _ opens i _ valid => sealedChunks_frames opens i valid⟩
  have := readChunks_fresh_iff reader c p ps 0 []
  simp only [Nat.add_zero, List.append_nil] at this
  rw [this]
  exact exists_congr fun _ => exists_congr fun _ => exists_congr fun _ => exists_congr fun _ =>
    and_congr_right fun _ => and_congr_right fun _ => and_congr_right fun _ =>
      and_iff_left rfl

theorem chunkReader_accepts_tagged_frame :
    ∃ d, Opens d (Aead.tagging 1) ∧ SealedChunks d 0 [[5]] (frames (Aead.tagging 1) 0 [[5]]).flatten :=
  let ⟨d, _, opens⟩ := @Cipher.Matched.opens _ [] _ (Cipher.tagging_matched 0 1) rfl
  ⟨d, opens, chunkReader_accepts_exactly_sealed_chunks.2.2 d _ opens 0 [[5]] (by decide)⟩

/-- `io.EOF` from `chunkReader` means the peer closed at a chunk boundary: it comes exactly when
the inner reader ended with `io.EOF` after nothing, a salt, or a salt and whole sealed chunks. -/
theorem chunkReader_eof_only_at_chunk_boundary :
    (∀ (cr : ChunkReader) (d : Aead), cr.aead = some d →
      (cr.ReadChunk.2 = .error .eof ↔ cr.reader = ⟨[], .eof⟩)) ∧
    (∀ (reader : ByteStream) (c : Cipher),
      (newChunkReader reader c).ReadChunk.2 = .error .eof ↔ reader.final = .eof ∧
        ((reader.bytes = [] ∧ 0 < c.saltSize) ∨
          (reader.bytes.length = c.saltSize ∧ ∃ d, c.decrypter reader.bytes = .ok d))) ∧
    ∀ (reader : ByteStream) (c : Cipher) (p : List UInt8) (ps : List (List UInt8)),
      readChunks ChunkReader.ReadChunk ((p :: ps).length + 1) (newChunkReader reader c) =
          (p :: ps).map .ok ++ [.error .eof] ↔
        reader.final = .eof ∧ ∃ salt d bytes, salt.length = c.saltSize ∧
          c.decrypter salt = .ok d ∧ reader.bytes = salt ++ bytes ∧ SealedChunks d 0 (p :: ps) bytes := by
  refine ⟨fun _ _ set => ChunkReader.ReadChunk_eof_iff_of_set set,
    fun _ _ => ChunkReader.ReadChunk_eof_iff_fresh rfl, fun reader c p ps => ?_⟩
  rw [readChunks_fresh_iff]
  simp only [readChunks, List.cons.injEq, and_true]
  constructor
  · rintro ⟨salt, d, bytes, rest, len, opened, split, sealed, closed⟩
    obtain ⟨rfl, final⟩ := (ByteStream.eq_drained_iff _).mp
      ((ChunkReader.ReadChunk_eof_iff_of_set rfl).mp closed)
    exact ⟨final, salt, d, bytes, len, opened, by simpa using split, sealed⟩
  · rintro ⟨final, salt, d, bytes, len, opened, split, sealed⟩
    refine ⟨salt, d, bytes, [], len, opened, by simpa using split, sealed, ?_⟩
    exact (ChunkReader.ReadChunk_eof_iff_of_set rfl).mpr (by rw [← final])

theorem chunkReader_eof_on_drained_stream :
    (ChunkReader.ReadChunk ⟨⟨[], .eof⟩, Cipher.tagging 0 1, some (Aead.tagging 1), [0]⟩).2 =
      .error .eof :=
  (chunkReader_eof_only_at_chunk_boundary.1 _ (Aead.tagging 1) rfl).mpr rfl

/-! ### The reader never hangs -/

theorem Converter.run_isSome_of_calls {σ : Type} {readChunk : σ → σ × Except Err (List UInt8)}
    {budget : Converter σ → Nat}
    (called : ∀ (c : Converter σ) (call : ReaderCall), (∀ w, call = .writeTo w → w.Progresses) →
      (c.call readChunk budget call).isSome)
    (c : Converter σ) {calls : List ReaderCall}
    (progresses : ∀ w, ReaderCall.writeTo w ∈ calls → w.Progresses) :
    (c.run readChunk budget calls).isSome := by
  induction calls generalizing c with
  | nil => rfl
  | cons call calls ih =>
    obtain ⟨⟨c₁, o⟩, found⟩ := Option.isSome_iff_exists.1
      (called c call fun w is => progresses w (is ▸ List.mem_cons_self _ _))
    simp only [Converter.run, found]
    exact Option.isSome_map'.trans (ih c₁ fun w mem => progresses w (List.mem_cons_of_mem _ mem))

/-- `NewShadowsocksReader` never hangs: over every byte stream and cipher, every run of
`Read` and `WriteTo` calls returns, `WriteTo` within `Converter.budget` passes, when each
sink given to `WriteTo` takes a byte whenever it reports no error. -/
theorem reader_calls_return_on_every_stream (reader : ByteStream) (c : Cipher)
    (calls : List ReaderCall) (progresses : ∀ w, ReaderCall.writeTo w ∈ calls → w.Progresses) :
    ((newShadowsocksReader reader c).run ChunkReader.ReadChunk Converter.budget calls).isSome :=
  Converter.run_isSome_of_calls (fun c call progresses => call_isSome_reader c call progresses) _
    progresses

theorem reader_calls_return_on_three_bytes :
    (∀ w, ReaderCall.writeTo w ∈ [.read 2, .writeTo ⟨[], fun _ => (none, none)⟩] →
        w.Progresses) ∧
      ((newShadowsocksReader ⟨[1, 2, 3], .eof⟩ (Cipher.tagging 0 1)).run ChunkReader.ReadChunk
        Converter.budget [.read 2, .writeTo ⟨[], fun _ => (none, none)⟩]).isSome :=
  have progresses : ∀ w, ReaderCall.writeTo w ∈ [.read 2, .writeTo ⟨[], fun _ => (none, none)⟩] →
      w.Progresses := fun w mem n _ => by
    rcases List.mem_cons.mp mem with wrong | mem
    · cases wrong
    · rcases List.mem_singleton.mp mem with ⟨⟩
      nofun
  ⟨progresses, reader_calls_return_on_every_stream _ _ _ progresses⟩

end Shadowsocks
