import Shadowsocks.Accepted

/-!
The errors of `chunkReader.ReadChunk` in shadowsocks/stream.go, on every stream. Each comes
from one of its three reads or from the cipher. A read that runs the inner reader dry
reports `io.EOF` or `io.ErrUnexpectedEOF` when the inner reader ended with `io.EOF`, and
otherwise the inner reader's own error, under the salt's or the length's context but bare
for the payload. A block that does not open reports "failed to decrypt", under the
length's context for the length block. And the cipher can refuse the salt. A dry inner
reader stays dry, so once a read has run it dry every later `ReadChunk` fails too, and no
chunk follows a truncated stream. A block that does not open, in contrast, is skipped: the
reader stays set up, past it and with the nonce moved on, and the next call reads on.
-/

namespace Shadowsocks

theorem ByteStream.readFull_final (r : ByteStream) (n : Nat) : (r.readFull n).2.final = r.final := by
  unfold ByteStream.readFull
  split
  · rfl
  · split <;> rfl

theorem ByteStream.readFull_error {r r' : ByteStream} {n : Nat} {e : Err}
    (failed : r.readFull n = (.error e, r')) :
    r' = ⟨[], r.final⟩ ∧
      (r.final = .eof ∧ (e = .eof ∨ e = .unexpectedEOF) ∨ r.final ≠ .eof ∧ e = r.final) := by
  obtain ⟨bytes, final⟩ := r
  unfold ByteStream.readFull at failed
  dsimp only at failed ⊢
  split at failed
  · cases failed
  split at failed
  · next empty =>
    obtain ⟨found, rfl⟩ := Prod.mk.inj failed
    rw [Except.error.injEq] at found
    subst found empty
    by_cases eof : final = .eof <;> simp [eof]
  · obtain ⟨found, rfl⟩ := Prod.mk.inj failed
    cases found
    by_cases eof : final = .eof <;> simp [eof]

theorem ByteStream.readFull_dry {r : ByteStream} (dry : r.bytes = []) (n : Nat) :
    (r.readFull n).2 = r := by
  obtain ⟨bytes, final⟩ := r
  dsimp only at dry
  subst dry
  unfold ByteStream.readFull
  split <;> simp

theorem dry_error_in_context {final e : Err} (s : String)
    (shape : final = .eof ∧ (e = .eof ∨ e = .unexpectedEOF) ∨ final ≠ .eof ∧ e = final) :
    final = .eof ∧ ((if e = .eof ∨ e = .unexpectedEOF then e else .wrap s e) = .eof ∨
        (if e = .eof ∨ e = .unexpectedEOF then e else .wrap s e) = .unexpectedEOF) ∨
      final ≠ .eof ∧ ((if e = .eof ∨ e = .unexpectedEOF then e else .wrap s e) = final ∨
        (if e = .eof ∨ e = .unexpectedEOF then e else .wrap s e) = .wrap s final) := by
  rcases shape with ⟨eof, rfl | rfl⟩ | ⟨eof, rfl⟩ <;> split_ifs <;> simp_all

theorem ByteStream.readFull_dry_error {r : ByteStream} (dry : r.bytes = []) {n : Nat}
    (pos : 0 < n) : ∃ e, (r.readFull n).1 = .error e := by
  unfold ByteStream.readFull
  rw [if_neg (by rw [dry, List.length_nil]; omega), if_pos dry]
  exact ⟨_, rfl⟩

section Stages
variable {cr cr' : ChunkReader} {d : Aead} {e : Err}

theorem ChunkReader.init_reader (cr : ChunkReader) :
    cr.init.1.reader = cr.reader ∨ cr.init.1.reader = (cr.reader.readFull cr.ssCipher.saltSize).2 := by
  unfold ChunkReader.init
  split
  · exact .inl rfl
  · right
    rcases cr.reader.readFull cr.ssCipher.saltSize with ⟨x | salt, r⟩
    · rfl
    · dsimp only
      split <;> rfl

theorem ChunkReader.readMessage_reader (cr : ChunkReader) (d : Aead) (n : Nat) :
    (cr.readMessage d n).1.reader = (cr.reader.readFull n).2 := by
  unfold ChunkReader.readMessage
  rcases cr.reader.readFull n with ⟨x | sealed, r⟩
  · rfl
  · dsimp only
    split <;> rfl

theorem ChunkReader.readMessage_aead (cr : ChunkReader) (d : Aead) (n : Nat) :
    (cr.readMessage d n).1.aead = cr.aead := by
  unfold ChunkReader.readMessage
  rcases cr.reader.readFull n with ⟨x | sealed, r⟩
  · rfl
  · dsimp only
    split <;> rfl

theorem ChunkReader.ReadChunk_aead (set : cr.aead = some d) : cr.ReadChunk.1.aead = some d := by
  unfold ChunkReader.ReadChunk
  rw [ChunkReader.init_of_set set]
  dsimp only
  have sizeKept := cr.readMessage_aead d (2 + d.overhead)
  rcases sized : cr.readMessage d (2 + d.overhead) with ⟨cr₁, e | sizeBuf⟩ <;>
    rw [sized] at sizeKept <;> dsimp only
  · exact sizeKept.trans set
  split
  · exact sizeKept.trans set
  have kept := cr₁.readMessage_aead d ((uint16 sizeBuf &&& payloadSizeMask) + d.overhead)
  rcases paid : cr₁.readMessage d ((uint16 sizeBuf &&& payloadSizeMask) + d.overhead) with
    ⟨cr₂, e | payloadBuf⟩ <;> rw [paid] at kept <;> exact kept.trans (sizeKept.trans set)

theorem ChunkReader.init_final (cr : ChunkReader) : cr.init.1.reader.final = cr.reader.final := by
  rcases cr.init_reader with same | same <;> rw [same]
  exact ByteStream.readFull_final _ _

theorem ChunkReader.readMessage_final (cr : ChunkReader) (d : Aead) (n : Nat) :
    (cr.readMessage d n).1.reader.final = cr.reader.final := by
  rw [cr.readMessage_reader, ByteStream.readFull_final]

theorem ChunkReader.init_error (failed : cr.init = (cr', .error e)) :
    (cr'.reader = ⟨[], cr.reader.final⟩ ∧
      (cr.reader.final = .eof ∧ (e = .eof ∨ e = .unexpectedEOF) ∨
        cr.reader.final ≠ .eof ∧
          (e = cr.reader.final ∨ e = .wrap "failed to read salt" cr.reader.final))) ∨
      ∃ x, e = .wrap "failed to create AEAD" x := by
  unfold ChunkReader.init at failed
  rcases set : cr.aead with _ | a <;> rw [set] at failed <;> dsimp only at failed
  · rcases filled : cr.reader.readFull cr.ssCipher.saltSize with ⟨x | salt, r⟩ <;>
      rw [filled] at failed <;> dsimp only at failed
    · obtain ⟨rfl, found⟩ := Prod.mk.inj failed
      cases found
      obtain ⟨rfl, shape⟩ := ByteStream.readFull_error filled
      exact .inl ⟨rfl, dry_error_in_context _ shape⟩
    · split at failed
      · obtain ⟨-, found⟩ := Prod.mk.inj failed
        cases found
        exact .inr ⟨_, rfl⟩
      · cases failed
  · cases failed

theorem ChunkReader.readMessage_error {n : Nat} (failed : cr.readMessage d n = (cr', .error e)) :
    (cr'.reader = ⟨[], cr.reader.final⟩ ∧
      (cr.reader.final = .eof ∧ (e = .eof ∨ e = .unexpectedEOF) ∨
        cr.reader.final ≠ .eof ∧ e = cr.reader.final)) ∨
      ∃ x, e = .wrap "failed to decrypt" x := by
  unfold ChunkReader.readMessage at failed
  rcases filled : cr.reader.readFull n with ⟨x | sealed, r⟩ <;> rw [filled] at failed <;>
    dsimp only at failed
  · obtain ⟨rfl, found⟩ := Prod.mk.inj failed
    cases found
    obtain ⟨rfl, shape⟩ := ByteStream.readFull_error filled
    exact .inl ⟨rfl, shape⟩
  · split at failed
    · obtain ⟨-, found⟩ := Prod.mk.inj failed
      cases found
      exact .inr ⟨_, rfl⟩
    · cases failed

end Stages

theorem ChunkReader.ReadChunk_error {cr cr' : ChunkReader} {e : Err}
    (failed : cr.ReadChunk = (cr', .error e)) :
    (cr'.reader = ⟨[], cr.reader.final⟩ ∧
      (cr.reader.final = .eof ∧ (e = .eof ∨ e = .unexpectedEOF) ∨
        cr.reader.final ≠ .eof ∧ (e = cr.reader.final ∨
          e = .wrap "failed to read salt" cr.reader.final ∨
          e = .wrap "failed to read payload size" cr.reader.final))) ∨
      (∃ x, e = .wrap "failed to read payload size" (.wrap "failed to decrypt" x) ∨
        e = .wrap "failed to decrypt" x) ∨
      ∃ x, e = .wrap "failed to create AEAD" x := by
  unfold ChunkReader.ReadChunk at failed
  rcases ready : cr.init with ⟨cr₁, e₁ | d⟩ <;> rw [ready] at failed <;> dsimp only at failed
  · obtain ⟨rfl, found⟩ := Prod.mk.inj failed
    cases found
    rcases ChunkReader.init_error ready with ⟨dry, shape⟩ | created
    · exact .inl ⟨dry, shape.imp_right fun ⟨eof, salt⟩ => ⟨eof, salt.imp_right .inl⟩⟩
    · exact .inr (.inr created)
  have final₁ : cr₁.reader.final = cr.reader.final := by
    rw [← ChunkReader.init_final cr, ready]
  rcases sized : cr₁.readMessage d (2 + d.overhead) with ⟨cr₂, e₂ | sizeBuf⟩ <;>
    rw [sized] at failed <;> dsimp only at failed
  · obtain ⟨rfl, found⟩ := Prod.mk.inj failed
    cases found
    rcases ChunkReader.readMessage_error sized with ⟨dry, shape⟩ | ⟨x, rfl⟩
    · rw [final₁] at dry shape
      exact .inl ⟨dry, (dry_error_in_context _ shape).imp_right
        fun ⟨eof, named⟩ => ⟨eof, named.imp_right .inr⟩⟩
    · exact .inr (.inl ⟨x, .inl (by simp)⟩)
  have final₂ : cr₂.reader.final = cr.reader.final := by
    rw [← final₁, ← ChunkReader.readMessage_final cr₁ d, sized]
  rw [if_neg (size_fits _)] at failed
  rcases paid : cr₂.readMessage d ((uint16 sizeBuf &&& payloadSizeMask) + d.overhead) with
    ⟨cr₃, e₃ | payloadBuf⟩ <;> rw [paid] at failed <;> dsimp only at failed
  · obtain ⟨rfl, found⟩ := Prod.mk.inj failed
    cases found
    rcases ChunkReader.readMessage_error paid with ⟨dry, shape⟩ | ⟨x, rfl⟩
    · rw [final₂] at dry shape
      refine .inl ⟨dry, ?_⟩
      rcases shape with ⟨eof, rfl | rfl⟩ | ⟨eof, rfl⟩ <;> simp [eof]
    · exact .inr (.inl ⟨x, .inr (by simp)⟩)
  · cases failed

/-- Every error `ReadChunk` returns names its cause: a dry inner reader, a block that does not
open, or a refused salt; its own `io.ErrShortBuffer` branch is never taken. -/
theorem chunkReader_errors_name_their_cause :
    ∀ (cr cr' : ChunkReader) (e : Err), cr.ReadChunk = (cr', .error e) →
      (cr'.reader = ⟨[], cr.reader.final⟩ ∧
        (cr.reader.final = .eof ∧ (e = .eof ∨ e = .unexpectedEOF) ∨
          cr.reader.final ≠ .eof ∧ (e = cr.reader.final ∨
            e = .wrap "failed to read salt" cr.reader.final ∨
            e = .wrap "failed to read payload size" cr.reader.final))) ∨
      (∃ x, e = .wrap "failed to read payload size" (.wrap "failed to decrypt" x) ∨
        e = .wrap "failed to decrypt" x) ∨
      ∃ x, e = .wrap "failed to create AEAD" x :=
  fun _ _ _ failed => ChunkReader.ReadChunk_error failed

theorem chunkReader_error_on_forged_length_block :
    (⟨⟨[0, 5, 9], .eof⟩, Cipher.tagging 0 1, some (Aead.tagging 1), [0]⟩ : ChunkReader).ReadChunk =
        (⟨⟨[], .eof⟩, Cipher.tagging 0 1, some (Aead.tagging 1), [1]⟩,
          .error (.wrap "failed to read payload size" (.wrap "failed to decrypt" (.external 0)))) ∧
      ((ByteStream.mk [] .eof = ⟨[], .eof⟩ ∧
        (Err.eof = .eof ∧
            (Err.wrap "failed to read payload size" (.wrap "failed to decrypt" (.external 0)) = .eof ∨
              Err.wrap "failed to read payload size" (.wrap "failed to decrypt" (.external 0)) =
                .unexpectedEOF) ∨
          Err.eof ≠ .eof ∧
            (Err.wrap "failed to read payload size" (.wrap "failed to decrypt" (.external 0)) = .eof ∨
              Err.wrap "failed to read payload size" (.wrap "failed to decrypt" (.external 0)) =
                .wrap "failed to read salt" .eof ∨
              Err.wrap "failed to read payload size" (.wrap "failed to decrypt" (.external 0)) =
                .wrap "failed to read payload size" .eof))) ∨
      (∃ x, Err.wrap "failed to read payload size" (.wrap "failed to decrypt" (.external 0)) =
          .wrap "failed to read payload size" (.wrap "failed to decrypt" x) ∨
        Err.wrap "failed to read payload size" (.wrap "failed to decrypt" (.external 0)) =
          .wrap "failed to decrypt" x) ∨
      ∃ x, Err.wrap "failed to read payload size" (.wrap "failed to decrypt" (.external 0)) =
        .wrap "failed to create AEAD" x) :=
  ⟨rfl, chunkReader_errors_name_their_cause
    ⟨⟨[0, 5, 9], .eof⟩, Cipher.tagging 0 1, some (Aead.tagging 1), [0]⟩
    ⟨⟨[], .eof⟩, Cipher.tagging 0 1, some (Aead.tagging 1), [1]⟩ _ rfl⟩

/-! ### A block that does not open does not stop the reader -/

section Unopened
variable {cr : ChunkReader} {d : Aead} {x : Err}

theorem ChunkReader.readMessage_unopened {sealed rest : List UInt8}
    (bytes : cr.reader.bytes = sealed ++ rest) (fails : d.decrypt cr.counter sealed = .error x) :
    cr.readMessage d sealed.length =
      (cr.moveTo rest (increment cr.counter), .error (.wrap "failed to decrypt" x)) := by
  unfold ChunkReader.readMessage
  rw [ByteStream.readFull_ok_iff.mpr ⟨rest, rfl, bytes, rfl⟩]
  simp only [fails]
  rfl

theorem ChunkReader.ReadChunk_unopened_size {sizeBlock rest : List UInt8} (set : cr.aead = some d)
    (bytes : cr.reader.bytes = sizeBlock ++ rest) (len : sizeBlock.length = 2 + d.overhead)
    (fails : d.decrypt cr.counter sizeBlock = .error x) :
    cr.ReadChunk = (cr.moveTo rest (increment cr.counter),
      .error (.wrap "failed to read payload size" (.wrap "failed to decrypt" x))) := by
  unfold ChunkReader.ReadChunk
  rw [ChunkReader.init_of_set set]
  dsimp only
  rw [← len, ChunkReader.readMessage_unopened bytes fails]
  simp

theorem ChunkReader.ReadChunk_unopened_payload {sizeBlock lenField payloadBlock rest : List UInt8}
    (set : cr.aead = some d) (bytes : cr.reader.bytes = sizeBlock ++ payloadBlock ++ rest)
    (size : d.decrypt cr.counter sizeBlock = .ok lenField) (two : lenField.length = 2)
    (len : payloadBlock.length = (uint16 lenField &&& payloadSizeMask) + d.overhead)
    (fails : d.decrypt (increment cr.counter) payloadBlock = .error x) :
    cr.ReadChunk = (cr.moveTo rest (increment (increment cr.counter)),
      .error (.wrap "failed to decrypt" x)) := by
  have sizeLen : sizeBlock.length = 2 + d.overhead := by
    have := d.decrypt_length _ _ _ size; omega
  unfold ChunkReader.ReadChunk
  rw [ChunkReader.init_of_set set]
  dsimp only
  rw [ChunkReader.readMessage_ok_iff.mpr ⟨sizeBlock, lenField, payloadBlock ++ rest, sizeLen,
    by rw [bytes, List.append_assoc], size, rfl, rfl⟩]
  dsimp only
  rw [uint16_append two, if_neg (size_fits _), ← len,
    ChunkReader.readMessage_unopened (by rfl) (by rwa [moveTo_counter]), moveTo_moveTo,
    moveTo_counter]
  simp

end Unopened

/-- A block that does not open is reported and skipped with the nonce moved on, and the next
`ReadChunk` reads on from the bytes after it. -/
theorem chunkReader_reads_on_past_blocks_that_fail_to_open :
    (∀ (cr : ChunkReader) (d : Aead) (sizeBlock rest : List UInt8) (x : Err),
      cr.aead = some d → cr.reader.bytes = sizeBlock ++ rest →
      sizeBlock.length = 2 + d.overhead → d.decrypt cr.counter sizeBlock = .error x →
      cr.ReadChunk = (cr.moveTo rest (increment cr.counter),
        .error (.wrap "failed to read payload size" (.wrap "failed to decrypt" x)))) ∧
    ∀ (cr : ChunkReader) (d : Aead) (sizeBlock lenField payloadBlock rest : List UInt8) (x : Err),
      cr.aead = some d → cr.reader.bytes = sizeBlock ++ payloadBlock ++ rest →
      d.decrypt cr.counter sizeBlock = .ok lenField → lenField.length = 2 →
      payloadBlock.length = (uint16 lenField &&& payloadSizeMask) + d.overhead →
      d.decrypt (increment cr.counter) payloadBlock = .error x →
      cr.ReadChunk = (cr.moveTo rest (increment (increment cr.counter)),
        .error (.wrap "failed to decrypt" x)) :=
  ⟨fun _ _ _ _ _ set bytes len fails => ChunkReader.ReadChunk_unopened_size set bytes len fails,
   fun _ _ _ _ _ _ _ set bytes size two len fails =>
    ChunkReader.ReadChunk_unopened_payload set bytes size two len fails⟩

theorem chunkReader_reads_on_after_forged_length_block :
    (⟨⟨[0, 1, 9, 0, 1, 1, 7, 2], .eof⟩, Cipher.tagging 0 1, some (Aead.tagging 1), [0]⟩ :
        ChunkReader).ReadChunk =
      ((⟨⟨[0, 1, 9, 0, 1, 1, 7, 2], .eof⟩, Cipher.tagging 0 1, some (Aead.tagging 1), [0]⟩ :
          ChunkReader).moveTo [0, 1, 1, 7, 2] (increment [0]),
        .error (.wrap "failed to read payload size" (.wrap "failed to decrypt" (.external 0)))) ∧
    ((⟨⟨[0, 1, 9, 0, 1, 1, 7, 2], .eof⟩, Cipher.tagging 0 1, some (Aead.tagging 1), [0]⟩ :
        ChunkReader).moveTo [0, 1, 1, 7, 2] (increment [0])).ReadChunk.2 = .ok [7] ∧
    (⟨⟨[0, 1, 0, 7, 9], .eof⟩, Cipher.tagging 0 1, some (Aead.tagging 1), [0]⟩ :
        ChunkReader).ReadChunk =
      ((⟨⟨[0, 1, 0, 7, 9], .eof⟩, Cipher.tagging 0 1, some (Aead.tagging 1), [0]⟩ :
          ChunkReader).moveTo [] (increment (increment [0])),
        .error (.wrap "failed to decrypt" (.external 0))) :=
  ⟨chunkReader_reads_on_past_blocks_that_fail_to_open.1 _ (Aead.tagging 1) [0, 1, 9]
      [0, 1, 1, 7, 2] (.external 0) rfl rfl rfl rfl,
    rfl,
    chunkReader_reads_on_past_blocks_that_fail_to_open.2 _ (Aead.tagging 1) [0, 1, 0] [0, 1]
      [7, 9] [] (.external 0) rfl rfl rfl rfl rfl rfl⟩

/-! ### A dry inner reader stays dry -/

section Dry
variable {cr : ChunkReader}

theorem ChunkReader.init_dry (dry : cr.reader.bytes = []) : cr.init.1.reader = cr.reader := by
  rcases cr.init_reader with same | same <;> rw [same]
  exact ByteStream.readFull_dry dry _

theorem ChunkReader.ReadChunk_dry (dry : cr.reader.bytes = []) :
    cr.ReadChunk.1.reader = cr.reader ∧ ∃ e, cr.ReadChunk.2 = .error e := by
  have kept := ChunkReader.init_dry dry
  unfold ChunkReader.ReadChunk
  rcases ready : cr.init with ⟨cr₁, e₁ | d⟩ <;> rw [ready] at kept
  · exact ⟨kept, _, rfl⟩
  dsimp only
  have dry₁ : cr₁.reader.bytes = [] := by rw [kept, dry]
  obtain ⟨x, fails⟩ := ByteStream.readFull_dry_error dry₁ (Nat.add_pos_left two_pos d.overhead)
  have same := ByteStream.readFull_dry dry₁ (2 + d.overhead)
  unfold ChunkReader.readMessage
  rcases filled : cr₁.reader.readFull (2 + d.overhead) with ⟨x' | sealed, r⟩ <;>
    rw [filled] at fails same
  · exact ⟨same.trans kept, _, rfl⟩
  · cases fails

theorem readChunks_of_dry (dry : cr.reader.bytes = []) (m : Nat) :
    ∀ result ∈ readChunks ChunkReader.ReadChunk m cr, ∃ e, result = .error e := by
  induction m generalizing cr with
  | zero => intro result mem; cases mem
  | succ m ih =>
    obtain ⟨kept, e, failed⟩ := ChunkReader.ReadChunk_dry dry
    intro result mem
    rcases List.mem_cons.mp mem with rfl | later
    · exact ⟨e, failed⟩
    · exact @ih cr.ReadChunk.1 (by rw [kept, dry]) result later

/-- Once the inner reader holds no more bytes, every one of any number of `ReadChunk`
calls fails, so no chunk follows a stream that ran out, whether the reader was set up or
not, and whatever the cipher does with an empty salt. -/
theorem chunkReader_fails_for_good_once_dry :
    ∀ cr : ChunkReader, cr.reader.bytes = [] → ∀ m : Nat,
      ∀ result ∈ readChunks ChunkReader.ReadChunk m cr, ∃ e, result = .error e :=
  fun _ dry m => readChunks_of_dry dry m

theorem chunkReader_fails_thrice_on_empty_stream :
    (newChunkReader ⟨[], .external 7⟩ (Cipher.tagging 0 1)).reader.bytes = [] ∧
      ∀ result ∈ readChunks ChunkReader.ReadChunk 3 (newChunkReader ⟨[], .external 7⟩
        (Cipher.tagging 0 1)), ∃ e, result = .error e :=
  ⟨rfl, chunkReader_fails_for_good_once_dry _ rfl 3⟩

end Dry

end Shadowsocks
