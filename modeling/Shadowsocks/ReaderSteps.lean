import Shadowsocks.WireFormat
import Shadowsocks.Converter

/-!
One `ReadChunk` of shadowsocks/stream.go's `chunkReader` on a stream of frames cut after
some byte, the way a peer closing mid-stream leaves it: a whole frame gives its payload
and moves the nonce on by two; a cut inside a frame gives `io.ErrUnexpectedEOF`; a
drained reader gives `io.EOF`; a fresh one first reads the salt. Every chunk read takes
at least two more bytes of the inner reader than the chunk has, so `WriteTo` on the
reader ends.
-/

namespace Shadowsocks

/-- `d` opens what `a` sealed under the same nonce, with the same sizes. -/
structure Opens (d a : Aead) : Prop where
  nonceSize : d.nonceSize = a.nonceSize
  overhead : d.overhead = a.overhead
  decrypt : ∀ nonce plaintext, d.decrypt nonce (a.encrypt nonce plaintext) = .ok plaintext

theorem Cipher.Matched.opens {c : Cipher} {salt : List UInt8} {a : Aead} (matched : c.Matched)
    (derived : c.encrypter salt = .ok a) : ∃ d, c.decrypter salt = .ok d ∧ Opens d a := by
  obtain ⟨d, opened, nonceSize, overhead, decrypt⟩ := matched salt a derived
  exact ⟨d, opened, nonceSize, overhead, decrypt⟩

theorem ByteStream.readFull_take_append (x rest : List UInt8) (k : Nat) :
    (⟨(x ++ rest).take k, .eof⟩ : ByteStream).readFull x.length =
      if x.length ≤ k then (.ok x, ⟨rest.take (k - x.length), .eof⟩)
      else (.error (if k = 0 then .eof else .unexpectedEOF), ⟨[], .eof⟩) := by
  rw [List.take_append_eq_append_take]
  split
  · next whole =>
    rw [List.take_of_length_le whole, ByteStream.readFull_of_le (by simp)]
    simp
  · next short =>
    have nothing : k - x.length = 0 := by omega
    rw [nothing, List.take_zero, List.append_nil,
      ByteStream.readFull_of_lt (by simp only [List.length_take]; omega)]
    have present : x ≠ [] := fun empty => by simp [empty] at short
    by_cases started : k = 0 <;> simp [started, present]

theorem ByteStream.readFull_consumes {r r' : ByteStream} {n : Nat} {b : List UInt8}
    (filled : r.readFull n = (.ok b, r')) : r'.bytes.length + n ≤ r.bytes.length := by
  unfold ByteStream.readFull at filled
  split at filled
  · next enough =>
    obtain ⟨-, rfl⟩ := Prod.mk.inj filled
    simp only [List.length_drop]
    omega
  · split at filled <;> cases filled

section Steps
variable {cr : ChunkReader} {a d : Aead}

theorem ChunkReader.init_of_set (set : cr.aead = some d) : cr.init = (cr, .ok d) := by
  simp [ChunkReader.init, set]

theorem ChunkReader.ReadChunk_of_init_error {cr' : ChunkReader} {e : Err}
    (failed : cr.init = (cr', .error e)) : cr.ReadChunk = (cr', .error e) := by
  simp [ChunkReader.ReadChunk, failed]

theorem ChunkReader.ReadChunk_of_init_ok {cr' : ChunkReader}
    (ready : cr.init = (cr', .ok d)) (set : cr'.aead = some d) : cr.ReadChunk = cr'.ReadChunk := by
  unfold ChunkReader.ReadChunk
  rw [ready, ChunkReader.init_of_set set]

theorem ChunkReader.init_fresh {salt rest : List UInt8} {k : Nat}
    (unset : cr.aead = none) (opened : cr.ssCipher.decrypter salt = .ok d)
    (saltLen : salt.length = cr.ssCipher.saltSize)
    (reader : cr.reader = ⟨(salt ++ rest).take k, .eof⟩) :
    cr.init = if salt.length ≤ k then
        ({ cr with
            reader := ⟨rest.take (k - salt.length), .eof⟩, aead := some d,
            counter := List.replicate d.nonceSize 0 }, .ok d)
      else ({ cr with reader := ⟨[], .eof⟩ }, .error (if k = 0 then .eof else .unexpectedEOF)) := by
  unfold ChunkReader.init
  rw [unset]
  dsimp only
  rw [← saltLen, reader, ByteStream.readFull_take_append]
  by_cases whole : salt.length ≤ k
  · rw [if_pos whole, if_pos whole]
    simp only [opened]
  · rw [if_neg whole, if_neg whole]
    by_cases started : k = 0 <;> simp [started]

theorem ChunkReader.readMessage_sealed (cr : ChunkReader) (p rest : List UInt8) {k : Nat}
    (opens : Opens d a) (reader : cr.reader = ⟨(a.encrypt cr.counter p ++ rest).take k, .eof⟩)
    (whole : p.length + a.overhead ≤ k) :
    cr.readMessage d (p.length + a.overhead) =
      ({ cr with
          reader := ⟨rest.take (k - (p.length + a.overhead)), .eof⟩,
          counter := increment cr.counter },
        .ok (p ++ (a.encrypt cr.counter p).drop p.length)) := by
  have sealed := a.encrypt_length cr.counter p
  unfold ChunkReader.readMessage
  rw [reader, ← sealed, ByteStream.readFull_take_append, if_pos (by rw [sealed]; exact whole)]
  simp only [opens.decrypt]

theorem ChunkReader.readMessage_cut (cr : ChunkReader) (x rest : List UInt8) {k : Nat}
    (reader : cr.reader = ⟨(x ++ rest).take k, .eof⟩) (short : k < x.length) :
    cr.readMessage d x.length =
      ({ cr with reader := ⟨[], .eof⟩ }, .error (if k = 0 then .eof else .unexpectedEOF)) := by
  unfold ChunkReader.readMessage
  rw [reader, ByteStream.readFull_take_append, if_neg (by omega)]

theorem ChunkReader.ReadChunk_drained (drained : cr.reader = ⟨[], .eof⟩)
    (salted : cr.aead = none → cr.ssCipher.saltSize ≠ 0) : cr.ReadChunk = (cr, .error .eof) := by
  obtain ⟨reader, ssCipher, aead, counter⟩ := cr
  dsimp only at drained salted
  subst drained
  cases aead with
  | none =>
    have := salted rfl
    simp [ChunkReader.ReadChunk, ChunkReader.init, ByteStream.readFull, this]
  | some d =>
    simp [ChunkReader.ReadChunk, ChunkReader.init, ChunkReader.readMessage, ByteStream.readFull]

end Steps

section Frame
variable {cr : ChunkReader} {a d : Aead} {i k : Nat} {c rest : List UInt8}

theorem size_of_sealed (valid : ValidChunk c) (tail : List UInt8) :
    uint16 (putUint16 c.length ++ tail) &&& payloadSizeMask = c.length := by
  have fits := valid.2
  unfold payloadSizeMask at fits
  rw [uint16_putUint16 _ (by omega), land_payloadSizeMask]
  omega

theorem ChunkReader.ReadChunk_whole_frame (set : cr.aead = some d) (opens : Opens d a)
    (counter : cr.counter = leBytes a.nonceSize (2 * i))
    (reader : cr.reader = ⟨(frame a i c ++ rest).take k, .eof⟩) (valid : ValidChunk c)
    (whole : (frame a i c).length ≤ k) :
    cr.ReadChunk = ({ cr with
      reader := ⟨rest.take (k - (frame a i c).length), .eof⟩,
      counter := leBytes a.nonceSize (2 * (i + 1)) }, .ok c) := by
  rw [length_frame] at whole ⊢
  have first := cr.readMessage_sealed (putUint16 c.length)
    (a.encrypt (leBytes a.nonceSize (2 * i + 1)) c ++ rest) opens
    (by rw [reader, counter, frame, List.append_assoc]) (by rw [length_putUint16]; omega)
  rw [length_putUint16] at first
  have second := ChunkReader.readMessage_sealed { cr with
      reader := ⟨(a.encrypt (leBytes a.nonceSize (2 * i + 1)) c ++ rest).take
        (k - (2 + a.overhead)), .eof⟩,
      counter := increment cr.counter } c rest (k := k - (2 + a.overhead)) opens
    (by simp only [counter, increment_leBytes]) (by omega)
  have fits := valid.2
  unfold payloadSizeMask at fits
  unfold ChunkReader.ReadChunk
  rw [ChunkReader.init_of_set set]
  dsimp only
  rw [opens.overhead, first]
  dsimp only
  rw [size_of_sealed valid, if_neg (by unfold payloadSizeMask; omega), second]
  have gap : k - (2 + a.overhead) - (c.length + a.overhead) =
      k - (c.length + (2 + 2 * a.overhead)) := by omega
  simp only [List.take_left', counter, increment_leBytes, gap,
    show 2 * i + 1 + 1 = 2 * (i + 1) by omega]

theorem ChunkReader.ReadChunk_inside_frame (set : cr.aead = some d) (opens : Opens d a)
    (counter : cr.counter = leBytes a.nonceSize (2 * i))
    (reader : cr.reader = ⟨(frame a i c ++ rest).take k, .eof⟩) (valid : ValidChunk c)
    (started : 0 < k) (short : k < (frame a i c).length) :
    ∃ counter', cr.ReadChunk =
      ({ cr with reader := ⟨[], .eof⟩, counter := counter' }, .error .unexpectedEOF) := by
  rw [length_frame] at short
  have fits := valid.2
  unfold payloadSizeMask at fits
  unfold ChunkReader.ReadChunk
  rw [ChunkReader.init_of_set set]
  dsimp only
  rw [opens.overhead]
  by_cases sized : 2 + a.overhead ≤ k
  · have first := cr.readMessage_sealed (putUint16 c.length)
      (a.encrypt (leBytes a.nonceSize (2 * i + 1)) c ++ rest) opens
      (by rw [reader, counter, frame, List.append_assoc]) (by rw [length_putUint16]; omega)
    rw [length_putUint16] at first
    have second := ChunkReader.readMessage_cut (d := d) { cr with
        reader := ⟨(a.encrypt (leBytes a.nonceSize (2 * i + 1)) c ++ rest).take
          (k - (2 + a.overhead)), .eof⟩,
        counter := increment cr.counter } (a.encrypt (leBytes a.nonceSize (2 * i + 1)) c) rest
      rfl (by rw [a.encrypt_length]; omega)
    rw [a.encrypt_length] at second
    rw [first]
    dsimp only
    rw [size_of_sealed valid, if_neg (by unfold payloadSizeMask; omega), second]
    refine ⟨increment cr.counter, ?_⟩
    by_cases nothing : k - (2 + a.overhead) = 0 <;> simp [nothing]
  · have first := ChunkReader.readMessage_cut (d := d) cr
      (a.encrypt (leBytes a.nonceSize (2 * i)) (putUint16 c.length))
      (a.encrypt (leBytes a.nonceSize (2 * i + 1)) c ++ rest)
      (by rw [reader, frame, List.append_assoc]) (by rw [a.encrypt_length, length_putUint16]; omega)
    rw [a.encrypt_length, length_putUint16] at first
    rw [first, if_neg (by omega)]
    exact ⟨cr.counter, rfl⟩

end Frame

/-! ### Every chunk takes bytes -/

section Consumes
variable {cr cr' : ChunkReader} {d : Aead}

theorem ChunkReader.init_ok (ready : cr.init = (cr', .ok d)) :
    cr'.reader.bytes.length ≤ cr.reader.bytes.length ∧ cr'.aead = some d := by
  unfold ChunkReader.init at ready
  rcases set : cr.aead with _ | a <;> rw [set] at ready <;> dsimp only at ready
  · rcases read : cr.reader.readFull cr.ssCipher.saltSize with ⟨e | salt, r⟩ <;>
      rw [read] at ready <;> dsimp only at ready
    · cases ready
    · rcases opened : cr.ssCipher.decrypter salt with e | a <;> rw [opened] at ready <;>
        dsimp only at ready
      · cases ready
      · obtain ⟨rfl, found⟩ := Prod.mk.inj ready
        cases found
        have := ByteStream.readFull_consumes read
        exact ⟨by dsimp only; omega, rfl⟩
  · obtain ⟨rfl, found⟩ := Prod.mk.inj ready
    cases found
    exact ⟨Nat.le_refl _, set⟩

theorem ChunkReader.readMessage_ok {n : Nat} {b : List UInt8}
    (read : cr.readMessage d n = (cr', .ok b)) :
    cr'.reader.bytes.length + n ≤ cr.reader.bytes.length := by
  unfold ChunkReader.readMessage at read
  rcases filled : cr.reader.readFull n with ⟨e | sealed, r⟩ <;> rw [filled] at read <;>
    dsimp only at read
  · cases read
  · rcases opened : d.decrypt cr.counter sealed with e | p <;> rw [opened] at read <;>
      dsimp only at read
    · cases read
    · obtain ⟨rfl, -⟩ := Prod.mk.inj read
      exact ByteStream.readFull_consumes filled

theorem ChunkReader.ReadChunk_consumes {p : List UInt8} (read : cr.ReadChunk = (cr', .ok p)) :
    cr'.reader.bytes.length + p.length + 2 ≤ cr.reader.bytes.length := by
  unfold ChunkReader.ReadChunk at read
  rcases ready : cr.init with ⟨cr₁, e | d⟩ <;> rw [ready] at read <;> dsimp only at read
  · cases read
  rcases sized : cr₁.readMessage d (2 + d.overhead) with ⟨cr₂, e | sizeBuf⟩ <;>
    rw [sized] at read <;> dsimp only at read
  · cases read
  split at read
  · cases read
  rcases paid : cr₂.readMessage d ((uint16 sizeBuf &&& payloadSizeMask) + d.overhead) with
    ⟨cr₃, e | buf⟩ <;> rw [paid] at read <;> dsimp only at read
  · cases read
  obtain ⟨rfl, found⟩ := Prod.mk.inj read
  cases found
  have := (ChunkReader.init_ok ready).1
  have := ChunkReader.readMessage_ok sized
  have := ChunkReader.readMessage_ok paid
  have := List.length_take_le (uint16 sizeBuf &&& payloadSizeMask) buf
  omega

end Consumes

theorem call_isSome_reader (c : Converter ChunkReader) (call : ReaderCall)
    (progresses : ∀ w, call = .writeTo w → w.Progresses) :
    (c.call ChunkReader.ReadChunk Converter.budget call).isSome := by
  cases call with
  | read n => rfl
  | writeTo w =>
    refine Option.isSome_map'.trans (writeTo_isSome_of_measure (fun cr => cr.reader.bytes.length)
      (fun _ _ _ read => ?_) (progresses w rfl) ?_)
    · have := ChunkReader.ReadChunk_consumes read
      dsimp only
      omega
    · unfold Converter.budget
      dsimp only
      omega

end Shadowsocks
