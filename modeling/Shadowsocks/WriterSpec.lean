import Shadowsocks.Writer
import Shadowsocks.Chunks

/-!
What one pass and one whole loop of `readFrom` do when the source is a `bytes.Reader` and
the inner writer takes everything. The loop emits the chunks of the pending bytes
followed by the input: all of them in the normal and flush modes, only the full ones in
the lazy mode. `emitChunks` is that effect, stated once; callers cite the loop lemmas.
-/

namespace Shadowsocks

def Writer.withPending (sw : Writer) (q : List UInt8) : Writer := { sw with pending := q }

/-- Emit `cs`, one inner write each: the first chunk from `start`, the others past the
salt. -/
def Writer.emitChunks (sw : Writer) (a : Aead) (start : Nat) : List (List UInt8) → Writer
  | [] => sw
  | c :: cs => ((sw.withPending c).writeChunk a start).1.emitChunks a sw.ssCipher.saltSize cs

section Fields
variable (sw : Writer) (a : Aead) (start : Nat) (cs : List (List UInt8)) (q : List UInt8)

@[simp] theorem withPending_pending : (sw.withPending q).pending = q := rfl
@[simp] theorem withPending_ssCipher : (sw.withPending q).ssCipher = sw.ssCipher := rfl
@[simp] theorem withPending_writer : (sw.withPending q).writer = sw.writer := rfl
@[simp] theorem withPending_rand : (sw.withPending q).rand = sw.rand := rfl
@[simp] theorem withPending_byteWrapper : (sw.withPending q).byteWrapper = sw.byteWrapper := rfl
@[simp] theorem withPending_flushDone : (sw.withPending q).flushDone = sw.flushDone := rfl
@[simp] theorem withPending_salt : (sw.withPending q).salt = sw.salt := rfl
@[simp] theorem withPending_aead : (sw.withPending q).aead = sw.aead := rfl
@[simp] theorem withPending_counter : (sw.withPending q).counter = sw.counter := rfl
@[simp] theorem withPending_withPending (q' : List UInt8) :
    (sw.withPending q).withPending q' = sw.withPending q' := rfl
@[simp] theorem withPending_self : sw.withPending sw.pending = sw := rfl
theorem withPending_of_eq {q : List UInt8} (same : sw.pending = q) : sw.withPending q = sw := by
  subst same; rfl
theorem buffer_eq (data : List UInt8) : sw.buffer data = sw.withPending (sw.pending ++ data) :=
  rfl

@[simp] theorem writeChunk_ssCipher : (sw.writeChunk a start).1.ssCipher = sw.ssCipher := rfl
@[simp] theorem writeChunk_rand : (sw.writeChunk a start).1.rand = sw.rand := rfl
@[simp] theorem writeChunk_byteWrapper :
    (sw.writeChunk a start).1.byteWrapper = sw.byteWrapper := rfl
@[simp] theorem writeChunk_flushDone : (sw.writeChunk a start).1.flushDone = sw.flushDone := rfl
@[simp] theorem writeChunk_pending : (sw.writeChunk a start).1.pending = [] := rfl
@[simp] theorem writeChunk_salt : (sw.writeChunk a start).1.salt = sw.salt := rfl
@[simp] theorem writeChunk_aead : (sw.writeChunk a start).1.aead = sw.aead := rfl
@[simp] theorem writeChunk_counter :
    (sw.writeChunk a start).1.counter = increment (increment sw.counter) := rfl
@[simp] theorem writeChunk_reply : (sw.writeChunk a start).1.writer.reply = sw.writer.reply := rfl

theorem writeChunk_err (accepts : sw.writer.AcceptsAll) : (sw.writeChunk a start).2 = none := by
  simp [Writer.writeChunk, Sink.write_of_acceptsAll accepts]

theorem writeChunk_writes (accepts : sw.writer.AcceptsAll) :
    (sw.writeChunk a start).1.writer.writes = sw.writer.writes ++ [sw.chunkBytes a start] := by
  simp [Writer.writeChunk, Sink.write_of_acceptsAll accepts]

@[simp] theorem emitChunks_nil : sw.emitChunks a start [] = sw := rfl
theorem emitChunks_cons (c : List UInt8) :
    sw.emitChunks a start (c :: cs) =
      ((sw.withPending c).writeChunk a start).1.emitChunks a sw.ssCipher.saltSize cs := rfl

@[simp] theorem emitChunks_ssCipher : (sw.emitChunks a start cs).ssCipher = sw.ssCipher := by
  induction cs generalizing sw start <;> simp [Writer.emitChunks, *]
@[simp] theorem emitChunks_rand : (sw.emitChunks a start cs).rand = sw.rand := by
  induction cs generalizing sw start <;> simp [Writer.emitChunks, *]
@[simp] theorem emitChunks_byteWrapper :
    (sw.emitChunks a start cs).byteWrapper = sw.byteWrapper := by
  induction cs generalizing sw start <;> simp [Writer.emitChunks, *]
@[simp] theorem emitChunks_flushDone : (sw.emitChunks a start cs).flushDone = sw.flushDone := by
  induction cs generalizing sw start <;> simp [Writer.emitChunks, *]
@[simp] theorem emitChunks_salt : (sw.emitChunks a start cs).salt = sw.salt := by
  induction cs generalizing sw start <;> simp [Writer.emitChunks, *]
@[simp] theorem emitChunks_aead : (sw.emitChunks a start cs).aead = sw.aead := by
  induction cs generalizing sw start <;> simp [Writer.emitChunks, *]
@[simp] theorem emitChunks_reply :
    (sw.emitChunks a start cs).writer.reply = sw.writer.reply := by
  induction cs generalizing sw start <;> simp [Writer.emitChunks, *]

end Fields

theorem Sink.AcceptsAll.writeChunk {sw : Writer} (accepts : sw.writer.AcceptsAll) (a : Aead)
    (start : Nat) : (sw.writeChunk a start).1.writer.AcceptsAll :=
  fun n => by simpa using accepts n

theorem Sink.AcceptsAll.writeChunk_withPending {sw : Writer} (accepts : sw.writer.AcceptsAll)
    (q : List UInt8) (a : Aead) (start : Nat) :
    ((sw.withPending q).writeChunk a start).1.writer.AcceptsAll :=
  have filled : (sw.withPending q).writer.AcceptsAll := accepts
  filled.writeChunk a start

theorem Sink.AcceptsAll.emitChunks {sw : Writer} (accepts : sw.writer.AcceptsAll) (a : Aead)
    (start : Nat) (cs : List (List UInt8)) : (sw.emitChunks a start cs).writer.AcceptsAll :=
  fun n => by simpa using accepts n

section Loop
variable {a : Aead}

theorem step_bytes_nil (mode : Mode) (sw : Writer) (start written : Nat) :
    Loop.step bytesRead mode a ⟨sw, [], start, written⟩ =
      if sw.pending.length = payloadSizeMask ∨ (mode ≠ .lazy ∧ 0 < sw.pending.length) then
        (⟨(sw.writeChunk a start).1, [], sw.ssCipher.saltSize, written⟩,
          (sw.writeChunk a start).2)
      else (⟨sw, [], start, written⟩, some .eof) := by
  simp only [Loop.step, bytesRead, if_true, buffer_eq, List.append_nil, withPending_self,
    List.length_nil, Nat.add_zero]

theorem step_bytes_cons (mode : Mode) (sw : Writer) {rem : List UInt8} (nonempty : rem ≠ [])
    (start written : Nat) :
    Loop.step bytesRead mode a ⟨sw, rem, start, written⟩ =
      let fill := rem.take (payloadSizeMask - sw.pending.length)
      let sw' := sw.withPending (sw.pending ++ fill)
      if sw'.pending.length = payloadSizeMask ∨ (mode ≠ .lazy ∧ 0 < sw'.pending.length) then
        (⟨(sw'.writeChunk a start).1, rem.drop (payloadSizeMask - sw.pending.length),
          sw.ssCipher.saltSize, written + fill.length⟩, (sw'.writeChunk a start).2)
      else (⟨sw', rem.drop (payloadSizeMask - sw.pending.length), start,
        written + fill.length⟩, none) := by
  simp only [Loop.step, bytesRead, if_neg nonempty, buffer_eq, withPending_ssCipher]

theorem run_succ_of_none {σ : Type} {read : σ → Nat → (List UInt8 × Option Err) × σ}
    {mode : Mode} {l l' : Loop σ} (fuel : Nat) (pass : l.step read mode a = (l', none)) :
    Loop.run read mode a (fuel + 1) l = Loop.run read mode a fuel l' := by
  rw [Loop.run, pass]

theorem run_succ_of_step_error {σ : Type} {read : σ → Nat → (List UInt8 × Option Err) × σ}
    {mode : Mode} {l l' : Loop σ} {e : Err} (fuel : Nat)
    (pass : l.step read mode a = (l', some e)) :
    Loop.run read mode a (fuel + 1) l =
      some (l', if e = .eof then none else some (.wrap "Failed to read payload" e)) := by
  rw [Loop.run, pass]
  cases e <;> rfl

theorem run_bytes_idle (mode : Mode) {sw : Writer} (idle : sw.pending = [])
    (fuel start written : Nat) :
    Loop.run bytesRead mode a (fuel + 1) ⟨sw, [], start, written⟩ =
      some (⟨sw, [], start, written⟩, none) := by
  have := payloadSizeMask_pos
  rw [Loop.run, step_bytes_nil, if_neg (by simp [idle]; omega)]

theorem run_bytes_sends {mode : Mode} {sw : Writer} {rem : List UInt8} (nonempty : rem ≠ [])
    (accepts : sw.writer.AcceptsAll) (fuel start written : Nat)
    (sends : (sw.pending ++ rem.take (payloadSizeMask - sw.pending.length)).length =
        payloadSizeMask ∨
      (mode ≠ .lazy ∧ 0 < (sw.pending ++ rem.take (payloadSizeMask - sw.pending.length)).length)) :
    Loop.run bytesRead mode a (fuel + 1) ⟨sw, rem, start, written⟩ =
      Loop.run bytesRead mode a fuel
        ⟨((sw.withPending (sw.pending ++ rem.take (payloadSizeMask - sw.pending.length))).writeChunk
            a start).1, rem.drop (payloadSizeMask - sw.pending.length), sw.ssCipher.saltSize,
          written + (rem.take (payloadSizeMask - sw.pending.length)).length⟩ := by
  have pass := step_bytes_cons (a := a) mode sw nonempty start written
  simp only [withPending_pending, if_pos sends, writeChunk_err (sw.withPending (sw.pending ++
    rem.take (payloadSizeMask - sw.pending.length))) a start accepts] at pass
  exact run_succ_of_none fuel pass

theorem fill_length_add (rem : List UInt8) (room : Nat) :
    (rem.take room).length + (rem.drop room).length = rem.length := by
  simp only [List.length_take, List.length_drop]; omega

theorem run_bytes_lazy (fuel : Nat) (sw : Writer) (rem : List UInt8) (start written : Nat)
    (accepts : sw.writer.AcceptsAll) (room : sw.pending.length < payloadSizeMask)
    (enough : rem.length + 1 ≤ fuel) :
    ∃ start', Loop.run bytesRead .lazy a fuel ⟨sw, rem, start, written⟩ =
      some (⟨(sw.emitChunks a start (fullChunks (sw.pending ++ rem)).1).withPending
        (fullChunks (sw.pending ++ rem)).2, [], start', written + rem.length⟩, none) := by
  induction fuel generalizing sw rem start written with
  | zero => omega
  | succ fuel ih =>
    by_cases exhausted : rem = []
    · subst exhausted
      refine ⟨start, ?_⟩
      rw [Loop.run, step_bytes_nil, if_neg (by simp; omega)]
      simp [fullChunks_of_lt room]
    · have taken := fill_length_add rem (payloadSizeMask - sw.pending.length)
      have progress : (rem.drop (payloadSizeMask - sw.pending.length)).length < rem.length := by
        have : rem.length ≠ 0 := by simpa using exhausted
        simp only [List.length_drop]; omega
      by_cases full : (sw.pending ++ rem.take (payloadSizeMask - sw.pending.length)).length =
          payloadSizeMask
      · have long : payloadSizeMask ≤ (sw.pending ++ rem).length := by
          simp only [List.length_append, List.length_take] at full ⊢; omega
        obtain ⟨start', hrun⟩ := ih ((sw.withPending (sw.pending ++
            rem.take (payloadSizeMask - sw.pending.length))).writeChunk a start).1
          (rem.drop (payloadSizeMask - sw.pending.length)) sw.ssCipher.saltSize
          (written + (rem.take (payloadSizeMask - sw.pending.length)).length)
          (accepts.writeChunk_withPending _ a start) (by simp [payloadSizeMask_pos]) (by omega)
        refine ⟨start', ?_⟩
        rw [run_bytes_sends exhausted accepts fuel start written (.inl full), hrun,
          fullChunks_of_le long, take_append_fill room.le, drop_append_fill room.le]
        simp only [writeChunk_pending, List.nil_append, emitChunks_cons, Nat.add_assoc, taken,
          writeChunk_ssCipher, withPending_ssCipher]
      · have short : (sw.pending ++ rem).length < payloadSizeMask := by
          simp only [List.length_append, List.length_take] at full ⊢; omega
        have whole : rem.take (payloadSizeMask - sw.pending.length) = rem :=
          List.take_of_length_le (by simp only [List.length_append] at short; omega)
        have gone : rem.drop (payloadSizeMask - sw.pending.length) = [] :=
          List.drop_of_length_le (by simp only [List.length_append] at short; omega)
        have pass := step_bytes_cons (a := a) .lazy sw exhausted start written
        simp only [withPending_pending, whole, gone, short.ne, ne_eq, not_true_eq_false,
          false_and, or_self, if_false] at pass
        obtain ⟨start', hrun⟩ := ih (sw.withPending (sw.pending ++ rem)) [] start
          (written + rem.length) accepts short (by simp only [List.length_nil]; omega)
        refine ⟨start', ?_⟩
        rw [run_succ_of_none fuel pass, hrun]
        simp [fullChunks_of_lt short]

theorem run_bytes_flushing (mode : Mode) (flushes : mode ≠ .lazy) (fuel : Nat) (sw : Writer)
    (rem : List UInt8) (start written : Nat) (accepts : sw.writer.AcceptsAll)
    (room : sw.pending.length < payloadSizeMask) (enough : rem.length + 2 ≤ fuel) :
    ∃ start', Loop.run bytesRead mode a fuel ⟨sw, rem, start, written⟩ =
      some (⟨(sw.emitChunks a start (chunks (sw.pending ++ rem))).withPending [], [], start',
        written + rem.length⟩, none) := by
  induction fuel generalizing sw rem start written with
  | zero => omega
  | succ fuel ih =>
    by_cases exhausted : rem = []
    · subst exhausted
      by_cases idle : sw.pending = []
      · refine ⟨start, ?_⟩
        rw [run_bytes_idle mode idle]
        simp [idle, withPending_of_eq sw idle]
      · have pos : 0 < sw.pending.length := List.length_pos.mpr idle
        have pass := step_bytes_nil (a := a) mode sw start written
        simp only [ne_eq, flushes, not_false_eq_true, true_and, pos, or_true, if_true,
          writeChunk_err sw a start accepts] at pass
        obtain ⟨fuel, rfl⟩ : ∃ f, fuel = f + 1 := ⟨fuel - 1, by simp at enough; omega⟩
        refine ⟨sw.ssCipher.saltSize, ?_⟩
        rw [run_succ_of_none _ pass, run_bytes_idle mode (writeChunk_pending sw a start),
          List.append_nil, chunks_of_length_le idle room.le, emitChunks_cons, emitChunks_nil,
          withPending_self, withPending_of_eq _ (writeChunk_pending sw a start)]
        rfl
    · have taken := fill_length_add rem (payloadSizeMask - sw.pending.length)
      have progress : (rem.drop (payloadSizeMask - sw.pending.length)).length < rem.length := by
        have : rem.length ≠ 0 := by simpa using exhausted
        simp only [List.length_drop]; omega
      have pos : 0 < (sw.pending ++ rem.take (payloadSizeMask - sw.pending.length)).length := by
        have : rem.length ≠ 0 := by simpa using exhausted
        simp only [List.length_append, List.length_take]; omega
      obtain ⟨start', hrun⟩ := ih ((sw.withPending (sw.pending ++
          rem.take (payloadSizeMask - sw.pending.length))).writeChunk a start).1
        (rem.drop (payloadSizeMask - sw.pending.length)) sw.ssCipher.saltSize
        (written + (rem.take (payloadSizeMask - sw.pending.length)).length)
        (accepts.writeChunk_withPending _ a start) (by simp [payloadSizeMask_pos]) (by omega)
      refine ⟨start', ?_⟩
      have nonempty : sw.pending ++ rem ≠ [] := by simp [exhausted]
      rw [run_bytes_sends exhausted accepts fuel start written (.inr ⟨flushes, pos⟩), hrun,
        chunks_of_ne_nil nonempty, take_append_fill room.le, drop_append_fill room.le]
      simp only [writeChunk_pending, List.nil_append, emitChunks_cons, Nat.add_assoc, taken,
        writeChunk_ssCipher, withPending_ssCipher]

end Loop

end Shadowsocks
