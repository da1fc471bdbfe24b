import Shadowsocks.History

/-!
The chunking reference model of the writer, stated in the words of its contract rather
than its loop: `LazyWrite` sends the full chunks of the pending bytes followed by its
slice and keeps the rest, `Write` sends every chunk, `Flush` the pending bytes as one
chunk. The calls refine it on every set-up writer over an inner writer that takes
everything. Splitting or joining lazy writes and completing them with `Flush` leave the
same writer behind only while the nonce does not wrap: at the wrap, `isZero(counter)`
puts the salt in front of the next call's first chunk again. `ReadFrom` cuts differently:
each `Read` result is sent as it comes, cut at `payloadSizeMask` bytes, so its chunks
follow the source's reads rather than filling up.
-/

namespace Shadowsocks

section Setters
variable (sw : Writer) (a : Aead) (start : Nat) (cs : List (List UInt8))

theorem emitChunks_reset (p : List UInt8) :
    (sw.reset p).emitChunks a start cs = (sw.emitChunks a start cs).reset p := by
  induction cs generalizing sw start with
  | nil => rfl
  | cons c cs ih => exact ih ((sw.withPending c).writeChunk a start).1 sw.ssCipher.saltSize

theorem emitChunks_markFlushed :
    sw.markFlushed.emitChunks a start cs = (sw.emitChunks a start cs).markFlushed := by
  induction cs generalizing sw start with
  | nil => rfl
  | cons c cs ih => exact ih ((sw.withPending c).writeChunk a start).1 sw.ssCipher.saltSize

theorem emitChunks_resetFlush :
    sw.resetFlush.emitChunks a start cs = (sw.emitChunks a start cs).resetFlush := by
  induction cs generalizing sw start with
  | nil => rfl
  | cons c cs ih => exact ih ((sw.withPending c).writeChunk a start).1 sw.ssCipher.saltSize

theorem emitChunks_append_chunks (ds : List (List UInt8)) :
    sw.emitChunks a start (cs ++ ds) =
      (sw.emitChunks a start cs).emitChunks a (if cs = [] then start else sw.ssCipher.saltSize) ds := by
  induction cs generalizing sw start with
  | nil => rfl
  | cons c cs ih =>
    rw [List.cons_append, emitChunks_cons, emitChunks_cons, ih]
    simp

theorem emitChunks_counter {v : Nat} (counter : sw.counter = leBytes a.nonceSize v) :
    (sw.emitChunks a start cs).counter = leBytes a.nonceSize (v + 2 * cs.length) := by
  induction cs generalizing sw start v with
  | nil => exact counter
  | cons c cs ih =>
    rw [emitChunks_cons, ih _ _ (v := v + 2)]
    · simp only [List.length_cons]; congr 1; omega
    · simp [counter, increment_leBytes]

end Setters

/-- The chunking reference model of `LazyWrite(p)`: send the full chunks of the pending
bytes followed by `p`, one write each, keep the rest pending and re-arm `Flush`. -/
def Writer.lazyReference (sw : Writer) (a : Aead) (p : List UInt8) : Writer :=
  ((sw.emitChunks a sw.firstStart (fullChunks (sw.pending ++ p)).1).withPending
    (fullChunks (sw.pending ++ p)).2).resetFlush.reset []

/-- `Write(p)`: send every chunk of the pending bytes followed by `p`, the last one
possibly short, and leave nothing pending. -/
def Writer.writeReference (sw : Writer) (a : Aead) (p : List UInt8) : Writer :=
  ((sw.emitChunks a sw.firstStart (chunks (sw.pending ++ p))).withPending []).markFlushed.reset []

/-- `Flush()`: unless the flush action has run, send the pending bytes as one chunk if
there are any. -/
def Writer.flushReference (sw : Writer) (a : Aead) : Writer :=
  if sw.flushDone then sw
  else ((sw.emitChunks a sw.firstStart (if sw.pending = [] then [] else [sw.pending])).withPending
    []).markFlushed.reset []

section Reference
variable {sw : Writer} {a : Aead}

@[simp] theorem lazyReference_pending (p : List UInt8) :
    (sw.lazyReference a p).pending = (fullChunks (sw.pending ++ p)).2 := rfl
@[simp] theorem lazyReference_flushDone (p : List UInt8) :
    (sw.lazyReference a p).flushDone = false := rfl
@[simp] theorem lazyReference_aead (p : List UInt8) : (sw.lazyReference a p).aead = sw.aead := by
  simp [Writer.lazyReference, Writer.reset, Writer.resetFlush]
@[simp] theorem lazyReference_salt (p : List UInt8) : (sw.lazyReference a p).salt = sw.salt := by
  simp [Writer.lazyReference, Writer.reset, Writer.resetFlush]
@[simp] theorem lazyReference_ssCipher (p : List UInt8) :
    (sw.lazyReference a p).ssCipher = sw.ssCipher := by
  simp [Writer.lazyReference, Writer.reset, Writer.resetFlush]

theorem Sink.AcceptsAll.lazyReference (accepts : sw.writer.AcceptsAll) (p : List UInt8) :
    (sw.lazyReference a p).writer.AcceptsAll :=
  accepts.emitChunks a _ _

theorem lazyReference_room (p : List UInt8) :
    (sw.lazyReference a p).pending.length < payloadSizeMask := by
  rw [lazyReference_pending, (fullChunks_lengths _).2]
  exact Nat.mod_lt _ payloadSizeMask_pos

variable (ready : sw.aead = some a) (accepts : sw.writer.AcceptsAll)
  (room : sw.pending.length < payloadSizeMask)
include ready accepts room

theorem LazyWrite_reference (p : List UInt8) :
    sw.LazyWrite p = some (sw.lazyReference a p, p.length, none) := by
  rw [LazyWrite_ready ready accepts room, emitChunks_reset, emitChunks_resetFlush]
  rfl

theorem Write_reference (p : List UInt8) :
    sw.Write p = some (sw.writeReference a p, p.length, none) := by
  rw [Write_ready ready accepts room, emitChunks_markFlushed, emitChunks_reset]
  rfl

theorem Flush_reference : sw.Flush = some (sw.flushReference a, none) := by
  unfold Writer.flushReference
  split
  · next done => simp [Writer.Flush, done]
  · next fresh =>
    rw [Flush_ready ready accepts room (by simpa using fresh), emitChunks_reset,
      ← chunks_of_short room.le]
    rfl

end Reference

/-! ### Joining and splitting calls while the nonce does not wrap -/

section Compose
variable {sw : Writer} {a : Aead} {k : Nat} (counter : sw.counter = leBytes a.nonceSize (2 * k))
include counter

theorem firstStart_emitChunks (start : Nat) (ds : List (List UInt8))
    (noWrap : k + ds.length < 2 ^ (8 * a.nonceSize - 1)) :
    (sw.emitChunks a start ds).firstStart = if ds = [] then sw.firstStart else sw.ssCipher.saltSize := by
  split
  · next empty => rw [empty]; rfl
  · next nonempty =>
    have zero := isZero_leBytes a.nonceSize (2 * k + 2 * ds.length)
    rw [Nat.mod_eq_of_lt (by have := noWrap_of_fewChunks noWrap; omega)] at zero
    have sent : ds.length ≠ 0 := by simpa using nonempty
    unfold Writer.firstStart
    rw [emitChunks_counter _ _ _ _ counter, emitChunks_ssCipher, if_neg (by rw [zero]; omega)]

theorem firstStart_lazyReference (x : List UInt8)
    (noWrap : k + (sw.pending.length + x.length) / payloadSizeMask < 2 ^ (8 * a.nonceSize - 1)) :
    (sw.lazyReference a x).firstStart =
      if (fullChunks (sw.pending ++ x)).1 = [] then sw.firstStart else sw.ssCipher.saltSize :=
  firstStart_emitChunks counter _ _ (by rw [(fullChunks_lengths _).1]; simpa using noWrap)

theorem lazyReference_append (x y : List UInt8)
    (noWrap : k + (sw.pending.length + x.length) / payloadSizeMask < 2 ^ (8 * a.nonceSize - 1)) :
    (sw.lazyReference a x).lazyReference a y = sw.lazyReference a (x ++ y) := by
  have start := firstStart_lazyReference counter x noWrap
  have cut := fullChunks_append (sw.pending ++ x) y
  rw [List.append_assoc] at cut
  have pending : (sw.lazyReference a x).pending = _ := lazyReference_pending x
  generalize hS : sw.lazyReference a x = S at start pending
  unfold Writer.lazyReference
  rw [start, pending, cut, emitChunks_append_chunks, ← hS]
  unfold Writer.lazyReference
  rw [emitChunks_reset, emitChunks_resetFlush, emitChunks_withPending_eq]
  dsimp only [Writer.reset, Writer.resetFlush, Writer.withPending, Writer.markFlushed]

theorem writeReference_eq_flushReference (p : List UInt8)
    (noWrap : k + (sw.pending.length + p.length) / payloadSizeMask < 2 ^ (8 * a.nonceSize - 1)) :
    sw.writeReference a p = (sw.lazyReference a p).flushReference a := by
  have start := firstStart_lazyReference counter p noWrap
  have pending : (sw.lazyReference a p).pending = _ := lazyReference_pending p
  have cut := chunks_fullChunks (sw.pending ++ p) []
  have short : (fullChunks (sw.pending ++ p)).2.length ≤ payloadSizeMask := by
    rw [(fullChunks_lengths _).2]; exact (Nat.mod_lt _ payloadSizeMask_pos).le
  rw [List.append_nil, List.append_nil, chunks_of_short short] at cut
  generalize hS : sw.lazyReference a p = S at start pending
  unfold Writer.flushReference
  rw [if_neg (by rw [← hS]; simp), start, pending]
  unfold Writer.writeReference
  rw [cut, emitChunks_append_chunks, ← hS]
  unfold Writer.lazyReference
  rw [emitChunks_reset, emitChunks_resetFlush, emitChunks_withPending_eq]
  dsimp only [Writer.reset, Writer.resetFlush, Writer.withPending, Writer.markFlushed]

theorem writeReference_lazyReference (h p : List UInt8)
    (noWrap : k + (sw.pending.length + h.length) / payloadSizeMask < 2 ^ (8 * a.nonceSize - 1)) :
    (sw.lazyReference a h).writeReference a p = sw.writeReference a (h ++ p) := by
  have start := firstStart_lazyReference counter h noWrap
  have pending : (sw.lazyReference a h).pending = _ := lazyReference_pending h
  have cut := chunks_fullChunks (sw.pending ++ h) p
  rw [List.append_assoc] at cut
  generalize hS : sw.lazyReference a h = S at start pending
  unfold Writer.writeReference
  rw [start, pending, cut, emitChunks_append_chunks, ← hS]
  unfold Writer.lazyReference
  rw [emitChunks_reset, emitChunks_resetFlush, emitChunks_withPending_eq]
  dsimp only [Writer.reset, Writer.resetFlush, Writer.withPending, Writer.markFlushed]

end Compose

/-! ### Runs of calls -/

theorem run_singleton (sw : Writer) (c : Call) : sw.run [c] = (sw.call c).map Prod.fst := by
  simp only [Writer.run]
  cases sw.call c <;> rfl

section Runs
variable {sw sw₁ : Writer} {a : Aead} (setup : sw.init = (sw₁, .ok a))
  (accepts : sw.writer.AcceptsAll) (room : sw.pending.length < payloadSizeMask)
include setup accepts room

theorem setup_ready : sw₁.aead = some a ∧ sw₁.writer.AcceptsAll ∧
    sw₁.pending.length < payloadSizeMask ∧ sw₁.pending = sw.pending := by
  have writer : sw₁.writer = sw.writer := by rw [← init_writer sw, setup]
  have pending : sw₁.pending = sw.pending := by rw [← init_pending sw, setup]
  exact ⟨init_aead sw setup, writer ▸ accepts, pending ▸ room, pending⟩

theorem call_lazyWrite_reference (p : List UInt8) :
    sw.call (.lazyWrite p) = some (sw₁.lazyReference a p, p.length, none) := by
  obtain ⟨ready, accepts₁, room₁, -⟩ := setup_ready setup accepts room
  exact (LazyWrite_init p setup).trans (LazyWrite_reference ready accepts₁ room₁ p)

theorem call_write_reference (p : List UInt8) :
    sw.call (.write p) = some (sw₁.writeReference a p, p.length, none) := by
  obtain ⟨ready, accepts₁, room₁, -⟩ := setup_ready setup accepts room
  exact (Write_init p setup).trans (Write_reference ready accepts₁ room₁ p)

theorem lazyReference_ready (x : List UInt8) :
    (sw₁.lazyReference a x).init = (sw₁.lazyReference a x, .ok a) ∧
      (sw₁.lazyReference a x).writer.AcceptsAll ∧
      (sw₁.lazyReference a x).pending.length < payloadSizeMask := by
  obtain ⟨ready, accepts₁, -, -⟩ := setup_ready setup accepts room
  exact ⟨init_of_aead _ (by rw [lazyReference_aead, ready]), accepts₁.lazyReference x,
    lazyReference_room x⟩

theorem run_lazyWrite_lazyWrite (x y : List UInt8) :
    sw.run [.lazyWrite x, .lazyWrite y] = some ((sw₁.lazyReference a x).lazyReference a y) := by
  obtain ⟨setup₁, accepts₁, room₁⟩ := lazyReference_ready setup accepts room x
  simp only [Writer.run, call_lazyWrite_reference setup accepts room,
    call_lazyWrite_reference setup₁ accepts₁ room₁]

theorem run_lazyWrite_flush (x : List UInt8) :
    sw.run [.lazyWrite x, .flush] = some ((sw₁.lazyReference a x).flushReference a) := by
  obtain ⟨setup₁, accepts₁, room₁⟩ := lazyReference_ready setup accepts room x
  simp only [Writer.run, call_lazyWrite_reference setup accepts room]
  simp only [Writer.call, Flush_reference (init_aead _ setup₁) accepts₁ room₁, Option.map_some']

theorem run_lazyWrite_write (x y : List UInt8) :
    sw.run [.lazyWrite x, .write y] = some ((sw₁.lazyReference a x).writeReference a y) := by
  obtain ⟨setup₁, accepts₁, room₁⟩ := lazyReference_ready setup accepts room x
  simp only [Writer.run, call_lazyWrite_reference setup accepts room,
    call_write_reference setup₁ accepts₁ room₁]

end Runs

theorem length_flatten_prefixFirst (pre : List UInt8) (fs : List (List UInt8)) :
    (prefixFirst pre fs).flatten.length = (if fs = [] then 0 else pre.length) + fs.flatten.length := by
  cases fs <;> simp

theorem lazyReference_writes {sw : Writer} {a : Aead} {j : Nat} (accepts : sw.writer.AcceptsAll)
    (counter : sw.counter = leBytes a.nonceSize (2 * j))
    (saltLen : sw.salt.length = sw.ssCipher.saltSize) (p : List UInt8) :
    (sw.lazyReference a p).writer.writes = sw.writer.writes ++
        prefixFirst (sw.salt.drop sw.firstStart) (frames a j (fullChunks (sw.pending ++ p)).1) ∧
      (sw.lazyReference a p).counter =
        leBytes a.nonceSize (2 * (j + (fullChunks (sw.pending ++ p)).1.length)) :=
  emitChunks_wire accepts _ _ counter saltLen (by
    unfold Writer.firstStart; split <;> simp [saltLen])

theorem fullChunks_replicate (n : Nat) :
    (fullChunks (List.replicate (n * payloadSizeMask) (0 : UInt8))).1.length = n ∧
      (fullChunks (List.replicate (n * payloadSizeMask) (0 : UInt8))).1.flatten.length =
        n * payloadSizeMask ∧
      (fullChunks (List.replicate (n * payloadSizeMask) (0 : UInt8))).2 = [] := by
  obtain ⟨count, rest⟩ := fullChunks_lengths (List.replicate (n * payloadSizeMask) (0 : UInt8))
  have flat := congrArg List.length (fullChunks_flatten (List.replicate (n * payloadSizeMask) 0))
  simp only [List.length_replicate, Nat.mul_mod_left, Nat.mul_div_cancel _ payloadSizeMask_pos,
    List.length_eq_zero] at count rest
  simp only [List.length_append, rest, List.length_nil, Nat.add_zero, List.length_replicate] at flat
  exact ⟨count, flat, rest⟩

theorem lazyReference_split_at_wrap {sw : Writer} {a : Aead} (accepts : sw.writer.AcceptsAll)
    (oneByte : a.nonceSize = 1) (counter : sw.counter = leBytes a.nonceSize (2 * 0))
    (saltLen : sw.salt.length = sw.ssCipher.saltSize) (idle : sw.pending = [])
    (fresh : sw.firstStart = 0) (salted : sw.salt ≠ []) :
    (sw.lazyReference a (List.replicate (128 * payloadSizeMask) 0)).lazyReference a
        (List.replicate (1 * payloadSizeMask) 0) ≠
      sw.lazyReference a (List.replicate (128 * payloadSizeMask) 0 ++
        List.replicate (1 * payloadSizeMask) 0) := by
  intro same
  have total := congrArg (fun sw : Writer => sw.writer.writes.flatten.length) same
  have long : sw.salt.length ≠ 0 := by simpa using salted
  obtain ⟨count₁, flat₁, rest₁⟩ := fullChunks_replicate 128
  obtain ⟨count₂, flat₂, -⟩ := fullChunks_replicate 1
  obtain ⟨count, flat, -⟩ := fullChunks_replicate (128 + 1)
  obtain ⟨writes₁, counter₁⟩ := lazyReference_writes accepts counter saltLen
    (List.replicate (128 * payloadSizeMask) (0 : UInt8))
  rw [idle, List.nil_append, count₁] at counter₁
  have wrapped : (sw.lazyReference a (List.replicate (128 * payloadSizeMask) 0)).firstStart = 0 := by
    unfold Writer.firstStart; rw [counter₁, oneByte]; rfl
  obtain ⟨writes₂, -⟩ := lazyReference_writes (accepts.lazyReference _) counter₁
    (by simpa using saltLen) (List.replicate (1 * payloadSizeMask) (0 : UInt8))
  obtain ⟨writes, -⟩ := lazyReference_writes accepts counter saltLen
    (List.replicate ((128 + 1) * payloadSizeMask) (0 : UInt8))
  have sent : ∀ n, 0 < n → (fullChunks (List.replicate (n * payloadSizeMask) (0 : UInt8))).1 ≠ [] :=
    fun n more empty => by
      have := (fullChunks_replicate n).1; rw [empty] at this; simp at this; omega
  dsimp only at total
  rw [List.append_replicate_replicate, ← Nat.add_mul, writes₂, writes₁, writes, wrapped,
    fresh] at total
  simp only [lazyReference_pending, lazyReference_salt, idle, List.nil_append, rest₁,
    List.flatten_append, List.length_append, length_flatten_prefixFirst, length_flatten_frames,
    count₁, flat₁, count₂, flat₂, count, flat, sent 128 (by decide), sent 1 (by decide),
    sent (128 + 1) (by decide), frames_eq_nil, if_false, List.drop_zero] at total
  generalize payloadSizeMask = m at total
  generalize 2 + 2 * a.overhead = o at total
  generalize sw.writer.writes.flatten.length = w at total
  generalize sw.salt.length = l at total long
  rw [Nat.add_mul, Nat.add_mul] at total
  omega

/-- The chunks `ReadFrom` sends from a source: each `Read` result on its own, cut into
chunks of `payloadSizeMask` bytes. -/
def Source.cuts (r : Source) : List (List UInt8) :=
  (r.results.map fun result => chunks result.1).flatten

theorem Source.cuts_read (r : Source) :
    r.cuts = chunks (r.read payloadSizeMask).1.1 ++ (r.read payloadSizeMask).2.cuts := by
  obtain ⟨_ | ⟨⟨d, err⟩, rest⟩, final⟩ := r
  · simp [Source.read, Source.cuts]
  · simp only [Source.read, Source.cuts, List.map_cons, List.flatten_cons]
    by_cases empty : d = []
    · subst empty; simp
    by_cases fits : d.length ≤ payloadSizeMask
    · simp [fits, chunks_of_length_le empty fits]
    · have long : d.take payloadSizeMask ≠ [] := by
        simp only [ne_eq, List.take_eq_nil_iff, not_or]
        exact ⟨payloadSizeMask_pos.ne', empty⟩
      simp only [fits, if_false, List.map_cons, List.flatten_cons]
      rw [chunks_of_ne_nil empty, chunks_of_length_le long (List.length_take_le _ _)]
      rfl

theorem Source.read_quiet {r : Source} (clean : ∀ result ∈ r.results, result.2 = none)
    (left : r.results ≠ []) (n : Nat) : (r.read n).1.2 = none := by
  obtain ⟨_ | ⟨⟨d, err⟩, rest⟩, final⟩ := r
  · contradiction
  · have head : err = none := clean _ (List.mem_cons_self _ _)
    simp only [Source.read]
    split
    · exact head
    · rfl

theorem Source.read_final (r : Source) (n : Nat) : (r.read n).2.final = r.final := by
  unfold Source.read
  split
  · rfl
  · split <;> rfl

section Cuts
variable {σ : Type} {read : σ → Nat → (List UInt8 × Option Err) × σ} {mode : Mode} {a : Aead}

theorem step_idle (flushes : mode ≠ .lazy) (l : Loop σ) (idle : l.sw.pending = []) :
    l.step read mode a =
      if (read l.r payloadSizeMask).1.1 = [] then
        (⟨l.sw, (read l.r payloadSizeMask).2, l.start, l.written⟩, (read l.r payloadSizeMask).1.2)
      else
        (⟨((l.sw.withPending (read l.r payloadSizeMask).1.1).writeChunk a l.start).1,
          (read l.r payloadSizeMask).2, l.sw.ssCipher.saltSize,
          l.written + (read l.r payloadSizeMask).1.1.length⟩,
          ((l.sw.withPending (read l.r payloadSizeMask).1.1).writeChunk a l.start).2) := by
  rw [step_eq]
  simp only [idle, List.length_nil, Nat.sub_zero, List.nil_append, withPending_pending]
  by_cases empty : (read l.r payloadSizeMask).1.1 = []
  · have := payloadSizeMask_pos
    rw [if_pos empty, if_neg (by simp [empty]; omega), empty]
    simp [← idle]
  · rw [if_neg empty, if_pos (.inr ⟨flushes, List.length_pos.mpr empty⟩)]

theorem emitChunks_step_idle (flushes : mode ≠ .lazy) (l : Loop Source) (idle : l.sw.pending = [])
    (cs : List (List UInt8)) :
    (l.step Source.read mode a).1.sw.emitChunks a (l.step Source.read mode a).1.start cs =
      l.sw.emitChunks a l.start (chunks (l.r.read payloadSizeMask).1.1 ++ cs) := by
  rw [step_idle flushes l idle]
  split
  · next empty => rw [empty, chunks_nil, List.nil_append]
  · next piece =>
    rw [chunks_of_length_le piece (Source.read_bounded l.r payloadSizeMask), List.singleton_append,
      emitChunks_cons]

theorem run_source_cuts (flushes : mode ≠ .lazy) (fuel : Nat) (l : Loop Source)
    (accepts : l.sw.writer.AcceptsAll) (idle : l.sw.pending = [])
    (clean : ∀ result ∈ l.r.results, result.2 = none) (enough : l.r.budget ≤ fuel) :
    ∃ start', Loop.run Source.read mode a fuel l =
      some (⟨l.sw.emitChunks a l.start l.r.cuts, ⟨[], l.r.final⟩, start',
          l.written + l.r.data.length⟩,
        if l.r.final = .eof then none else some (.wrap "Failed to read payload" l.r.final)) := by
  induction fuel generalizing l with
  | zero => have := l.r.two_le_budget; omega
  | succ fuel ih =>
    by_cases drained : l.r.results = []
    · obtain ⟨sw, ⟨results, final⟩, start, written⟩ := l
      dsimp only at drained idle ⊢
      subst drained
      have pass : Loop.step Source.read mode a ⟨sw, ⟨[], final⟩, start, written⟩ =
          (⟨sw, ⟨[], final⟩, start, written⟩, some final) := by
        rw [step_idle flushes _ idle]
        rfl
      refine ⟨start, ?_⟩
      rw [run_succ_of_step_error fuel pass]
      simp [Source.cuts, Source.data]
    · have next : (l.step Source.read mode a).1.r = (l.r.read payloadSizeMask).2 := by
        rw [step_r, idle, List.length_nil, Nat.sub_zero]
      have pass : l.step Source.read mode a = ((l.step Source.read mode a).1, none) := by
        refine Prod.ext rfl ?_
        rw [step_idle flushes l idle]
        split
        · exact Source.read_quiet clean drained payloadSizeMask
        · exact writeChunk_err _ a l.start accepts
      obtain ⟨start', ran⟩ := ih (l.step Source.read mode a).1 (step_accepts l accepts).1
        (step_pending_nil flushes l) (next ▸ (Source.read_drains l.r payloadSizeMask clean).1)
        (by rw [next]; have := Source.read_budget_lt payloadSizeMask_pos drained; omega)
      refine ⟨start', ?_⟩
      rw [run_succ_of_none fuel pass, ran, emitChunks_step_idle flushes l idle, next,
        ← Source.cuts_read, Source.read_final, step_written, idle, List.length_nil, Nat.sub_zero,
        Nat.add_assoc, ← List.length_append, ← Source.read_readsFrom]

end Cuts

/-- `ReadFrom` with nothing pending sends each `Read` result as it comes, cut at
`payloadSizeMask` bytes, counts every byte and returns the source's final error, none for
`io.EOF`. -/
theorem ReadFrom_sends_each_read_as_it_comes {sw : Writer} {a : Aead} {r : Source}
    (ready : sw.aead = some a) (idle : sw.pending = []) (accepts : sw.writer.AcceptsAll)
    (clean : ∀ result ∈ r.results, result.2 = none) :
    sw.ReadFrom r = some (sw.markFlushed.emitChunks a sw.firstStart r.cuts, r.data.length,
      if r.final = .eof then none else some (.wrap "Failed to read payload" r.final)) := by
  obtain ⟨start', ran⟩ := @run_source_cuts .normal a (by decide) r.budget
    ⟨sw.markFlushed, r, sw.firstStart, 0⟩ accepts idle clean le_rfl
  simp only [Writer.ReadFrom, readFrom_ready Source.read r.budget r .normal ready, if_true, ran,
    Option.map_some', Nat.zero_add]

theorem ReadFrom_sends_two_reads_as_two_chunks :
    (newShadowsocksWriter ⟨[], fun _ => (none, none)⟩ (Cipher.tagging 2 1) ⟨[7, 8], .eof⟩).init.1.aead =
        some (Aead.tagging 1) ∧
      (newShadowsocksWriter ⟨[], fun _ => (none, none)⟩ (Cipher.tagging 2 1)
        ⟨[7, 8], .eof⟩).init.1.pending = [] ∧
      (newShadowsocksWriter ⟨[], fun _ => (none, none)⟩ (Cipher.tagging 2 1)
        ⟨[7, 8], .eof⟩).init.1.writer.AcceptsAll ∧
      (∀ result ∈ [([1, 2], none), ([], none), ([3], none)], (result : List UInt8 × Option Err).2 = none) ∧
      (newShadowsocksWriter ⟨[], fun _ => (none, none)⟩ (Cipher.tagging 2 1)
        ⟨[7, 8], .eof⟩).init.1.ReadFrom ⟨[([1, 2], none), ([], none), ([3], none)], .eof⟩ =
        some ((newShadowsocksWriter ⟨[], fun _ => (none, none)⟩ (Cipher.tagging 2 1)
            ⟨[7, 8], .eof⟩).init.1.markFlushed.emitChunks (Aead.tagging 1)
            (newShadowsocksWriter ⟨[], fun _ => (none, none)⟩ (Cipher.tagging 2 1)
              ⟨[7, 8], .eof⟩).init.1.firstStart
            (Source.cuts ⟨[([1, 2], none), ([], none), ([3], none)], .eof⟩),
          (Source.data ⟨[([1, 2], none), ([], none), ([3], none)], .eof⟩).length,
          if Err.eof = .eof then none else some (.wrap "Failed to read payload" .eof)) :=
  ⟨rfl, rfl, fun _ => rfl, by decide, ReadFrom_sends_each_read_as_it_comes rfl rfl (fun _ => rfl) (by decide)⟩

end Shadowsocks
