import Shadowsocks.WriterSpec

/-!
The calls of `shadowsocksWriter` in terms of `emitChunks`, for an inner writer that takes
everything. `init` is run first by every call; once it has succeeded it changes nothing,
so each call is stated for the writer `init` leaves behind.
-/

namespace Shadowsocks

section Init
variable (sw : Writer)

theorem init_fst : ∃ rand salt aead counter,
    sw.init.1 = { sw with rand := rand, salt := salt, aead := aead, counter := counter } := by
  rcases sw with ⟨writer, ssCipher, rand, bw, fd, pending, salt, aead, counter⟩
  cases aead with
  | some a => exact ⟨_, _, _, _, rfl⟩
  | none =>
    simp only [Writer.init]
    rcases rand.readFull ssCipher.saltSize with ⟨_ | salt', rand'⟩
    · exact ⟨_, _, _, _, rfl⟩
    · dsimp only
      cases ssCipher.encrypter salt' <;> exact ⟨_, _, _, _, rfl⟩

@[simp] theorem init_writer : sw.init.1.writer = sw.writer := by
  obtain ⟨_, _, _, _, h⟩ := init_fst sw; rw [h]
@[simp] theorem init_ssCipher : sw.init.1.ssCipher = sw.ssCipher := by
  obtain ⟨_, _, _, _, h⟩ := init_fst sw; rw [h]
@[simp] theorem init_pending : sw.init.1.pending = sw.pending := by
  obtain ⟨_, _, _, _, h⟩ := init_fst sw; rw [h]
@[simp] theorem init_flushDone : sw.init.1.flushDone = sw.flushDone := by
  obtain ⟨_, _, _, _, h⟩ := init_fst sw; rw [h]
@[simp] theorem init_byteWrapper : sw.init.1.byteWrapper = sw.byteWrapper := by
  obtain ⟨_, _, _, _, h⟩ := init_fst sw; rw [h]

theorem init_of_aead {a : Aead} (ready : sw.aead = some a) : sw.init = (sw, .ok a) := by
  simp [Writer.init, ready]

theorem init_aead {sw₁ : Writer} {a : Aead} (ok : sw.init = (sw₁, .ok a)) : sw₁.aead = some a := by
  rcases sw with ⟨writer, ssCipher, rand, bw, fd, pending, salt, aead, counter⟩
  cases aead with
  | some a' => simp only [Writer.init, Prod.mk.injEq, Except.ok.injEq] at ok; rw [← ok.1, ok.2]
  | none =>
    simp only [Writer.init] at ok
    rcases hr : rand.readFull ssCipher.saltSize with ⟨_ | salt', rand'⟩ <;> rw [hr] at ok
    · simp at ok
    · dsimp only at ok
      cases h : ssCipher.encrypter salt' <;> simp only [h, Prod.mk.injEq, reduceCtorEq,
        Except.ok.injEq, and_false] at ok
      rw [← ok.1, ok.2]

theorem init_update (bw : List UInt8) (fd : Bool) :
    ({ sw with byteWrapper := bw, flushDone := fd }).init =
      ({ sw.init.1 with byteWrapper := bw, flushDone := fd }, sw.init.2) := by
  rcases sw with ⟨writer, ssCipher, rand, bw', fd', pending, salt, aead, counter⟩
  cases aead with
  | some a => rfl
  | none =>
    simp only [Writer.init]
    rcases rand.readFull ssCipher.saltSize with ⟨_ | salt', rand'⟩
    · rfl
    · dsimp only
      cases ssCipher.encrypter salt' <;> rfl

theorem init_reset (p : List UInt8) : (sw.reset p).init = (sw.init.1.reset p, sw.init.2) := by
  rw [show sw.reset p = { sw with byteWrapper := p, flushDone := sw.flushDone } from rfl,
    init_update, ← init_flushDone sw]
  rfl

theorem init_resetFlush : sw.resetFlush.init = (sw.init.1.resetFlush, sw.init.2) := by
  rw [show sw.resetFlush = { sw with byteWrapper := sw.byteWrapper, flushDone := false } from rfl,
    init_update, ← init_byteWrapper sw]
  rfl

end Init

section Calls
variable {sw sw₁ : Writer} {a : Aead}

@[simp] theorem firstStart_reset (p : List UInt8) : (sw.reset p).firstStart = sw.firstStart := rfl
@[simp] theorem firstStart_markFlushed : sw.markFlushed.firstStart = sw.firstStart := rfl
@[simp] theorem firstStart_resetFlush : sw.resetFlush.firstStart = sw.firstStart := rfl

theorem readFrom_ready {σ : Type} (read : σ → Nat → (List UInt8 × Option Err) × σ)
    (fuel : Nat) (r : σ) (mode : Mode) (ready : sw.aead = some a) :
    sw.readFrom read fuel r mode =
      (Loop.run read mode a fuel ⟨if mode = .normal then sw.markFlushed else sw, r,
        sw.firstStart, 0⟩).map fun (l, err) => (l.sw, l.r, l.written, err) := by
  simp only [Writer.readFrom, init_of_aead sw ready]
  split <;> rfl

theorem readFrom_init {σ : Type} (read : σ → Nat → (List UInt8 × Option Err) × σ)
    (fuel : Nat) (r : σ) (mode : Mode) (ok : sw.init = (sw₁, .ok a)) :
    sw.readFrom read fuel r mode = sw₁.readFrom read fuel r mode := by
  rw [readFrom_ready read fuel r mode (init_aead sw ok)]
  simp only [Writer.readFrom, ok]
  split <;> rfl

theorem readFrom_cases {σ : Type} {read : σ → Nat → (List UInt8 × Option Err) × σ}
    {fuel : Nat} {r r' : σ} {mode : Mode} {sw' : Writer} {n : Nat} {e : Option Err}
    (ran : sw.readFrom read fuel r mode = some (sw', r', n, e)) :
    (∃ e₁, sw.init = (sw', .error e₁)) ∨
      ∃ sw₁ a l e', sw.init = (sw₁, .ok a) ∧
        Loop.run read mode a fuel ⟨if mode = .normal then sw₁.markFlushed else sw₁, r,
          (if mode = .normal then sw₁.markFlushed else sw₁).firstStart, 0⟩ = some (l, e') ∧
        sw' = l.sw := by
  unfold Writer.readFrom at ran
  rcases setup : sw.init with ⟨sw₁, e₁ | a⟩ <;> rw [setup] at ran
  · obtain ⟨rfl, -⟩ := Prod.mk.inj (Option.some.inj ran)
    exact .inl ⟨e₁, rfl⟩
  · obtain ⟨⟨l, e'⟩, loop, rest⟩ := Option.map_eq_some'.mp ran
    exact .inr ⟨sw₁, a, l, e', rfl, loop, (Prod.mk.inj rest).1.symm⟩

theorem write_init (p : List UInt8) (mode : Mode) (ok : sw.init = (sw₁, .ok a)) :
    sw.write p mode = sw₁.write p mode := by
  simp only [Writer.write]
  rw [readFrom_init _ _ _ _ (by rw [init_reset, ok])]

theorem Write_init (p : List UInt8) (ok : sw.init = (sw₁, .ok a)) : sw.Write p = sw₁.Write p :=
  write_init p .normal ok

theorem LazyWrite_init (p : List UInt8) (ok : sw.init = (sw₁, .ok a)) :
    sw.LazyWrite p = sw₁.LazyWrite p :=
  have ok' : sw.resetFlush.init = (sw₁.resetFlush, .ok a) := by rw [init_resetFlush, ok]
  write_init p .lazy ok'

theorem Flush_init (ok : sw.init = (sw₁, .ok a)) (fresh : sw.flushDone = false) :
    sw.Flush = sw₁.Flush := by
  have done : sw₁.flushDone = false := by rw [← fresh, ← init_flushDone sw, ok]
  simp only [Writer.Flush, done, fresh, write_init [] .flush ok, Bool.false_eq_true, if_false]

theorem Write_ready (ready : sw.aead = some a) (accepts : sw.writer.AcceptsAll)
    (room : sw.pending.length < payloadSizeMask) (p : List UInt8) :
    sw.Write p = some ((((sw.reset p).markFlushed.emitChunks a sw.firstStart
      (chunks (sw.pending ++ p))).withPending []).reset [], p.length, none) := by
  obtain ⟨start', hrun⟩ := run_bytes_flushing (a := a) .normal (by decide) (p.length + 2)
    (sw.reset p).markFlushed p sw.firstStart 0 accepts room le_rfl
  have ready' : (sw.reset p).aead = some a := ready
  simp only [Writer.Write, Writer.write, readFrom_ready _ _ _ _ ready', if_true,
    firstStart_reset, hrun, Option.map_some', Nat.zero_add]
  rfl

theorem LazyWrite_ready (ready : sw.aead = some a) (accepts : sw.writer.AcceptsAll)
    (room : sw.pending.length < payloadSizeMask) (p : List UInt8) :
    sw.LazyWrite p = some ((((sw.resetFlush.reset p).emitChunks a sw.firstStart
      (fullChunks (sw.pending ++ p)).1).withPending (fullChunks (sw.pending ++ p)).2).reset [],
      p.length, none) := by
  obtain ⟨start', hrun⟩ := run_bytes_lazy (a := a) (p.length + 2) (sw.resetFlush.reset p) p
    sw.firstStart 0 accepts room (by omega)
  have ready' : (sw.resetFlush.reset p).aead = some a := ready
  simp only [Writer.LazyWrite, Writer.write, readFrom_ready _ _ _ _ ready', reduceCtorEq,
    if_false, firstStart_reset, firstStart_resetFlush, hrun, Option.map_some', Nat.zero_add]
  rfl

theorem Flush_ready (ready : sw.aead = some a) (accepts : sw.writer.AcceptsAll)
    (room : sw.pending.length < payloadSizeMask) (fresh : sw.flushDone = false) :
    sw.Flush = some (((((sw.reset []).emitChunks a sw.firstStart (chunks sw.pending)).withPending
      []).reset []).markFlushed, none) := by
  obtain ⟨start', hrun⟩ := run_bytes_flushing (a := a) .flush (by decide) 2 (sw.reset []) []
    sw.firstStart 0 accepts room le_rfl
  have ready' : (sw.reset []).aead = some a := ready
  simp only [Writer.Flush, fresh, Writer.write, readFrom_ready _ _ _ _ ready', reduceCtorEq,
    if_false, firstStart_reset, List.length_nil, Nat.zero_add, hrun, Option.map_some',
    List.append_nil, Bool.false_eq_true]
  rfl

end Calls

end Shadowsocks
