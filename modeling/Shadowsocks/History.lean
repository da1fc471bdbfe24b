import Shadowsocks.WireFormat

/-!
Whole histories of sequential calls on one writer. For every inner writer the log of
writes only grows and the AEAD, once set, stays, with its salt, and `crypto/rand` is not
drawn from again. Over an inner writer that takes
everything, nothing is written until `init` succeeds; from then on the inner writer holds
the salt and the frames of the chunks sent so far, and each call adds chunks that, with
what stays pending, are the bytes the call was given.
-/

namespace Shadowsocks

def Call.input : Call → List UInt8
  | .write p => p
  | .lazyWrite p => p
  | .flush => []
  | .readFrom r => r.data

def Call.Clean : Call → Prop
  | .readFrom r => ∀ result ∈ r.results, result.2 = none
  | _ => True

/-- `sw'` comes after `sw`: the inner writer has taken at least as many writes, an AEAD
that was set is still set, and the cipher is the same. -/
def Writer.Grows (sw sw' : Writer) : Prop :=
  sw.writer.writes.length ≤ sw'.writer.writes.length ∧
    (∀ a, sw.aead = some a → sw'.aead = some a) ∧ sw'.ssCipher = sw.ssCipher

theorem Writer.Grows.refl (sw : Writer) : sw.Grows sw := ⟨le_rfl, fun _ => id, rfl⟩

theorem Writer.Grows.trans {sw₁ sw₂ sw₃ : Writer} (first : sw₁.Grows sw₂) (second : sw₂.Grows sw₃) :
    sw₁.Grows sw₃ :=
  ⟨first.1.trans second.1, fun a set => second.2.1 a (first.2.1 a set),
    second.2.2.trans first.2.2⟩

theorem init_grows (sw : Writer) : sw.Grows sw.init.1 :=
  ⟨by rw [init_writer], fun a set => by rw [init_of_aead sw set]; exact set, init_ssCipher sw⟩

section Grows
variable {σ : Type} {read : σ → Nat → (List UInt8 × Option Err) × σ} {mode : Mode} {a : Aead}

theorem step_grows (l : Loop σ) : l.sw.Grows (l.step read mode a).1.sw := by
  rw [step_eq]
  dsimp only
  split
  · exact ⟨by simp [Writer.writeChunk, Sink.write], fun _ => id, rfl⟩
  · exact Writer.Grows.refl _

theorem run_grows {fuel : Nat} {l l' : Loop σ} {e : Option Err}
    (ran : Loop.run read mode a fuel l = some (l', e)) : l.sw.Grows l'.sw :=
  Loop.run_preserves (fun l' => l.sw.Grows l'.sw) (fun _ grows => grows.trans (step_grows _))
    (Writer.Grows.refl l.sw) ran

theorem readFrom_grows {fuel : Nat} {sw sw' : Writer} {r r' : σ} {n : Nat} {e : Option Err}
    (ran : sw.readFrom read fuel r mode = some (sw', r', n, e)) : sw.Grows sw' := by
  rcases readFrom_cases ran with ⟨e₁, failed⟩ | ⟨sw₁, a₁, l, e', ok, loop, rfl⟩
  · simpa only [failed] using init_grows sw
  · have grows : sw.Grows sw₁ := by simpa only [ok] using init_grows sw
    have marked : sw₁.Grows (if mode = .normal then sw₁.markFlushed else sw₁) := by
      split <;> exact Writer.Grows.refl _
    exact grows.trans (marked.trans (run_grows loop))

end Grows

section Calls
variable {sw sw' : Writer} {n : Nat} {e : Option Err}

theorem call_grows {c : Call} (ran : sw.call c = some (sw', n, e)) : sw.Grows sw' :=
  Writer.call_preserves sw.Grows (fun _ _ => id) (fun _ => id) (fun _ => id)
    (fun _ grows ran => grows.trans (readFrom_grows ran)) (Writer.Grows.refl sw) ran

theorem run_grows_of_calls {calls : List Call} (ran : sw.run calls = some sw') : sw.Grows sw' :=
  Writer.run_preserves sw.Grows (fun grows ran => grows.trans (call_grows ran))
    (Writer.Grows.refl sw) ran

end Calls

/-! ### Once set up, the writer keeps its key -/

/-- What a writer keys with: its AEAD, the salt it was derived from, and what is left of
`crypto/rand`. -/
def Writer.key (sw : Writer) : Option Aead × List UInt8 × ByteStream := (sw.aead, sw.salt, sw.rand)

section Key
variable {σ : Type} {read : σ → Nat → (List UInt8 × Option Err) × σ} {mode : Mode} {a : Aead}
  {sw sw' : Writer}

theorem step_key (l : Loop σ) : (l.step read mode a).1.sw.key = l.sw.key := by
  simp only [Loop.step]; split <;> rfl

theorem readFrom_key {fuel : Nat} {r r' : σ} {n : Nat} {e : Option Err} (ready : sw.aead = some a)
    (ran : sw.readFrom read fuel r mode = some (sw', r', n, e)) : sw'.key = sw.key := by
  rcases readFrom_cases ran with ⟨e₁, failed⟩ | ⟨sw₁, a₁, l, e', ok, loop, rfl⟩
  · rw [init_of_aead sw ready] at failed
    cases (Prod.mk.inj failed).2
  · rw [init_of_aead sw ready] at ok
    obtain ⟨rfl, -⟩ := Prod.mk.inj ok
    exact Loop.run_preserves (fun l => l.sw.key = sw.key) (fun l kept => (step_key l).trans kept)
      (by split <;> rfl) loop

theorem call_key {c : Call} {n : Nat} {e : Option Err} (ready : sw.aead = some a)
    (ran : sw.call c = some (sw', n, e)) : sw'.key = sw.key :=
  Writer.call_preserves (fun x => x.key = sw.key) (fun _ _ => id) (fun _ => id) (fun _ => id)
    (fun _ kept ran => (readFrom_key ((congrArg Prod.fst kept).trans ready) ran).trans kept) rfl ran

theorem run_key {calls : List Call} (ready : sw.aead = some a) (ran : sw.run calls = some sw') :
    sw'.key = sw.key :=
  Writer.run_preserves (fun x => x.key = sw.key)
    (fun kept ran => (call_key ((congrArg Prod.fst kept).trans ready) ran).trans kept) rfl ran

end Key

/-- Once `init` has succeeded the writer is keyed for good: whatever the inner writer
replies, no later call draws from `crypto/rand` again or changes the salt or the AEAD, so
every chunk is sealed under the AEAD of the one salt the inner writer is first handed. -/
theorem writer_keys_once :
    ∀ (sw sw' : Writer) (a : Aead) (calls : List Call), sw.aead = some a →
      sw.run calls = some sw' → sw'.aead = some a ∧ sw'.salt = sw.salt ∧ sw'.rand = sw.rand := by
  intro sw sw' a calls ready ran
  have kept := run_key ready ran
  simp only [Writer.key, Prod.mk.injEq] at kept
  exact ⟨kept.1.trans ready, kept.2⟩

theorem writer_keeps_key_past_failing_inner_writer :
    ∃ sw', ((newShadowsocksWriter ⟨[], fun _ => (some 1, some (.external 7))⟩ (Cipher.tagging 2 1)
        ⟨[7, 8, 9], .eof⟩).init.1).run [.write [1], .lazyWrite [2]] = some sw' ∧
      (newShadowsocksWriter ⟨[], fun _ => (some 1, some (.external 7))⟩ (Cipher.tagging 2 1)
        ⟨[7, 8, 9], .eof⟩).init.1.aead = some (Aead.tagging 1) ∧
      sw'.aead = some (Aead.tagging 1) ∧ sw'.salt = [7, 8] ∧ sw'.rand = ⟨[9], .eof⟩ :=
  have ran : ((newShadowsocksWriter ⟨[], fun _ => (some 1, some (.external 7))⟩
      (Cipher.tagging 2 1) ⟨[7, 8, 9], .eof⟩).init.1).run [.write [1], .lazyWrite [2]] = some _ := rfl
  ⟨_, ran, rfl, writer_keys_once ((newShadowsocksWriter ⟨[], fun _ => (some 1, some (.external 7))⟩
    (Cipher.tagging 2 1) ⟨[7, 8, 9], .eof⟩).init.1) _ (Aead.tagging 1) [.write [1], .lazyWrite [2]]
    rfl ran⟩

/-! ### Before and at the first successful `init` -/

section Init
variable {sw sw₁ sw' : Writer} {a : Aead} {e : Err}

theorem readFrom_of_error {σ : Type} (read : σ → Nat → (List UInt8 × Option Err) × σ)
    (fuel : Nat) (r : σ) (mode : Mode) (failed : sw.init = (sw₁, .error e)) :
    sw.readFrom read fuel r mode = some (sw₁, r, 0, some e) := by
  simp only [Writer.readFrom, failed]

theorem write_of_error (p : List UInt8) (mode : Mode) (failed : sw.init = (sw₁, .error e)) :
    sw.write p mode = some ((sw₁.reset p).reset p, 0, some e) := by
  have failed' : (sw.reset p).init = (sw₁.reset p, .error e) := by rw [init_reset, failed]
  simp only [Writer.write, readFrom_of_error _ _ _ _ failed', Option.map_some']

theorem ReadFrom_init (r : Source) (ok : sw.init = (sw₁, .ok a)) : sw.ReadFrom r = sw₁.ReadFrom r := by
  simp only [Writer.ReadFrom, readFrom_init _ _ _ _ ok]

theorem init_error_aead (unready : sw.aead = none) (failed : sw.init = (sw₁, .error e)) :
    sw₁.aead = none := by
  rcases sw with ⟨writer, ssCipher, rand, bw, fd, pending, salt, aead, counter⟩
  subst unready
  simp only [Writer.init] at failed
  rcases hr : rand.readFull ssCipher.saltSize with ⟨_ | salt', rand'⟩ <;> rw [hr] at failed
  · simp only [Prod.mk.injEq] at failed
    rw [← failed.1]
  · dsimp only at failed
    cases h : ssCipher.encrypter salt' <;>
      simp only [h, Prod.mk.injEq, reduceCtorEq, and_false] at failed
    rw [← failed.1]

theorem init_sent (unready : sw.aead = none) (ok : sw.init = (sw₁, .ok a)) :
    Sent sw.writer.writes sw₁ a [] := by
  rcases sw with ⟨writer, ssCipher, rand, bw, fd, pending, salt, aead, counter⟩
  subst unready
  simp only [Writer.init] at ok
  rcases hr : rand.readFull ssCipher.saltSize with ⟨_ | salt', rand'⟩ <;> rw [hr] at ok
  · simp at ok
  · dsimp only at ok
    cases h : ssCipher.encrypter salt' <;>
      simp only [h, Prod.mk.injEq, reduceCtorEq, and_false, Except.ok.injEq] at ok
    obtain ⟨rfl, rfl⟩ := ok
    exact ⟨rfl, h, ByteStream.readFull_ok hr, by simp, by simp [wire], by simp [leBytes_zero]⟩

theorem call_unready {c : Call} {n : Nat} {e' : Option Err} (unready : sw.aead = none)
    (ran : sw.call c = some (sw', n, e')) :
    (sw'.aead = none ∧ sw'.writer = sw.writer ∧ sw'.pending = sw.pending) ∨
      ∃ sw₁ a, sw.init = (sw₁, .ok a) ∧ sw₁.call c = some (sw', n, e') := by
  rcases setup : sw.init with ⟨sw₁, e₁ | a⟩
  · left
    have kept : sw₁.aead = none ∧ sw₁.writer = sw.writer ∧ sw₁.pending = sw.pending :=
      ⟨init_error_aead unready setup, by rw [← init_writer sw, setup],
        by rw [← init_pending sw, setup]⟩
    cases c with
    | write p =>
      simp only [Writer.call, Writer.Write, write_of_error p .normal setup, Option.some.injEq,
        Prod.mk.injEq] at ran
      rw [← ran.1]; exact kept
    | lazyWrite p =>
      have failed : sw.resetFlush.init = (sw₁.resetFlush, .error e₁) := by
        rw [init_resetFlush, setup]
      simp only [Writer.call, Writer.LazyWrite, write_of_error p .lazy failed, Option.some.injEq,
        Prod.mk.injEq] at ran
      rw [← ran.1]; exact kept
    | flush =>
      simp only [Writer.call, Writer.Flush] at ran
      split at ran
      · simp only [Option.map_some', Option.some.injEq, Prod.mk.injEq] at ran
        rw [← ran.1]; exact ⟨unready, rfl, rfl⟩
      · simp only [write_of_error [] .flush setup, Option.map_some', Option.some.injEq,
          Prod.mk.injEq] at ran
        rw [← ran.1]; exact kept
    | readFrom r =>
      simp only [Writer.call, Writer.ReadFrom, readFrom_of_error _ _ _ _ setup, Option.map_some',
        Option.some.injEq, Prod.mk.injEq] at ran
      rw [← ran.1]; exact kept
  · cases c with
    | write p => exact Or.inr ⟨sw₁, a, rfl, by simpa only [Writer.call, Write_init p setup] using ran⟩
    | lazyWrite p =>
      exact Or.inr ⟨sw₁, a, rfl, by simpa only [Writer.call, LazyWrite_init p setup] using ran⟩
    | readFrom r =>
      exact Or.inr ⟨sw₁, a, rfl, by simpa only [Writer.call, ReadFrom_init r setup] using ran⟩
    | flush =>
      cases fresh : sw.flushDone
      · exact Or.inr ⟨sw₁, a, rfl, by
          simp only [Writer.call, ← Flush_init setup fresh]; exact ran⟩
      · simp only [Writer.call, Writer.Flush, fresh, if_true, Option.map_some',
          Option.some.injEq, Prod.mk.injEq] at ran
        rw [← ran.1]; exact Or.inl ⟨unready, rfl, rfl⟩

end Init

/-! ### Calls on a set-up writer -/

section Ready
variable {writes₀ : List (List UInt8)} {sw sw' : Writer} {a : Aead} {cs : List (List UInt8)}
  {n : Nat} {e : Option Err}

theorem readFrom_sends {σ : Type} {read : σ → Nat → (List UInt8 × Option Err) × σ}
    {data : σ → List UInt8} {clean : σ → Prop} (bounded : ReadBounded read)
    (reads : ReadsFrom read data) (drains : Drains read data clean) {fuel : Nat} {r r' : σ}
    {mode : Mode} (sent : Sent writes₀ sw a cs) (accepts : sw.writer.AcceptsAll)
    (room : sw.pending.length < payloadSizeMask)
    (ran : sw.readFrom read fuel r mode = some (sw', r', n, e))
    (fewChunks : sw'.writer.writes.length < writes₀.length + 2 ^ (8 * a.nonceSize - 1)) :
    ∃ ds, Sent writes₀ sw' a (cs ++ ds) ∧ sw'.writer.AcceptsAll ∧
      ds.flatten ++ sw'.pending ++ data r' = sw.pending ++ data r ∧ (clean r → data r' = []) := by
  obtain ⟨ds, valid, shape, flat, -, -⟩ := readFrom_emits bounded reads sent.aead accepts room ran
  have marked : Sent writes₀ (if mode = .normal then sw.markFlushed else sw) a cs ∧
      (if mode = .normal then sw.markFlushed else sw).writer.AcceptsAll ∧
      (if mode = .normal then sw.markFlushed else sw).firstStart = sw.firstStart := by
    split
    · exact ⟨sent.markFlushed, accepts, rfl⟩
    · exact ⟨sent, accepts, rfl⟩
  generalize (if mode = .normal then sw.markFlushed else sw) = X at marked shape
  obtain ⟨sentX, acceptsX, startX⟩ := marked
  rw [← startX] at shape
  have grown : sw'.writer.writes.length = writes₀.length + cs.length + ds.length := by
    rw [shape, withPending_writer, sentX.length_emitChunks acceptsX]
  have emitted := sentX.emitChunks acceptsX valid fun _ => noWrap_of_fewChunks (by omega)
  refine ⟨ds, ?_, ?_, flat, fun cleanStart => readFrom_drains drains sent.aead accepts cleanStart ran⟩
  · rw [shape]; exact emitted.withPending _
  · rw [shape]; exact acceptsX.emitChunks a _ ds

theorem write_sends {p : List UInt8} {mode : Mode} (sent : Sent writes₀ sw a cs)
    (accepts : sw.writer.AcceptsAll) (room : sw.pending.length < payloadSizeMask)
    (ran : sw.write p mode = some (sw', n, e))
    (fewChunks : sw'.writer.writes.length < writes₀.length + 2 ^ (8 * a.nonceSize - 1)) :
    ∃ ds, Sent writes₀ sw' a (cs ++ ds) ∧ sw'.writer.AcceptsAll ∧
      ds.flatten ++ sw'.pending = sw.pending ++ p := by
  obtain ⟨⟨sw'', r, n', e'⟩, inner, rest⟩ := Option.map_eq_some'.mp ran
  simp only [Prod.mk.injEq] at rest
  obtain ⟨rfl, -, -⟩ := rest
  obtain ⟨ds, sent', accepts', flat, drained⟩ := readFrom_sends bytesRead_bounded
    bytesRead_readsFrom bytesRead_drains (sent.reset p) accepts room inner fewChunks
  obtain rfl : r = [] := drained trivial
  exact ⟨ds, sent'.reset [], accepts', by simpa [Writer.reset] using flat⟩

theorem call_sends {c : Call} (sent : Sent writes₀ sw a cs) (accepts : sw.writer.AcceptsAll)
    (room : sw.pending.length < payloadSizeMask) (ran : sw.call c = some (sw', n, e))
    (fewChunks : sw'.writer.writes.length < writes₀.length + 2 ^ (8 * a.nonceSize - 1)) :
    ∃ ds rest, Sent writes₀ sw' a (cs ++ ds) ∧ sw'.writer.AcceptsAll ∧
      ds.flatten ++ sw'.pending ++ rest = sw.pending ++ c.input ∧ (c.Clean → rest = []) := by
  cases c with
  | write p =>
    obtain ⟨ds, sent', accepts', flat⟩ := write_sends sent accepts room ran fewChunks
    exact ⟨ds, [], sent', accepts', by simpa [Call.input] using flat, fun _ => rfl⟩
  | lazyWrite p =>
    obtain ⟨ds, sent', accepts', flat⟩ := write_sends sent.resetFlush accepts room
      (show sw.resetFlush.write p .lazy = _ from ran) fewChunks
    exact ⟨ds, [], sent', accepts', by simpa [Call.input, Writer.resetFlush] using flat,
      fun _ => rfl⟩
  | flush =>
    simp only [Writer.call, Writer.Flush] at ran
    split at ran
    · simp only [Option.map_some', Option.some.injEq, Prod.mk.injEq] at ran
      rw [← ran.1]
      exact ⟨[], [], by simpa using sent, accepts, by simp [Call.input], fun _ => rfl⟩
    · obtain ⟨⟨sw'', err⟩, inner, rest⟩ := Option.map_eq_some'.mp ran
      obtain ⟨⟨sw₂, n₂, e₂⟩, inner, flushed⟩ := Option.map_eq_some'.mp inner
      simp only [Prod.mk.injEq] at rest flushed
      rw [← rest.1, ← flushed.1] at fewChunks ⊢
      obtain ⟨ds, sent', accepts', flat⟩ := write_sends sent accepts room inner fewChunks
      exact ⟨ds, [], sent'.markFlushed, accepts', by simpa [Call.input, Writer.markFlushed] using flat,
        fun _ => rfl⟩
  | readFrom r =>
    obtain ⟨⟨sw'', r', n', e'⟩, inner, rest⟩ := Option.map_eq_some'.mp ran
    simp only [Prod.mk.injEq] at rest
    obtain ⟨rfl, -, -⟩ := rest
    obtain ⟨ds, sent', accepts', flat, drained⟩ := readFrom_sends Source.read_bounded
      Source.read_readsFrom Source.read_drains sent accepts room inner fewChunks
    exact ⟨ds, r'.data, sent', accepts', flat, drained⟩

theorem run_sends {calls : List Call} (sent : Sent writes₀ sw a cs)
    (accepts : sw.writer.AcceptsAll) (room : sw.pending.length < payloadSizeMask)
    (ran : sw.run calls = some sw')
    (fewChunks : sw'.writer.writes.length < writes₀.length + 2 ^ (8 * a.nonceSize - 1)) :
    ∃ ds, Sent writes₀ sw' a (cs ++ ds) ∧
      ((∀ c ∈ calls, c.Clean) →
        ds.flatten ++ sw'.pending = sw.pending ++ (calls.map Call.input).flatten) := by
  induction calls generalizing sw cs with
  | nil =>
    simp only [Writer.run, Option.some.injEq] at ran
    subst ran
    exact ⟨[], by simpa using sent, fun _ => by simp⟩
  | cons c calls ih =>
    simp only [Writer.run] at ran
    rcases step : sw.call c with _ | ⟨sw₁, n₁, e₁⟩ <;> rw [step] at ran
    · simp at ran
    · have later : sw₁.Grows sw' := run_grows_of_calls ran
      obtain ⟨ds, rest, sent₁, accepts₁, flat, cleanCall⟩ :=
        call_sends sent accepts room step (by have := later.1; omega)
      obtain ⟨es, sent', flat'⟩ := ih sent₁ accepts₁ (call_pending_lt room step) ran
      refine ⟨ds ++ es, by simpa using sent', fun clean => ?_⟩
      obtain rfl := cleanCall (clean c (List.mem_cons_self _ _))
      have rest := flat' fun c' member => clean c' (List.mem_cons_of_mem _ member)
      calc (ds ++ es).flatten ++ sw'.pending
          = ds.flatten ++ (es.flatten ++ sw'.pending) := by simp
        _ = ds.flatten ++ sw₁.pending ++ (calls.map Call.input).flatten := by rw [rest]; simp
        _ = sw.pending ++ ((c :: calls).map Call.input).flatten := by
          rw [← List.append_nil (ds.flatten ++ sw₁.pending), flat]; simp

end Ready

/-! ### From a fresh writer -/

theorem run_unready_sends {writes₀ : List (List UInt8)} {sw sw' : Writer} {calls : List Call}
    (unready : sw.aead = none) (quiet : sw.writer.writes = writes₀) (idle : sw.pending = [])
    (accepts : sw.writer.AcceptsAll) (ran : sw.run calls = some sw')
    (fewChunks : ∀ a, sw'.aead = some a →
      sw'.writer.writes.length < writes₀.length + 2 ^ (8 * a.nonceSize - 1)) :
    (sw'.aead = none ∧ sw'.writer.writes = writes₀) ∨ ∃ a cs, Sent writes₀ sw' a cs := by
  induction calls generalizing sw with
  | nil =>
    simp only [Writer.run, Option.some.injEq] at ran
    subst ran
    exact Or.inl ⟨unready, quiet⟩
  | cons c calls ih =>
    simp only [Writer.run] at ran
    rcases step : sw.call c with _ | ⟨sw₁, n₁, e₁⟩ <;> rw [step] at ran
    · simp at ran
    · rcases call_unready unready step with ⟨unset, writer, pending⟩ | ⟨sw₀, a, setup, step₀⟩
      · exact ih unset (by rw [writer, quiet]) (by rw [pending, idle]) (by rw [writer]; exact accepts)
          ran
      · have sent₀ : Sent writes₀ sw₀ a [] := quiet ▸ init_sent unready setup
        have writer₀ : sw₀.writer = sw.writer := by rw [← init_writer sw, setup]
        have pending₀ : sw₀.pending = sw.pending := by rw [← init_pending sw, setup]
        have ran₀ : sw₀.run (c :: calls) = some sw' := by
          simp only [Writer.run, step₀]; exact ran
        have final : sw'.aead = some a := (run_grows_of_calls ran₀).2.1 a sent₀.aead
        obtain ⟨ds, sent', -⟩ := run_sends sent₀ (writer₀ ▸ accepts)
          (by rw [pending₀, idle]; exact payloadSizeMask_pos) ran₀ (fewChunks a final)
        exact Or.inr ⟨a, [] ++ ds, sent'⟩

/-- Over an inner writer that takes everything, every history sends nothing or the salt the
AEAD came from and then one frame per chunk, chunk `i` sealed under nonces `2 * i` and
`2 * i + 1`. -/
theorem writer_sends_salt_then_frames {sink : Sink} {c : Cipher} {rand : ByteStream}
    {calls : List Call} {sw : Writer} (accepts : sink.AcceptsAll)
    (ran : (newShadowsocksWriter sink c rand).run calls = some sw)
    (fewChunks : ∀ a, sw.aead = some a →
      sw.writer.writes.length < sink.writes.length + 2 ^ (8 * a.nonceSize - 1)) :
    (sw.aead = none ∧ sw.writer.writes = sink.writes) ∨
      ∃ a cs, sw.aead = some a ∧ c.encrypter sw.salt = .ok a ∧ sw.salt.length = c.saltSize ∧
        (∀ chunk ∈ cs, ValidChunk chunk) ∧ sw.writer.writes = sink.writes ++ wire sw.salt a cs ∧
        sw.counter = leBytes a.nonceSize (2 * cs.length) := by
  have cipher : sw.ssCipher = c := (run_grows_of_calls ran).2.2
  rcases run_unready_sends rfl rfl rfl accepts ran fewChunks with quiet | ⟨a, cs, sent⟩
  · exact Or.inl quiet
  · exact Or.inr ⟨a, cs, sent.aead, cipher ▸ sent.derived, cipher ▸ sent.saltLen, sent.valid,
      sent.writes, sent.counter⟩

theorem writer_sends_salt_then_frames_twice :
    ∃ sw, Sink.AcceptsAll ⟨[], fun _ => (none, none)⟩ ∧
      (newShadowsocksWriter ⟨[], fun _ => (none, none)⟩ (Cipher.tagging 2 1) ⟨[7, 8, 9], .eof⟩).run
        [.lazyWrite [1, 2], .write [3]] = some sw ∧
      (∀ a, sw.aead = some a → sw.writer.writes.length < 0 + 2 ^ (8 * a.nonceSize - 1)) ∧
      ((sw.aead = none ∧ sw.writer.writes = []) ∨
      ∃ a cs, sw.aead = some a ∧ (Cipher.tagging 2 1).encrypter sw.salt = .ok a ∧
        sw.salt.length = (Cipher.tagging 2 1).saltSize ∧
        (∀ chunk ∈ cs, ValidChunk chunk) ∧ sw.writer.writes = [] ++ wire sw.salt a cs ∧
        sw.counter = leBytes a.nonceSize (2 * cs.length)) :=
  have accepts : Sink.AcceptsAll ⟨[], fun _ => (none, none)⟩ := fun _ => rfl
  have ran : (newShadowsocksWriter ⟨[], fun _ => (none, none)⟩ (Cipher.tagging 2 1)
      ⟨[7, 8, 9], .eof⟩).run [.lazyWrite [1, 2], .write [3]] = some _ := rfl
  have fewChunks : ∀ a, _ := fun a (set : some (Aead.tagging 1) = some a) => by
    cases set; decide
  ⟨_, accepts, ran, fewChunks, writer_sends_salt_then_frames accepts ran fewChunks⟩

/-! ### Where the calls miss their contract -/

/-- `ReadFrom` over a source whose first `Read` returns a byte together with a non-EOF
error, then a byte, then `io.EOF`: the pass that emits the first byte overwrites the
`Read` error with the inner writer's `nil`, and the call reports two bytes and no error. -/
theorem ReadFrom_loses_read_error :
    ((newShadowsocksWriter ⟨[], fun _ => (none, none)⟩ (Cipher.tagging 2 1) ⟨[7, 8], .eof⟩).ReadFrom
        ⟨[([1], some (.external 5)), ([2], none)], .eof⟩).map (fun result => result.2) =
      some (2, none) := rfl

/-- `write` as its two steps on the shared fields: `sw.byteWrapper.Reset(p)`, then
`readFrom(&sw.byteWrapper, mode)`, which reads the field as it stands by then. -/
def Writer.writeRest (sw : Writer) (fuel : Nat) (mode : Mode) :
    Option (Writer × Nat × Option Err) :=
  (sw.readFrom bytesRead fuel sw.byteWrapper mode).map fun (sw, r, n, err) => (sw.reset r, n, err)

theorem write_eq_reset_writeRest (sw : Writer) (p : List UInt8) (mode : Mode) :
    sw.write p mode = (sw.reset p).writeRest (p.length + 2) mode := rfl

/-- A `Flush()` between the two steps of `Write([2])` sends the pending byte and empties
`byteWrapper`, so the write sends nothing and returns `(0, nil)`: byte `2` is lost. -/
theorem flush_between_write_steps_drops_write :
    (((newShadowsocksWriter ⟨[], fun _ => (none, none)⟩ (Cipher.tagging 2 1)
        ⟨[7, 8], .eof⟩).LazyWrite [1]).bind fun (lazy, _) =>
      (lazy.reset [2]).Flush.bind fun (flushed, _) => flushed.writeRest ([2].length + 2) .normal).map
        (fun (final, n, err) => (final.writer.writes, n, err)) =
      some ([[7, 8, 0, 1, 0, 1, 1]], 0, none) := rfl

end Shadowsocks
