import Shadowsocks.History
import Shadowsocks.ReaderSpec

/-!
The two directions of shadowsocks/stream.go composed: what a reader made by
`NewShadowsocksReader` gets from the bytes a writer made by `NewShadowsocksWriter` handed
its inner writer. On the writer's side, every history of calls sends chunks that, with
the bytes it still holds, are every byte the calls handed over; only the `LazyWrite` calls
since the last `Write`, `Flush` or `ReadFrom` leave bytes held. On the reader's side, the
salt and the frames of those chunks read back as the chunks and then a clean `io.EOF`.
-/

namespace Shadowsocks

/-- What stays held after a call, given what was held before: a `LazyWrite(p)` may hold
back part of it and `p`; a `Write`, a `Flush` or a `ReadFrom` sends everything. -/
def Call.holds (held : List UInt8) : Call → List UInt8
  | .lazyWrite p => held ++ p
  | _ => []

/-- The bytes of the `LazyWrite` calls since the last `Write`, `Flush` or `ReadFrom`. -/
def lazyTail (calls : List Call) : List UInt8 := calls.foldl Call.holds []

theorem Call.holds_suffix {l₁ l₂ : List UInt8} (c : Call) (suffix : l₁ <:+ l₂) :
    c.holds l₁ <:+ c.holds l₂ := by
  cases c with
  | lazyWrite p =>
    obtain ⟨t, rfl⟩ := suffix
    exact ⟨t, by simp [Call.holds]⟩
  | _ => exact List.suffix_refl _

/-! ### What the writer holds back -/

section Held
variable {sw sw' : Writer} {a : Aead} {n : Nat} {e : Option Err}

theorem write_holds {p : List UInt8} {mode : Mode} (ready : sw.aead = some a)
    (accepts : sw.writer.AcceptsAll) (room : sw.pending.length < payloadSizeMask)
    (ran : sw.write p mode = some (sw', n, e)) :
    sw'.pending <:+ sw.pending ++ p ∧ (mode ≠ .lazy → sw'.pending = []) ∧
      sw'.flushDone = (if mode = .normal then true else sw.flushDone) := by
  obtain ⟨⟨sw₁, r, n₁, e₁⟩, inner, rest⟩ := Option.map_eq_some'.mp ran
  obtain ⟨rfl, -, -⟩ := Prod.mk.inj rest
  have ready' : (sw.reset p).aead = some a := ready
  have accepts' : (sw.reset p).writer.AcceptsAll := accepts
  have room' : (sw.reset p).pending.length < payloadSizeMask := room
  obtain ⟨ds, -, shape, flat, -, flushed⟩ :=
    readFrom_emits bytesRead_bounded bytesRead_readsFrom ready' accepts' room' inner
  have drained : r = [] := readFrom_drains bytesRead_drains ready' accepts' trivial inner
  subst drained
  refine ⟨⟨ds.flatten, by simpa [Writer.reset] using flat⟩, flushed, ?_⟩
  rw [shape]
  by_cases normal : mode = .normal <;> simp [normal, Writer.reset, Writer.markFlushed]

theorem call_holds {c : Call} (ready : sw.aead = some a) (accepts : sw.writer.AcceptsAll)
    (room : sw.pending.length < payloadSizeMask) (done : sw.flushDone = true → sw.pending = [])
    (ran : sw.call c = some (sw', n, e)) :
    sw'.pending <:+ c.holds sw.pending ∧ (sw'.flushDone = true → sw'.pending = []) := by
  cases c with
  | write p =>
    obtain ⟨-, sent, -⟩ := write_holds ready accepts room ran
    have empty := sent nofun
    exact ⟨by simp [empty, Call.holds], fun _ => empty⟩
  | lazyWrite p =>
    have ready' : sw.resetFlush.aead = some a := ready
    obtain ⟨held, -, fresh⟩ := write_holds ready' accepts room ran
    exact ⟨held, fun flushed => absurd (fresh.symm.trans flushed) (by simp [Writer.resetFlush])⟩
  | flush =>
    simp only [Writer.call, Writer.Flush] at ran
    split at ran
    · next flushed =>
      simp only [Option.map_some', Option.some.injEq, Prod.mk.injEq] at ran
      rw [← ran.1, done flushed]
      exact ⟨List.nil_suffix, fun _ => rfl⟩
    · obtain ⟨⟨sw₂, e₂⟩, flushed, rest⟩ := Option.map_eq_some'.mp ran
      obtain ⟨rfl, -, -⟩ := Prod.mk.inj rest
      obtain ⟨⟨sw₁, n₁, e₁⟩, inner, rest⟩ := Option.map_eq_some'.mp flushed
      obtain ⟨rfl, -⟩ := Prod.mk.inj rest
      have empty := (write_holds ready accepts room inner).2.1 nofun
      exact ⟨by simp [Writer.markFlushed, empty, Call.holds], fun _ => empty⟩
  | readFrom r =>
    obtain ⟨⟨sw₁, r', n₁, e₁⟩, inner, rest⟩ := Option.map_eq_some'.mp ran
    obtain ⟨rfl, -, -⟩ := Prod.mk.inj rest
    obtain ⟨-, -, -, -, -, flushed⟩ :=
      readFrom_emits Source.read_bounded Source.read_readsFrom ready accepts room inner
    have empty := flushed nofun
    exact ⟨by simp [empty, Call.holds], fun _ => empty⟩

theorem run_holds {writes₀ : List (List UInt8)} {cs : List (List UInt8)} {calls : List Call}
    {held : List UInt8} (sent : Sent writes₀ sw a cs) (accepts : sw.writer.AcceptsAll)
    (room : sw.pending.length < payloadSizeMask) (done : sw.flushDone = true → sw.pending = [])
    (suffix : sw.pending <:+ held) (ran : sw.run calls = some sw')
    (fewChunks : sw'.writer.writes.length < writes₀.length + 2 ^ (8 * a.nonceSize - 1)) :
    sw'.pending <:+ calls.foldl Call.holds held := by
  induction calls generalizing sw cs held with
  | nil =>
    simp only [Writer.run, Option.some.injEq] at ran
    subst ran
    exact suffix
  | cons c calls ih =>
    simp only [Writer.run] at ran
    rcases step : sw.call c with _ | ⟨sw₁, n₁, e₁⟩ <;> rw [step] at ran
    · simp at ran
    · have later : sw₁.Grows sw' := run_grows_of_calls ran
      obtain ⟨ds, rest, sent₁, accepts₁, -, -⟩ :=
        call_sends sent accepts room step (by have := later.1; omega)
      obtain ⟨held₁, done₁⟩ := call_holds sent.aead accepts room done step
      exact ih sent₁ accepts₁ (call_pending_lt room step) done₁
        (held₁.trans (c.holds_suffix suffix)) ran

theorem call_of_init {sw₁ : Writer} (ok : sw.init = (sw₁, .ok a)) (fresh : sw.flushDone = false)
    (c : Call) : sw.call c = sw₁.call c := by
  cases c with
  | write p => exact Write_init p ok
  | lazyWrite p => exact LazyWrite_init p ok
  | flush => simp only [Writer.call, Flush_init ok fresh]
  | readFrom r => exact ReadFrom_init r ok

end Held

theorem fresh_run_sends {sink : Sink} {c : Cipher} {rand : ByteStream} {calls : List Call}
    {sw₁ sw : Writer} {a : Aead} (accepts : sink.AcceptsAll)
    (setup : (newShadowsocksWriter sink c rand).init = (sw₁, .ok a))
    (clean : ∀ call ∈ calls, call.Clean)
    (ran : (newShadowsocksWriter sink c rand).run calls = some sw)
    (fewChunks : sw.writer.writes.length < sink.writes.length + 2 ^ (8 * a.nonceSize - 1)) :
    ∃ salt cs, c.encrypter salt = .ok a ∧ salt.length = c.saltSize ∧
      (∀ chunk ∈ cs, ValidChunk chunk) ∧ sw.writer.writes = sink.writes ++ wire salt a cs ∧
      cs.flatten ++ sw.pending = (calls.map Call.input).flatten ∧ sw.pending <:+ lazyTail calls := by
  have sent₀ : Sent sink.writes sw₁ a [] := init_sent rfl setup
  have cipher₁ := init_ssCipher (newShadowsocksWriter sink c rand)
  have accepts₁ := init_writer (newShadowsocksWriter sink c rand)
  have idle₁ := init_pending (newShadowsocksWriter sink c rand)
  have fresh₁ := init_flushDone (newShadowsocksWriter sink c rand)
  rw [setup] at cipher₁ accepts₁ idle₁ fresh₁
  dsimp only [newShadowsocksWriter] at cipher₁ accepts₁ idle₁ fresh₁
  have room₁ : sw₁.pending.length < payloadSizeMask := by rw [idle₁]; exact payloadSizeMask_pos
  replace accepts₁ : sw₁.writer.AcceptsAll := accepts₁ ▸ accepts
  cases calls with
  | nil =>
    simp only [Writer.run, Option.some.injEq] at ran
    subst ran
    exact ⟨sw₁.salt, [], cipher₁ ▸ sent₀.derived, cipher₁ ▸ sent₀.saltLen, nofun,
      by simp [wire, newShadowsocksWriter], rfl, List.suffix_refl _⟩
  | cons call calls =>
    have ran₁ : sw₁.run (call :: calls) = some sw := by
      rw [← ran]
      simp only [Writer.run, call_of_init setup rfl call]
    obtain ⟨ds, sent, flat⟩ := run_sends sent₀ accepts₁ room₁ ran₁ fewChunks
    have held := run_holds sent₀ accepts₁ room₁ (by simp [fresh₁])
      (by simp only [idle₁, List.nil_suffix] : sw₁.pending <:+ []) ran₁ fewChunks
    have cipher : sw.ssCipher = c := (run_grows_of_calls ran₁).2.2.trans cipher₁
    exact ⟨sw.salt, ds, cipher ▸ sent.derived, cipher ▸ sent.saltLen, sent.valid,
      by simpa using sent.writes,
      by simpa [idle₁] using flat clean, held⟩

/-! ### Reading back everything -/

theorem frameCut_whole (a : Aead) (i : Nat) (cs : List (List UInt8)) :
    frameCut a cs (frames a i cs).flatten.length = (cs, .eof) := by
  induction cs generalizing i with
  | nil => rfl
  | cons c cs ih =>
    rw [length_flatten_frames_cons, frameCut, if_neg (by omega), if_neg (by omega),
      Nat.add_sub_cancel_left, ih]

theorem wire_flatten (salt : List UInt8) (a : Aead) (cs : List (List UInt8)) :
    (wire salt a cs).flatten =
        (salt ++ (frames a 0 cs).flatten).take (wire salt a cs).flatten.length ∧
      streamCut salt.length a cs (wire salt a cs).flatten.length = (cs, .eof) := by
  cases cs with
  | nil => exact ⟨rfl, rfl⟩
  | cons c cs =>
    have whole : (wire salt a (c :: cs)).flatten = salt ++ (frames a 0 (c :: cs)).flatten := by
      simp [wire]
    rw [whole, List.take_length, List.length_append, streamCut_of_le _ (Nat.le_add_right _ _),
      Nat.add_sub_cancel_left, frameCut_whole]
    exact ⟨rfl, rfl⟩

/-! ### The round trip -/

/-- Round trip: reading what a writer whose `init` succeeds sent delivers every byte the calls
passed in, but what trailing `LazyWrite` calls left pending, and then a clean `io.EOF`. -/
theorem shadowsocks_round_trip {sink : Sink} {c : Cipher} {rand : ByteStream}
    {calls : List Call} {sw₁ sw : Writer} {a : Aead} (matched : c.Matched)
    (accepts : sink.AcceptsAll) (setup : (newShadowsocksWriter sink c rand).init = (sw₁, .ok a))
    (clean : ∀ call ∈ calls, call.Clean)
    (ran : (newShadowsocksWriter sink c rand).run calls = some sw)
    (fewChunks : sw.writer.writes.length < sink.writes.length + 2 ^ (8 * a.nonceSize - 1)) :
    ∃ cs : List (List UInt8),
      cs.flatten ++ sw.pending = (calls.map Call.input).flatten ∧ sw.pending <:+ lazyTail calls ∧
      (∀ m, readChunks ChunkReader.ReadChunk m
          (newChunkReader ⟨(sw.writer.writes.drop sink.writes.length).flatten, .eof⟩ c) =
        (cs.map Except.ok ++ Except.error Err.eof ::
          List.replicate m (Except.error Err.eof)).take m) ∧
      (∀ ns : List Nat, ∃ cv outcomes,
        (newShadowsocksReader ⟨(sw.writer.writes.drop sink.writes.length).flatten, .eof⟩ c).run
          ChunkReader.ReadChunk Converter.budget (ns.map .read) = some (cv, outcomes) ∧
        ReadsOut cs.flatten .eof ns outcomes) ∧
      (∀ w : Sink, w.AcceptsAll → ∃ cv w',
        (newShadowsocksReader ⟨(sw.writer.writes.drop sink.writes.length).flatten, .eof⟩ c).WriteTo
          ChunkReader.ReadChunk (newShadowsocksReader
            ⟨(sw.writer.writes.drop sink.writes.length).flatten, .eof⟩ c).budget w =
          some (cv, w', cs.flatten.length, none) ∧
        (w'.writes.drop w.writes.length).flatten = cs.flatten) ∧
      ∀ rcalls : List ReaderCall, (∀ w, ReaderCall.writeTo w ∈ rcalls → w.Progresses) →
        ∃ cv dv outcomes,
          (newShadowsocksReader ⟨(sw.writer.writes.drop sink.writes.length).flatten, .eof⟩ c).run
            ChunkReader.ReadChunk Converter.budget rcalls = some (cv, outcomes) ∧
          (⟨⟨cs, .eof⟩, []⟩ : Converter ChunkSource).run ChunkSource.readChunk
            Converter.sourceBudget rcalls = some (dv, outcomes) := by
  obtain ⟨salt, cs, derived, saltLen, valid, writes, flat, held⟩ :=
    fresh_run_sends accepts setup clean ran fewChunks
  have sent : (sw.writer.writes.drop sink.writes.length).flatten = (wire salt a cs).flatten := by
    rw [writes, List.drop_left]
  rw [sent]
  obtain ⟨stream, whole⟩ := wire_flatten salt a cs
  have fresh : Reads a (newChunkReader ⟨(wire salt a cs).flatten, .eof⟩ c)
      ⟨(streamCut salt.length a cs (wire salt a cs).flatten.length).1,
        (streamCut salt.length a cs (wire salt a cs).flatten.length).2⟩ :=
    .fresh rfl matched derived saltLen (by rw [← stream]; rfl) valid
  rw [whole] at fresh
  have observes := fresh.observes
  have mirrors : Mirrors ChunkSource.readChunk ChunkReader.ReadChunk ⟨⟨cs, .eof⟩, []⟩
      (newShadowsocksReader ⟨(wire salt a cs).flatten, .eof⟩ c) := ⟨observes.symm, rfl⟩
  exact ⟨cs, by simpa using flat, held, fun m => (observes m).trans (readChunks_source _ _ m),
    reads_of_mirrors mirrors fun p mem => List.ne_nil_of_length_pos (valid p mem).1⟩

theorem round_trip_of_lazy_write_write_lazy_write :
    ∃ sw₁ sw : Writer, (Cipher.tagging 2 1).Matched ∧ Sink.AcceptsAll ⟨[], fun _ => (none, none)⟩ ∧
      (newShadowsocksWriter ⟨[], fun _ => (none, none)⟩ (Cipher.tagging 2 1) ⟨[7, 8], .eof⟩).init =
        (sw₁, .ok (Aead.tagging 1)) ∧
      (∀ call ∈ [Call.lazyWrite [1, 2], .write [3], .lazyWrite [4]], call.Clean) ∧
      (newShadowsocksWriter ⟨[], fun _ => (none, none)⟩ (Cipher.tagging 2 1) ⟨[7, 8], .eof⟩).run
        [.lazyWrite [1, 2], .write [3], .lazyWrite [4]] = some sw ∧
      sw.writer.writes.length < ([] : List (List UInt8)).length + 2 ^ (8 * (Aead.tagging 1).nonceSize - 1) ∧
      ∃ cs : List (List UInt8),
        cs.flatten ++ sw.pending =
          ([Call.lazyWrite [1, 2], .write [3], .lazyWrite [4]].map Call.input).flatten ∧
        sw.pending <:+ lazyTail [.lazyWrite [1, 2], .write [3], .lazyWrite [4]] ∧
        (∀ m, readChunks ChunkReader.ReadChunk m
            (newChunkReader ⟨(sw.writer.writes.drop ([] : List (List UInt8)).length).flatten, .eof⟩
              (Cipher.tagging 2 1)) =
          (cs.map Except.ok ++ Except.error Err.eof ::
            List.replicate m (Except.error Err.eof)).take m) ∧
        (∀ ns : List Nat, ∃ cv outcomes,
          (newShadowsocksReader ⟨(sw.writer.writes.drop ([] : List (List UInt8)).length).flatten, .eof⟩
            (Cipher.tagging 2 1)).run ChunkReader.ReadChunk Converter.budget (ns.map .read) =
              some (cv, outcomes) ∧
          ReadsOut cs.flatten .eof ns outcomes) ∧
        (∀ w : Sink, w.AcceptsAll → ∃ cv w',
          (newShadowsocksReader ⟨(sw.writer.writes.drop ([] : List (List UInt8)).length).flatten, .eof⟩
            (Cipher.tagging 2 1)).WriteTo ChunkReader.ReadChunk (newShadowsocksReader
              ⟨(sw.writer.writes.drop ([] : List (List UInt8)).length).flatten, .eof⟩
              (Cipher.tagging 2 1)).budget w =
            some (cv, w', cs.flatten.length, none) ∧
          (w'.writes.drop w.writes.length).flatten = cs.flatten) ∧
        ∀ rcalls : List ReaderCall, (∀ w, ReaderCall.writeTo w ∈ rcalls → w.Progresses) →
          ∃ cv dv outcomes,
            (newShadowsocksReader ⟨(sw.writer.writes.drop ([] : List (List UInt8)).length).flatten, .eof⟩
              (Cipher.tagging 2 1)).run ChunkReader.ReadChunk Converter.budget rcalls =
                some (cv, outcomes) ∧
            (⟨⟨cs, .eof⟩, []⟩ : Converter ChunkSource).run ChunkSource.readChunk
              Converter.sourceBudget rcalls = some (dv, outcomes) :=
  have accepts : Sink.AcceptsAll ⟨[], fun _ => (none, none)⟩ := fun _ => rfl
  have setup : (newShadowsocksWriter ⟨[], fun _ => (none, none)⟩ (Cipher.tagging 2 1)
      ⟨[7, 8], .eof⟩).init = (_, .ok (Aead.tagging 1)) := rfl
  have clean : ∀ call ∈ [Call.lazyWrite [1, 2], .write [3], .lazyWrite [4]], call.Clean := by
    simp only [List.forall_mem_cons]
    exact ⟨trivial, trivial, trivial, nofun⟩
  have ran : (newShadowsocksWriter ⟨[], fun _ => (none, none)⟩ (Cipher.tagging 2 1)
      ⟨[7, 8], .eof⟩).run [.lazyWrite [1, 2], .write [3], .lazyWrite [4]] = some _ := rfl
  have fewChunks : _ < ([] : List (List UInt8)).length + 2 ^ (8 * (Aead.tagging 1).nonceSize - 1) := by decide
  ⟨_, _, Cipher.tagging_matched 2 1, accepts, setup, clean, ran, fewChunks,
    shadowsocks_round_trip (Cipher.tagging_matched 2 1) accepts setup clean ran fewChunks⟩

/-- A writer whose `crypto/rand` fails: `Write([1])` returns the salt's error and sends
nothing, so the reader hands out nothing and reports `io.EOF`, not the byte written. -/
theorem round_trip_loses_write_when_salt_fails :
    ∃ sw cv, (Cipher.tagging 2 1).Matched ∧ Sink.AcceptsAll ⟨[], fun _ => (none, none)⟩ ∧
      (newShadowsocksWriter ⟨[], fun _ => (none, none)⟩ (Cipher.tagging 2 1)
        ⟨[], .external 7⟩).call (.write [1]) =
          some (sw, 0, some (.wrap "failed to generate salt" (.external 7))) ∧
      sw.writer.writes = [] ∧
      (newShadowsocksReader ⟨sw.writer.writes.flatten, .eof⟩ (Cipher.tagging 2 1)).run
        ChunkReader.ReadChunk Converter.budget [.read 10] = some (cv, [⟨[], 0, some .eof⟩]) ∧
      handedOut [⟨[], 0, some .eof⟩] ≠ ([Call.write [1]].map Call.input).flatten :=
  ⟨_, _, Cipher.tagging_matched 2 1, fun _ => rfl, rfl, rfl, rfl, by decide⟩

end Shadowsocks
