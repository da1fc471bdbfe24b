import Shadowsocks.WriterCalls

/-!
The pending invariant of `shadowsocksWriter` and the termination of its loop. Every
source the writer reads from hands back at most the bytes it was asked for; from that,
one pass keeps the buffer below a full chunk at the loop head, every history of calls
does so at the call boundaries, and the loop over a `bytes.Reader` returns within
`len(p) + 2` passes whatever the inner writer replies. Over a source for `ReadFrom` it
returns within the source's budget, so every history of calls returns.
-/

namespace Shadowsocks

def ReadBounded {σ : Type} (read : σ → Nat → (List UInt8 × Option Err) × σ) : Prop :=
  ∀ s n, (read s n).1.1.length ≤ n

theorem bytesRead_bounded : ReadBounded bytesRead := by
  intro s n
  unfold bytesRead
  split <;> simp [Nat.min_le_left]

theorem Source.read_bounded : ReadBounded Source.read := by
  intro r n
  unfold Source.read
  split
  · simp
  · split
    · assumption
    · simp [Nat.min_le_left]

section Step
variable {σ : Type} {read : σ → Nat → (List UInt8 × Option Err) × σ} {mode : Mode} {a : Aead}

theorem step_pending (l : Loop σ) :
    (l.step read mode a).1.sw.pending =
      if (l.sw.pending ++ (read l.r (payloadSizeMask - l.sw.pending.length)).1.1).length =
          payloadSizeMask ∨
        (mode ≠ .lazy ∧
          0 < (l.sw.pending ++ (read l.r (payloadSizeMask - l.sw.pending.length)).1.1).length)
      then [] else l.sw.pending ++ (read l.r (payloadSizeMask - l.sw.pending.length)).1.1 := by
  simp only [Loop.step, buffer_eq, withPending_pending]
  split <;> rfl

theorem read_fits (bounded : ReadBounded read) (l : Loop σ)
    (room : l.sw.pending.length < payloadSizeMask) :
    (l.sw.pending ++ (read l.r (payloadSizeMask - l.sw.pending.length)).1.1).length ≤
      payloadSizeMask := by
  have := bounded l.r (payloadSizeMask - l.sw.pending.length)
  simp only [List.length_append]
  omega

theorem step_pending_lt (bounded : ReadBounded read) (l : Loop σ)
    (room : l.sw.pending.length < payloadSizeMask) :
    (l.step read mode a).1.sw.pending.length < payloadSizeMask := by
  have fits := read_fits bounded l room
  rw [step_pending]
  split
  · exact payloadSizeMask_pos
  · next full => omega

theorem Loop.run_preserves (P : Loop σ → Prop) (step : ∀ l, P l → P (l.step read mode a).1)
    {fuel : Nat} {l l' : Loop σ} {e : Option Err} (holds : P l)
    (ran : Loop.run read mode a fuel l = some (l', e)) : P l' := by
  induction fuel generalizing l with
  | zero => simp [Loop.run] at ran
  | succ fuel ih =>
    have next := step l holds
    rw [Loop.run] at ran
    rcases pass : l.step read mode a with ⟨l₁, _ | _ | _⟩ <;> rw [pass] at ran next <;>
      first
      | exact ih next ran
      | (simp only [Option.some.injEq, Prod.mk.injEq] at ran; rw [← ran.1]; exact next)

theorem run_pending_lt (bounded : ReadBounded read) {fuel : Nat} {l l' : Loop σ}
    {e : Option Err} (room : l.sw.pending.length < payloadSizeMask)
    (ran : Loop.run read mode a fuel l = some (l', e)) :
    l'.sw.pending.length < payloadSizeMask :=
  Loop.run_preserves (fun l => l.sw.pending.length < payloadSizeMask) (step_pending_lt bounded)
    room ran

theorem readFrom_pending_lt (bounded : ReadBounded read) {fuel : Nat} {sw sw' : Writer}
    {r r' : σ} {n : Nat} {e : Option Err} (room : sw.pending.length < payloadSizeMask)
    (ran : sw.readFrom read fuel r mode = some (sw', r', n, e)) :
    sw'.pending.length < payloadSizeMask := by
  rcases readFrom_cases ran with ⟨e₁, failed⟩ | ⟨sw₁, a, l, e', ok, loop, rfl⟩
  · rw [← show sw.init.1 = sw' by rw [failed], init_pending]
    exact room
  · refine run_pending_lt bounded ?_ loop
    have : sw₁.pending = sw.pending := by rw [← init_pending sw, ok]
    split <;> simpa [Writer.markFlushed, this] using room

end Step

section Calls
variable {sw sw' : Writer}

theorem Writer.call_preserves (P : Writer → Prop) (reset : ∀ sw p, P sw → P (sw.reset p))
    (resetFlush : ∀ sw, P sw → P sw.resetFlush) (markFlushed : ∀ sw, P sw → P sw.markFlushed)
    (readFrom : ∀ {σ : Type} {read : σ → Nat → (List UInt8 × Option Err) × σ} {fuel : Nat}
      {sw sw' : Writer} {r r' : σ} {mode : Mode} {n : Nat} {e : Option Err}, ReadBounded read →
      P sw → sw.readFrom read fuel r mode = some (sw', r', n, e) → P sw')
    {c : Call} {n : Nat} {e : Option Err} (holds : P sw) (ran : sw.call c = some (sw', n, e)) :
    P sw' := by
  have write {sw sw' : Writer} {p : List UInt8} {mode : Mode} {n : Nat} {e : Option Err}
      (holds : P sw) (ran : sw.write p mode = some (sw', n, e)) : P sw' := by
    obtain ⟨⟨sw'', r, n', e'⟩, inner, rest⟩ := Option.map_eq_some'.mp ran
    obtain ⟨rfl, -, -⟩ := Prod.mk.inj_iff.mp rest
    exact reset _ _ (readFrom bytesRead_bounded (reset _ _ holds) inner)
  cases c with
  | write p => exact write holds ran
  | lazyWrite p => exact write (resetFlush _ holds) ran
  | flush =>
    simp only [Writer.call, Writer.Flush] at ran
    split at ran
    · simp only [Option.map_some', Option.some.injEq, Prod.mk.injEq] at ran
      rw [← ran.1]; exact holds
    · obtain ⟨⟨sw'', err⟩, inner, rest⟩ := Option.map_eq_some'.mp ran
      obtain ⟨⟨sw₂, n₂, e₂⟩, inner, flushed⟩ := Option.map_eq_some'.mp inner
      simp only [Prod.mk.injEq] at rest flushed
      rw [← rest.1, ← flushed.1]
      exact markFlushed _ (write holds inner)
  | readFrom r =>
    obtain ⟨⟨sw'', r', n', e'⟩, inner, rest⟩ := Option.map_eq_some'.mp ran
    obtain ⟨rfl, -, -⟩ := Prod.mk.inj_iff.mp rest
    exact readFrom Source.read_bounded holds inner

theorem Writer.run_preserves (P : Writer → Prop)
    (call : ∀ {sw sw' : Writer} {c : Call} {n : Nat} {e : Option Err}, P sw →
      sw.call c = some (sw', n, e) → P sw')
    {calls : List Call} (holds : P sw) (ran : sw.run calls = some sw') : P sw' := by
  induction calls generalizing sw with
  | nil => simp only [Writer.run, Option.some.injEq] at ran; rw [← ran]; exact holds
  | cons c calls ih =>
    simp only [Writer.run] at ran
    rcases step : sw.call c with _ | ⟨sw₁, n, e⟩ <;> rw [step] at ran
    · simp at ran
    · exact ih (call holds step) ran

theorem call_pending_lt {c : Call} {n : Nat} {e : Option Err}
    (room : sw.pending.length < payloadSizeMask) (ran : sw.call c = some (sw', n, e)) :
    sw'.pending.length < payloadSizeMask :=
  Writer.call_preserves (fun sw => sw.pending.length < payloadSizeMask) (fun _ _ => id)
    (fun _ => id) (fun _ => id) (fun bounded room ran => readFrom_pending_lt bounded room ran)
    room ran

theorem run_pending_lt_of_calls {calls : List Call} (room : sw.pending.length < payloadSizeMask)
    (ran : sw.run calls = some sw') : sw'.pending.length < payloadSizeMask :=
  Writer.run_preserves (fun sw => sw.pending.length < payloadSizeMask)
    (fun room ran => call_pending_lt room ran) room ran

end Calls

/-- A writer reached from `NewShadowsocksWriter` by a sequential history of calls, for any
inner writer, cipher and random source. -/
def Writer.Reachable (sw : Writer) : Prop :=
  ∃ writer ssCipher rand calls, (newShadowsocksWriter writer ssCipher rand).run calls = some sw

theorem Writer.Reachable.pending_lt {sw : Writer} (reach : sw.Reachable) :
    sw.pending.length < payloadSizeMask := by
  obtain ⟨_, _, _, _, ran⟩ := reach
  exact run_pending_lt_of_calls (show ([] : List UInt8).length < _ from payloadSizeMask_pos) ran

section Progress
variable {σ : Type} {read : σ → Nat → (List UInt8 × Option Err) × σ} {mode : Mode} {a : Aead}

theorem step_r (l : Loop σ) :
    (l.step read mode a).1.r = (read l.r (payloadSizeMask - l.sw.pending.length)).2 := by
  simp only [Loop.step]
  split <;> rfl

theorem step_written (l : Loop σ) :
    (l.step read mode a).1.written =
      l.written + (read l.r (payloadSizeMask - l.sw.pending.length)).1.1.length := by
  simp only [Loop.step]
  split <;> rfl

theorem step_bytes_consumes (l : Loop (List UInt8)) (room : l.sw.pending.length < payloadSizeMask)
    (noEof : (bytesRead l.r (payloadSizeMask - l.sw.pending.length)).1.2 ≠ some .eof) :
    (l.step bytesRead mode a).1.r.length < l.r.length := by
  rw [step_r]
  unfold bytesRead at noEof ⊢
  split
  · next empty => simp [empty] at noEof
  · next nonempty =>
    have : l.r.length ≠ 0 := by simpa using nonempty
    simp only [List.length_drop]
    omega

theorem run_bytes_isSome (fuel : Nat) (sw : Writer) (rem : List UInt8) (start written : Nat)
    (room : sw.pending.length < payloadSizeMask) (enough : rem.length + 2 ≤ fuel) :
    (Loop.run bytesRead mode a fuel ⟨sw, rem, start, written⟩).isSome := by
  induction fuel generalizing sw rem start written with
  | zero => omega
  | succ fuel ih =>
    rcases pass : Loop.step bytesRead mode a ⟨sw, rem, start, written⟩ with ⟨l₁, _ | e⟩
    · rw [run_succ_of_none fuel pass]
      have head : l₁.sw.pending.length < payloadSizeMask := by
        simpa [pass] using (step_pending_lt bytesRead_bounded ⟨sw, rem, start, written⟩ room :
          (Loop.step bytesRead mode a _).1.sw.pending.length < _)
      by_cases exhausted : rem = []
      · subst exhausted
        rw [step_bytes_nil] at pass
        split at pass
        · obtain ⟨rfl, -⟩ := Prod.mk.inj pass
          obtain ⟨fuel, rfl⟩ : ∃ f, fuel = f + 1 := ⟨fuel - 1, by omega⟩
          rw [run_bytes_idle mode (writeChunk_pending sw a start)]
          rfl
        · simp at pass
      · have shorter : (Loop.step bytesRead mode a ⟨sw, rem, start, written⟩).1.r.length <
            rem.length := step_bytes_consumes _ room (by simp [bytesRead, exhausted])
        rw [pass] at shorter
        exact ih l₁.sw l₁.r l₁.start l₁.written head (by simp only at shorter; omega)
    · rw [run_succ_of_step_error fuel pass]
      rfl

theorem write_isSome {sw : Writer} (room : sw.pending.length < payloadSizeMask)
    (p : List UInt8) (mode : Mode) : (sw.write p mode).isSome := by
  simp only [Writer.write, Option.isSome_map', Writer.readFrom, init_reset]
  rcases setup : sw.init with ⟨sw₁, _ | a⟩
  · rfl
  · have : sw₁.pending = sw.pending := by rw [← init_pending sw, setup]
    simp only [Option.isSome_map']
    exact run_bytes_isSome _ _ _ _ _ (by split <;> simpa [Writer.markFlushed, Writer.reset, this])
      le_rfl

theorem LazyWrite_isSome {sw : Writer} (room : sw.pending.length < payloadSizeMask)
    (p : List UInt8) : (sw.LazyWrite p).isSome :=
  write_isSome (show sw.resetFlush.pending.length < _ from room) p .lazy

theorem Flush_isSome {sw : Writer} (room : sw.pending.length < payloadSizeMask) :
    sw.Flush.isSome := by
  unfold Writer.Flush
  split
  · rfl
  · simpa only [Option.isSome_map'] using write_isSome room [] .flush

/-- The buffer stays below a full chunk at every call boundary and loop head, so the slice
handed to `Read` is never empty, and `Write`, `LazyWrite` and `Flush` return for every slice. -/
theorem pending_below_chunk_and_loop_terminates :
    (∀ sw : Writer, sw.Reachable → sw.pending.length < payloadSizeMask) ∧
    (∀ (σ : Type) (read : σ → Nat → (List UInt8 × Option Err) × σ), ReadBounded read →
      ∀ (mode : Mode) (a : Aead) (l : Loop σ), l.sw.pending.length < payloadSizeMask →
        0 < payloadSizeMask - l.sw.pending.length ∧
        (l.sw.pending ++ (read l.r (payloadSizeMask - l.sw.pending.length)).1.1).length ≤
          payloadSizeMask ∧
        (l.step read mode a).1.sw.pending.length < payloadSizeMask) ∧
    (∀ sw : Writer, sw.Reachable → ∀ p : List UInt8,
      (sw.Write p).isSome ∧ (sw.LazyWrite p).isSome ∧ sw.Flush.isSome) ∧
    (∀ (mode : Mode) (a : Aead) (l : Loop (List UInt8)),
      l.sw.pending.length < payloadSizeMask →
      (bytesRead l.r (payloadSizeMask - l.sw.pending.length)).1.2 ≠ some .eof →
      (l.step bytesRead mode a).1.r.length < l.r.length) :=
  ⟨fun _ reach => reach.pending_lt,
   fun _ _ bounded _ _ l room =>
    ⟨Nat.sub_pos_of_lt room, read_fits bounded l room, step_pending_lt bounded l room⟩,
   fun _ reach p =>
    ⟨write_isSome reach.pending_lt p .normal, LazyWrite_isSome reach.pending_lt p,
      Flush_isSome reach.pending_lt⟩,
   fun _ _ l room noEof => step_bytes_consumes l room noEof⟩

end Progress

theorem Source.two_le_budget (r : Source) : 2 ≤ r.budget := by
  unfold Source.budget; omega

theorem Source.read_budget_lt {r : Source} {n : Nat} (pos : 0 < n) (left : r.results ≠ []) :
    (r.read n).2.budget < r.budget := by
  rcases r with ⟨_ | ⟨⟨data, err⟩, rest⟩, final⟩
  · contradiction
  · by_cases fits : data.length ≤ n <;> simp [Source.read, Source.budget, fits] <;> omega

section Sources
variable {mode : Mode} {a : Aead}

theorem step_source_drained (l : Loop Source) (drained : l.r.results = []) :
    (l.step Source.read mode a).2 = some l.r.final ∨
      (l.step Source.read mode a).1.sw.pending = [] ∧ (l.step Source.read mode a).1.r = l.r := by
  simp only [Loop.step, Source.read, drained]
  split
  · exact .inr ⟨rfl, rfl⟩
  · exact .inl rfl

theorem step_source_idle (l : Loop Source) (idle : l.sw.pending = [])
    (drained : l.r.results = []) : (l.step Source.read mode a).2 = some l.r.final := by
  have := payloadSizeMask_pos
  simp only [Loop.step, Source.read, drained, buffer_eq, withPending_pending, idle]
  rw [if_neg (by simp; omega)]

theorem run_source_isSome (fuel : Nat) (l : Loop Source)
    (room : l.sw.pending.length < payloadSizeMask) (enough : l.r.budget ≤ fuel) :
    (Loop.run Source.read mode a fuel l).isSome := by
  induction fuel generalizing l with
  | zero => have := l.r.two_le_budget; omega
  | succ fuel ih =>
    rcases pass : l.step Source.read mode a with ⟨l₁, _ | e⟩
    · rw [run_succ_of_none fuel pass]
      by_cases drained : l.r.results = []
      · rcases @step_source_drained mode a l drained with stops | ⟨idle, same⟩
        · rw [pass] at stops; cases stops
        · rw [pass] at idle same
          obtain ⟨fuel, rfl⟩ : ∃ f, fuel = f + 1 := ⟨fuel - 1, by have := l.r.two_le_budget; omega⟩
          have stops := @step_source_idle mode a l₁ idle (same ▸ drained)
          rw [run_succ_of_step_error fuel (Prod.ext rfl stops)]
          rfl
      · have next := @step_r Source Source.read mode a l
        rw [pass] at next
        have shorter : l₁.r.budget < l.r.budget :=
          next ▸ Source.read_budget_lt (Nat.sub_pos_of_lt room) drained
        have head := @step_pending_lt Source Source.read mode a Source.read_bounded l room
        rw [pass] at head
        exact ih l₁ head (by omega)
    · rw [run_succ_of_step_error fuel pass]
      rfl

end Sources

theorem ReadFrom_isSome {sw : Writer} (room : sw.pending.length < payloadSizeMask)
    (r : Source) : (sw.ReadFrom r).isSome := by
  simp only [Writer.ReadFrom, Option.isSome_map', Writer.readFrom]
  rcases setup : sw.init with ⟨sw₁, _ | a⟩
  · rfl
  · have : sw₁.pending = sw.pending := by rw [← init_pending sw, setup]
    simp only [Option.isSome_map']
    exact run_source_isSome _ _ (by split <;> simpa [Writer.markFlushed, this]) le_rfl

theorem Writer.call_isSome {sw : Writer} (room : sw.pending.length < payloadSizeMask) :
    ∀ c : Call, (sw.call c).isSome
  | .write p => write_isSome room p .normal
  | .lazyWrite p => LazyWrite_isSome room p
  | .flush => by simpa only [Writer.call, Option.isSome_map'] using Flush_isSome room
  | .readFrom r => ReadFrom_isSome room r

theorem Writer.run_isSome {sw : Writer} (room : sw.pending.length < payloadSizeMask)
    (calls : List Call) : (sw.run calls).isSome := by
  induction calls generalizing sw with
  | nil => rfl
  | cons c calls ih =>
    obtain ⟨⟨sw₁, n, e⟩, ran⟩ := Option.isSome_iff_exists.mp (Writer.call_isSome room c)
    simp only [Writer.run, ran]
    exact ih (call_pending_lt room ran)

/-- The loop of `readFrom` over any source returns within the source's budget of passes,
whatever the inner writer replies; so `ReadFrom` returns for every source, and every
history of calls on a reachable writer returns. -/
theorem every_writer_history_returns :
    (∀ (mode : Mode) (a : Aead) (fuel : Nat) (l : Loop Source),
      l.sw.pending.length < payloadSizeMask → l.r.budget ≤ fuel →
        (Loop.run Source.read mode a fuel l).isSome) ∧
    (∀ sw : Writer, sw.Reachable → ∀ r : Source, (sw.ReadFrom r).isSome) ∧
    ∀ sw : Writer, sw.Reachable → ∀ calls : List Call, (sw.run calls).isSome :=
  ⟨fun _ _ fuel l room enough => run_source_isSome fuel l room enough,
   fun _ reach r => ReadFrom_isSome reach.pending_lt r,
   fun _ reach calls => Writer.run_isSome reach.pending_lt calls⟩

theorem history_from_fresh_writer_returns :
    (newShadowsocksWriter ⟨[], fun _ => (none, none)⟩ (Cipher.tagging 2 1) ⟨[7, 8], .eof⟩).Reachable ∧
      ((newShadowsocksWriter ⟨[], fun _ => (none, none)⟩ (Cipher.tagging 2 1) ⟨[7, 8], .eof⟩).run
        [.lazyWrite [1], .readFrom ⟨[([2, 3], none)], .eof⟩, .flush]).isSome :=
  have reach : (newShadowsocksWriter ⟨[], fun _ => (none, none)⟩ (Cipher.tagging 2 1)
      ⟨[7, 8], .eof⟩).Reachable := ⟨_, _, _, [], rfl⟩
  ⟨reach, every_writer_history_returns.2.2 _ reach _⟩

end Shadowsocks
