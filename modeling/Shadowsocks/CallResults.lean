import Shadowsocks.Handed

/-!
What the calls of shadowsocks/stream.go's writer return, over any inner writer. The count
is exactly the bytes taken from the source ("Buffered data counts as written"), whatever
the inner writer took. The loop drops the count the inner writer returns and turns its
`io.EOF` into no error, so `Write` can return fewer than `len(p)` bytes with no error; any
other error of the inner writer ends the call after that chunk, reported as
"Failed to read payload" although a `bytes.Reader` never fails.
-/

namespace Shadowsocks

section Loop
variable {σ : Type} {read : σ → Nat → (List UInt8 × Option Err) × σ} {mode : Mode} {a : Aead}

theorem Loop.run_count {data : σ → List UInt8} (reads : ReadsFrom read data) {fuel : Nat}
    {l l' : Loop σ} {e : Option Err} (ran : Loop.run read mode a fuel l = some (l', e)) :
    l'.written + (data l'.r).length = l.written + (data l.r).length :=
  Loop.run_preserves (fun l' => l'.written + (data l'.r).length = l.written + (data l.r).length)
    (fun l₁ same => by
      dsimp only at same ⊢
      rw [reads l₁.r (payloadSizeMask - l₁.sw.pending.length), List.length_append] at same
      rw [step_written, step_r]
      omega)
    rfl ran

theorem Loop.run_last {fuel : Nat} {l l' : Loop σ} {e : Option Err}
    (ran : Loop.run read mode a fuel l = some (l', e)) :
    ∃ (l₀ : Loop σ) (e₀ : Err), l₀.step read mode a = (l', some e₀) ∧
      e = if e₀ = .eof then none else some (.wrap "Failed to read payload" e₀) := by
  induction fuel generalizing l with
  | zero => simp [Loop.run] at ran
  | succ fuel ih =>
    rcases pass : l.step read mode a with ⟨l₁, _ | e₀⟩
    · rw [run_succ_of_none fuel pass] at ran
      exact ih ran
    · rw [run_succ_of_step_error fuel pass] at ran
      obtain ⟨rfl, rfl⟩ := Prod.mk.inj (Option.some.inj ran)
      exact ⟨l, e₀, pass, rfl⟩

theorem step_bytes_error {l l' : Loop (List UInt8)} {e₀ : Err}
    (pass : l.step bytesRead mode a = (l', some e₀)) :
    (e₀ = .eof ∧ l'.r = []) ∨
      (l'.sw.writer.reply (l'.sw.writer.writes.length - 1)).2 = some e₀ := by
  rw [step_eq] at pass
  dsimp only at pass
  split at pass
  · obtain ⟨rfl, replied⟩ := Prod.mk.inj pass
    right
    obtain ⟨t, more, -⟩ := writeChunk_taken (l.sw.withPending (l.sw.pending ++
      (bytesRead l.r (payloadSizeMask - l.sw.pending.length)).1.1)) a l.start
    rw [more, List.length_append, List.length_singleton, Nat.add_sub_cancel, writeChunk_reply]
    exact replied
  · obtain ⟨rfl, replied⟩ := Prod.mk.inj pass
    left
    by_cases used : l.r = []
    · simp only [bytesRead, used, if_true, Option.some.injEq] at replied ⊢
      exact ⟨replied.symm, trivial⟩
    · simp [bytesRead, used] at replied

end Loop

/-! ### What a call counts as written -/

theorem readFrom_of_ok {σ : Type} {read : σ → Nat → (List UInt8 × Option Err) × σ} {fuel : Nat}
    {sw sw₁ sw' : Writer} {a : Aead} {r r' : σ} {mode : Mode} {n : Nat} {e : Option Err}
    (ok : sw.init = (sw₁, .ok a)) (ran : sw.readFrom read fuel r mode = some (sw', r', n, e)) :
    ∃ l : Loop σ, Loop.run read mode a fuel
        ⟨if mode = .normal then sw₁.markFlushed else sw₁, r, sw₁.firstStart, 0⟩ = some (l, e) ∧
      sw' = l.sw ∧ r' = l.r ∧ n = l.written := by
  rw [readFrom_init read fuel r mode ok, readFrom_ready read fuel r mode (init_aead sw ok)] at ran
  obtain ⟨⟨l, e'⟩, loop, rest⟩ := Option.map_eq_some'.mp ran
  simp only [Prod.mk.injEq] at rest
  obtain ⟨rfl, rfl, rfl, rfl⟩ := rest
  exact ⟨l, loop, rfl, rfl, rfl⟩

theorem readFrom_count {σ : Type} {read : σ → Nat → (List UInt8 × Option Err) × σ}
    {data : σ → List UInt8} (reads : ReadsFrom read data) {fuel : Nat} {sw sw' : Writer}
    {r r' : σ} {mode : Mode} {n : Nat} {e : Option Err}
    (ran : sw.readFrom read fuel r mode = some (sw', r', n, e)) :
    n + (data r').length = (data r).length := by
  rcases setup : sw.init with ⟨sw₁, e₁ | a⟩
  · rw [readFrom_of_error read fuel r mode setup] at ran
    simp only [Option.some.injEq, Prod.mk.injEq] at ran
    obtain ⟨-, rfl, rfl, -⟩ := ran
    simp
  · obtain ⟨l, loop, -, rfl, rfl⟩ := readFrom_of_ok setup ran
    simpa using Loop.run_count reads loop

theorem write_count {sw sw' : Writer} {p : List UInt8} {mode : Mode} {n : Nat} {e : Option Err}
    (ran : sw.write p mode = some (sw', n, e)) :
    n + sw'.byteWrapper.length = p.length ∧
      (e = none → n < p.length →
        (sw'.writer.reply (sw'.writer.writes.length - 1)).2 = some .eof) := by
  obtain ⟨⟨sw'', r, n', e'⟩, inner, rest⟩ := Option.map_eq_some'.mp ran
  simp only [Prod.mk.injEq] at rest
  obtain ⟨rfl, rfl, rfl⟩ := rest
  have count : n' + r.length = p.length := readFrom_count bytesRead_readsFrom inner
  refine ⟨count, fun quiet short => ?_⟩
  subst quiet
  rcases setup : (sw.reset p).init with ⟨sw₁, e₁ | a⟩
  · rw [readFrom_of_error _ _ _ _ setup] at inner
    simp at inner
  · obtain ⟨l, loop, rfl, rfl, rfl⟩ := readFrom_of_ok setup inner
    obtain ⟨l₀, e₀, pass, quiet⟩ := Loop.run_last loop
    rcases step_bytes_error pass with ⟨-, used⟩ | replied
    · rw [used, List.length_nil] at count
      omega
    · by_cases eof : e₀ = .eof
      · rwa [← eof]
      · rw [if_neg eof] at quiet
        cases quiet

/-- What a writer reports as written is what it took from the source, whatever the inner writer
replies; a `Write` count below `len(p)` comes with an error, unless the inner writer's last
reply was `io.EOF`. -/
theorem writer_counts_the_bytes_it_took :
    (∀ (σ : Type) (read : σ → Nat → (List UInt8 × Option Err) × σ) (data : σ → List UInt8),
      ReadsFrom read data → ∀ (fuel : Nat) (sw sw' : Writer) (r r' : σ) (mode : Mode) (n : Nat)
        (e : Option Err), sw.readFrom read fuel r mode = some (sw', r', n, e) →
          n + (data r').length = (data r).length) ∧
    ∀ (sw sw' : Writer) (p : List UInt8) (n : Nat) (e : Option Err),
      sw.Write p = some (sw', n, e) → n + sw'.byteWrapper.length = p.length ∧
        (e = none → n < p.length →
          (sw'.writer.reply (sw'.writer.writes.length - 1)).2 = some .eof) :=
  ⟨fun _ _ _ reads _ _ _ _ _ _ _ _ ran => readFrom_count reads ran,
   fun _ _ _ _ _ ran => write_count ran⟩

theorem Write_counts_two_bytes_on_fresh_writer :
    ∃ sw' n e, (newShadowsocksWriter ⟨[], fun _ => (none, none)⟩ (Cipher.tagging 2 1)
        ⟨[7, 8], .eof⟩).Write [1, 2] = some (sw', n, e) ∧
      n + sw'.byteWrapper.length = [1, 2].length :=
  ⟨_, _, _, rfl, (writer_counts_the_bytes_it_took.2 (newShadowsocksWriter ⟨[], fun _ => (none, none)⟩
    (Cipher.tagging 2 1) ⟨[7, 8], .eof⟩) _ [1, 2] _ _ rfl).1⟩

/-! ### What a call reports as an error -/

theorem init_error_cases {sw sw₁ : Writer} {e : Err} (failed : sw.init = (sw₁, .error e)) :
    (∃ x, e = .wrap "failed to generate salt" x) ∨ ∃ x, e = .wrap "failed to create AEAD" x := by
  unfold Writer.init at failed
  rcases set : sw.aead with _ | a <;> rw [set] at failed <;> dsimp only at failed
  · rcases drawn : sw.rand.readFull sw.ssCipher.saltSize with ⟨x | salt, rand⟩ <;>
      rw [drawn] at failed <;> dsimp only at failed
    · obtain ⟨-, found⟩ := Prod.mk.inj failed
      cases found
      exact .inl ⟨x, rfl⟩
    · rcases made : sw.ssCipher.encrypter salt with x | a <;> rw [made] at failed <;>
        dsimp only at failed
      · obtain ⟨-, found⟩ := Prod.mk.inj failed
        cases found
        exact .inr ⟨x, rfl⟩
      · cases failed
  · cases failed

theorem write_error {sw sw' : Writer} {p : List UInt8} {mode : Mode} {n : Nat} {e : Err}
    (ran : sw.write p mode = some (sw', n, some e)) :
    (∃ x, e = .wrap "failed to generate salt" x) ∨ (∃ x, e = .wrap "failed to create AEAD" x) ∨
      ∃ x, x ≠ .eof ∧ e = .wrap "Failed to read payload" x ∧
        (sw'.writer.reply (sw'.writer.writes.length - 1)).2 = some x := by
  obtain ⟨⟨sw'', r, n', e'⟩, inner, rest⟩ := Option.map_eq_some'.mp ran
  simp only [Prod.mk.injEq] at rest
  obtain ⟨rfl, rfl, rfl⟩ := rest
  rcases setup : (sw.reset p).init with ⟨sw₁, e₁ | a⟩
  · rw [readFrom_of_error _ _ _ _ setup] at inner
    simp only [Option.some.injEq, Prod.mk.injEq] at inner
    obtain ⟨-, -, -, found⟩ := inner
    cases found
    exact (init_error_cases setup).imp_right .inl
  · obtain ⟨l, loop, rfl, rfl, rfl⟩ := readFrom_of_ok setup inner
    obtain ⟨l₀, e₀, pass, returned⟩ := Loop.run_last loop
    by_cases eof : e₀ = .eof
    · rw [if_pos eof] at returned
      cases returned
    · rw [if_neg eof, Option.some.injEq] at returned
      rcases step_bytes_error pass with ⟨eof', -⟩ | replied
      · exact absurd eof' eof
      · exact .inr (.inr ⟨e₀, eof, returned, replied⟩)

/-- Every error `Write`, `LazyWrite` and `Flush` return names its cause: drawing the salt,
creating the AEAD, or the inner writer's own error other than `io.EOF`, its reply to the
last write, which is reported as "Failed to read payload" though no read failed. -/
theorem write_errors_name_their_cause :
    (∀ (sw sw' : Writer) (p : List UInt8) (mode : Mode) (n : Nat) (e : Err),
      sw.write p mode = some (sw', n, some e) →
        (∃ x, e = .wrap "failed to generate salt" x) ∨ (∃ x, e = .wrap "failed to create AEAD" x) ∨
        ∃ x, x ≠ .eof ∧ e = .wrap "Failed to read payload" x ∧
          (sw'.writer.reply (sw'.writer.writes.length - 1)).2 = some x) ∧
    ∀ (sw sw' : Writer) (e : Err), sw.Flush = some (sw', some e) →
      (∃ x, e = .wrap "failed to generate salt" x) ∨ (∃ x, e = .wrap "failed to create AEAD" x) ∨
      ∃ x, x ≠ .eof ∧ e = .wrap "Failed to read payload" x ∧
        (sw'.writer.reply (sw'.writer.writes.length - 1)).2 = some x := by
  refine ⟨fun _ _ _ _ _ _ ran => write_error ran, fun sw sw' e ran => ?_⟩
  unfold Writer.Flush at ran
  split at ran
  · cases ran
  · obtain ⟨⟨sw'', n, e'⟩, inner, rest⟩ := Option.map_eq_some'.mp ran
    obtain ⟨rfl, rfl⟩ := Prod.mk.inj rest
    exact (write_error inner :)

theorem Write_names_failing_inner_writer :
    ∃ sw' n, (newShadowsocksWriter ⟨[], fun _ => (some 2, some (.external 7))⟩ (Cipher.tagging 2 1)
        ⟨[7, 8], .eof⟩).write [1, 2] .normal =
          some (sw', n, some (.wrap "Failed to read payload" (.external 7))) ∧
      ((∃ x, Err.wrap "Failed to read payload" (.external 7) = .wrap "failed to generate salt" x) ∨
        (∃ x, Err.wrap "Failed to read payload" (.external 7) = .wrap "failed to create AEAD" x) ∨
        ∃ x, x ≠ .eof ∧ Err.wrap "Failed to read payload" (.external 7) = .wrap "Failed to read payload" x ∧
          (sw'.writer.reply (sw'.writer.writes.length - 1)).2 = some x) :=
  ⟨_, _, rfl, write_errors_name_their_cause.1 (newShadowsocksWriter ⟨[], fun _ =>
    (some 2, some (.external 7))⟩ (Cipher.tagging 2 1) ⟨[7, 8], .eof⟩) _ [1, 2] .normal _ _ rfl⟩

/-! ### An inner writer that fails -/

/-- A `Write` whose inner writer fails the chunk it sends stops there, counting the bytes it
buffered, with nothing pending and the nonce two on; `io.EOF` from the inner writer becomes
no error. -/
theorem Write_stops_at_failing_inner_writer {sw : Writer} {a : Aead} {p : List UInt8} {e : Err}
    (ready : sw.aead = some a) (room : sw.pending.length < payloadSizeMask) (nonempty : p ≠ [])
    (fails : (sw.writer.reply sw.writer.writes.length).2 = some e) :
    ∃ sw', sw.Write p = some (sw', min (payloadSizeMask - sw.pending.length) p.length,
        if e = .eof then none else some (.wrap "Failed to read payload" e)) ∧
      sw'.pending = [] ∧ sw'.writer.writes.length = sw.writer.writes.length + 1 ∧
      sw'.counter = increment (increment sw.counter) := by
  have pass := step_bytes_cons (a := a) .normal ((sw.reset p).markFlushed) nonempty sw.firstStart 0
  have same : (sw.reset p).markFlushed.pending = sw.pending := rfl
  rw [same] at pass
  have filled : 0 < (p.take (payloadSizeMask - sw.pending.length)).length := by
    rw [List.length_take]
    have := List.length_pos.mpr nonempty
    omega
  rw [if_pos (.inr ⟨by decide, by simp only [withPending_pending, List.length_append]; omega⟩)] at pass
  have err : (((sw.reset p).markFlushed.withPending (sw.pending ++
      p.take (payloadSizeMask - sw.pending.length))).writeChunk a
        sw.firstStart).2 = some e := fails
  rw [err] at pass
  simp only [Writer.Write, Writer.write, @readFrom_ready (sw.reset p) a _ bytesRead _ p .normal ready,
    ↓reduceIte, firstStart_reset]
  rw [show p.length + 2 = p.length + 1 + 1 from rfl, run_succ_of_step_error (p.length + 1) pass]
  simp only [Option.map_some', Nat.zero_add, List.length_take]
  exact ⟨_, rfl, rfl, by simp [Writer.writeChunk, Sink.write, Writer.reset, Writer.markFlushed,
    Writer.withPending], rfl⟩

theorem Write_stops_at_inner_writer_eof :
    (newShadowsocksWriter ⟨[], fun _ => (none, some .eof)⟩ (Cipher.tagging 2 1)
        ⟨[7, 8], .eof⟩).init.1.aead = some (Aead.tagging 1) ∧
      ([] : List UInt8).length < payloadSizeMask ∧ [1, 2] ≠ ([] : List UInt8) ∧
      ((⟨[], fun _ => (none, some .eof)⟩ : Sink).reply 0).2 = some .eof ∧
      ∃ sw', (newShadowsocksWriter ⟨[], fun _ => (none, some .eof)⟩ (Cipher.tagging 2 1)
          ⟨[7, 8], .eof⟩).init.1.Write [1, 2] =
          some (sw', min (payloadSizeMask - 0) 2,
            if Err.eof = .eof then none else some (.wrap "Failed to read payload" .eof)) ∧
        sw'.pending = [] ∧ sw'.writer.writes.length = 0 + 1 ∧
        sw'.counter = increment (increment [0]) :=
  ⟨rfl, by decide, by decide, rfl,
    Write_stops_at_failing_inner_writer rfl (by decide) (by decide) rfl⟩

end Shadowsocks
