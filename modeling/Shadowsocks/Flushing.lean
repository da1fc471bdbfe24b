import Shadowsocks.History

/-!
The flush action of shadowsocks/stream.go's writer: a `sync.Once` that `LazyWrite` resets
and that `Write`, `ReadFrom` and `Flush` run. Every pass outside the lazy mode sends what
is pending, so `Write`, `ReadFrom` and `Flush` return with nothing buffered, whatever the
inner writer replies; and on every reachable writer the `Once` has run only when nothing is
pending, so a `Flush` that the `Once` turns into nothing never strands bytes of a
`LazyWrite`.
-/

namespace Shadowsocks

/-- The flush action has run only when nothing is pending, and nothing is pending before
the writer is set up. -/
structure FlushSafe (sw : Writer) : Prop where
  flushed : sw.flushDone = true → sw.pending = []
  unready : sw.aead = none → sw.pending = []

theorem FlushSafe.of_pending_nil {sw : Writer} (idle : sw.pending = []) : FlushSafe sw :=
  ⟨fun _ => idle, fun _ => idle⟩

theorem aead_of_init_error {sw sw₁ : Writer} {e : Err} (failed : sw.init = (sw₁, .error e)) :
    sw.aead = none := by
  cases set : sw.aead with
  | none => rfl
  | some a => rw [init_of_aead sw set] at failed; cases failed

section Loop
variable {σ : Type} {read : σ → Nat → (List UInt8 × Option Err) × σ} {mode : Mode} {a : Aead}

theorem step_flushDone (l : Loop σ) : (l.step read mode a).1.sw.flushDone = l.sw.flushDone := by
  rw [step_eq]
  dsimp only
  split <;> rfl

end Loop

section ReadFrom
variable {σ : Type} {read : σ → Nat → (List UInt8 × Option Err) × σ} {fuel : Nat}
  {sw sw' : Writer} {r r' : σ} {mode : Mode} {n : Nat} {e : Option Err}

theorem readFrom_unready (ran : sw.readFrom read fuel r mode = some (sw', r', n, e))
    (unset : sw'.aead = none) : sw.aead = none ∧ sw'.pending = sw.pending := by
  rcases readFrom_cases ran with ⟨e₁, failed⟩ | ⟨sw₁, a, l, e', ok, loop, rfl⟩
  · exact ⟨aead_of_init_error failed, by rw [← init_pending sw, failed]⟩
  · have set := init_aead sw ok
    have start : (if mode = .normal then sw₁.markFlushed else sw₁).aead = some a := by
      split <;> exact set
    rw [(run_grows loop).2.1 a start] at unset
    cases unset

theorem readFrom_pending_nil (flushes : mode ≠ .lazy)
    (ran : sw.readFrom read fuel r mode = some (sw', r', n, e))
    (unready : sw.aead = none → sw.pending = []) : sw'.pending = [] := by
  rcases readFrom_cases ran with ⟨e₁, failed⟩ | ⟨sw₁, a, l, e', ok, loop, rfl⟩
  · rw [show sw' = sw.init.1 by rw [failed], init_pending]
    exact unready (aead_of_init_error failed)
  · exact run_pending_nil flushes loop

theorem readFrom_flushDone_lazy (ran : sw.readFrom read fuel r .lazy = some (sw', r', n, e)) :
    sw'.flushDone = sw.flushDone := by
  rcases readFrom_cases ran with ⟨e₁, failed⟩ | ⟨sw₁, a, l, e', ok, loop, rfl⟩
  · rw [show sw' = sw.init.1 by rw [failed], init_flushDone]
  · have kept : sw₁.flushDone = sw.flushDone := by rw [← init_flushDone sw, ok]
    exact Loop.run_preserves (fun l => l.sw.flushDone = sw.flushDone)
      (fun l same => (step_flushDone l).trans same) kept loop

end ReadFrom

section Calls
variable {sw sw' : Writer} {n : Nat} {e : Option Err}

theorem write_pending_nil {p : List UInt8} {mode : Mode} (flushes : mode ≠ .lazy)
    (unready : sw.aead = none → sw.pending = []) (ran : sw.write p mode = some (sw', n, e)) :
    sw'.pending = [] := by
  obtain ⟨⟨sw'', r, n', e'⟩, inner, rest⟩ := Option.map_eq_some'.mp ran
  obtain ⟨rfl, -, -⟩ := Prod.mk.inj_iff.mp rest
  exact (readFrom_pending_nil flushes inner unready : sw''.pending = [])

theorem ReadFrom_pending_nil {r : Source} (unready : sw.aead = none → sw.pending = [])
    (ran : sw.ReadFrom r = some (sw', n, e)) : sw'.pending = [] := by
  obtain ⟨⟨sw'', r', n', e'⟩, inner, rest⟩ := Option.map_eq_some'.mp ran
  obtain ⟨rfl, -, -⟩ := Prod.mk.inj_iff.mp rest
  exact (readFrom_pending_nil (by decide) inner unready : sw''.pending = [])

theorem Flush_spec (safe : FlushSafe sw) {err : Option Err} (ran : sw.Flush = some (sw', err)) :
    sw'.flushDone = true ∧ sw'.pending = [] := by
  unfold Writer.Flush at ran
  split at ran
  · next done =>
    obtain ⟨rfl, -⟩ := Prod.mk.inj (Option.some.inj ran)
    exact ⟨done, safe.flushed done⟩
  · obtain ⟨⟨sw'', n', e'⟩, inner, rest⟩ := Option.map_eq_some'.mp ran
    obtain ⟨rfl, -⟩ := Prod.mk.inj rest
    exact ⟨rfl, (write_pending_nil (by decide) safe.unready inner : sw''.pending = [])⟩

theorem call_flushSafe {c : Call} (safe : FlushSafe sw) (ran : sw.call c = some (sw', n, e)) :
    FlushSafe sw' := by
  cases c with
  | write p => exact .of_pending_nil (write_pending_nil (by decide) safe.unready ran)
  | readFrom r => exact .of_pending_nil (ReadFrom_pending_nil safe.unready ran)
  | flush =>
    obtain ⟨⟨sw'', err⟩, inner, rest⟩ := Option.map_eq_some'.mp ran
    obtain ⟨rfl, -, -⟩ := Prod.mk.inj_iff.mp rest
    exact .of_pending_nil (Flush_spec safe inner).2
  | lazyWrite p =>
    obtain ⟨⟨sw'', r, n', e'⟩, inner, rest⟩ := Option.map_eq_some'.mp ran
    obtain ⟨rfl, -, -⟩ := Prod.mk.inj_iff.mp rest
    refine ⟨fun done => ?_, fun unset => ?_⟩
    · have lazy : (sw''.reset r).flushDone = false := readFrom_flushDone_lazy inner
      rw [lazy] at done
      cases done
    · obtain ⟨unset₀, kept⟩ := readFrom_unready inner unset
      exact kept.trans (safe.unready unset₀)

theorem Writer.Reachable.flushSafe (reach : sw.Reachable) : FlushSafe sw := by
  obtain ⟨_, _, _, _, ran⟩ := reach
  exact Writer.run_preserves FlushSafe (fun safe ran => call_flushSafe safe ran)
    (.of_pending_nil rfl) ran

end Calls

/-- On every reachable writer the flush `sync.Once` has run only when nothing is pending, so a
`Flush` it skips strands no byte of a `LazyWrite`. -/
theorem flush_once_never_strands_pending_bytes :
    (∀ sw : Writer, sw.Reachable → sw.flushDone = true → sw.pending = []) ∧
    (∀ sw : Writer, sw.Reachable → ∀ (sw' : Writer) (err : Option Err),
      sw.Flush = some (sw', err) → sw'.flushDone = true ∧ sw'.pending = []) ∧
    (∀ sw : Writer, sw.Reachable → ∀ (p : List UInt8) (sw' : Writer) (n : Nat) (err : Option Err),
      sw.Write p = some (sw', n, err) → sw'.pending = []) ∧
    ∀ sw : Writer, sw.Reachable → ∀ (r : Source) (sw' : Writer) (n : Nat) (err : Option Err),
      sw.ReadFrom r = some (sw', n, err) → sw'.pending = [] :=
  ⟨fun _ reach => reach.flushSafe.flushed,
   fun _ reach _ _ ran => Flush_spec reach.flushSafe ran,
   fun _ reach _ _ _ _ ran => write_pending_nil (by decide) reach.flushSafe.unready ran,
   fun _ reach _ _ _ _ ran => ReadFrom_pending_nil reach.flushSafe.unready ran⟩

theorem Flush_on_fresh_writer_leaves_nothing_pending :
    ∃ sw' err, (newShadowsocksWriter ⟨[], fun _ => (none, none)⟩ (Cipher.tagging 2 1)
        ⟨[7, 8], .eof⟩).Flush = some (sw', err) ∧ sw'.flushDone = true ∧ sw'.pending = [] :=
  ⟨_, _, rfl, flush_once_never_strands_pending_bytes.2.1 (newShadowsocksWriter ⟨[], fun _ =>
    (none, none)⟩ (Cipher.tagging 2 1) ⟨[7, 8], .eof⟩) ⟨_, _, _, [], rfl⟩ _ _ rfl⟩

end Shadowsocks
