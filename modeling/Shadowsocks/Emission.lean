import Shadowsocks.Termination

/-!
What a call sends, for any source and an inner writer that takes everything: a list of
chunks of one to `payloadSizeMask` bytes, emitted in order, which together with what
stays pending are exactly the pending bytes followed by the bytes read. This is the
shape the wire format and the round trip are proved from.
-/

namespace Shadowsocks

/-- `data s` is what a reader in state `s` still has to deliver; each `Read` hands out a
prefix of it. -/
def ReadsFrom {σ : Type} (read : σ → Nat → (List UInt8 × Option Err) × σ)
    (data : σ → List UInt8) : Prop :=
  ∀ s n, data s = (read s n).1.1 ++ data (read s n).2

theorem bytesRead_readsFrom : ReadsFrom bytesRead id := by
  intro s n
  unfold bytesRead
  split <;> simp [*]

/-- While `clean` holds, which every `Read` keeps, a `Read` that reports an error leaves
the reader with nothing to deliver. -/
def Drains {σ : Type} (read : σ → Nat → (List UInt8 × Option Err) × σ) (data : σ → List UInt8)
    (clean : σ → Prop) : Prop :=
  ∀ s n, clean s → clean (read s n).2 ∧ ((read s n).1.2.isSome → data (read s n).2 = [])

theorem bytesRead_drains : Drains bytesRead id fun _ => True := by
  intro s n _
  unfold bytesRead
  split <;> simp

theorem Source.read_drains :
    Drains Source.read Source.data fun r => ∀ result ∈ r.results, result.2 = none := by
  intro r n clean
  unfold Source.read Source.data
  split
  · next empty => simp [empty]
  · next data err rest results =>
    rw [results] at clean
    have quiet : err = none := clean _ (List.mem_cons_self _ _)
    split
    · exact ⟨fun result member => clean result (List.mem_cons_of_mem _ member),
        fun reported => by simp only [quiet, Option.isSome_none, Bool.false_eq_true] at reported⟩
    · refine ⟨fun result member => ?_, nofun⟩
      rcases List.mem_cons.mp member with rfl | later
      · exact quiet
      · exact clean result (List.mem_cons_of_mem _ later)

theorem Source.read_readsFrom : ReadsFrom Source.read Source.data := by
  intro r n
  unfold Source.read Source.data
  split
  · simp
  · next data err rest results =>
    split <;> simp [results, ← List.append_assoc]

/-- Chunks the writer may put on the wire: between one and `payloadSizeMask` bytes. -/
def ValidChunk (c : List UInt8) : Prop := 0 < c.length ∧ c.length ≤ payloadSizeMask

instance (c : List UInt8) : Decidable (ValidChunk c) := inferInstanceAs (Decidable (_ ∧ _))

theorem emitChunks_pending (sw : Writer) (a : Aead) (start : Nat) (cs : List (List UInt8))
    (nonempty : cs ≠ []) : (sw.emitChunks a start cs).pending = [] := by
  induction cs generalizing sw start with
  | nil => contradiction
  | cons c cs ih =>
    rw [emitChunks_cons]
    by_cases last : cs = []
    · subst last; rfl
    · exact ih _ _ last

theorem emitChunks_withPending_eq (sw : Writer) (a : Aead) (start : Nat) (cs : List (List UInt8))
    (q : List UInt8) :
    (sw.withPending q).emitChunks a start cs =
      (sw.emitChunks a start cs).withPending (if cs = [] then q else []) := by
  cases cs with
  | nil => rfl
  | cons c cs =>
    rw [if_neg (List.cons_ne_nil c cs), withPending_of_eq _ (emitChunks_pending _ _ _ _
      (List.cons_ne_nil c cs))]
    rfl

theorem emitChunks_append (sw : Writer) (a : Aead) (start : Nat) (c : List UInt8)
    (cs : List (List UInt8)) :
    sw.emitChunks a start (c :: cs) =
      ((sw.withPending c).writeChunk a start).1.emitChunks a sw.ssCipher.saltSize cs := rfl

section Loop
variable {σ : Type} {read : σ → Nat → (List UInt8 × Option Err) × σ} {data : σ → List UInt8}
  {mode : Mode} {a : Aead}

theorem step_eq (l : Loop σ) :
    l.step read mode a =
      let result := read l.r (payloadSizeMask - l.sw.pending.length)
      let sw' := l.sw.withPending (l.sw.pending ++ result.1.1)
      if sw'.pending.length = payloadSizeMask ∨ (mode ≠ .lazy ∧ 0 < sw'.pending.length) then
        (⟨(sw'.writeChunk a l.start).1, result.2, l.sw.ssCipher.saltSize,
          l.written + result.1.1.length⟩, (sw'.writeChunk a l.start).2)
      else (⟨sw', result.2, l.start, l.written + result.1.1.length⟩, result.1.2) := by
  simp only [Loop.step, buffer_eq, withPending_ssCipher]

theorem run_emits (bounded : ReadBounded read) (reads : ReadsFrom read data) {fuel : Nat}
    {sw : Writer} {r : σ} {start written : Nat} {l' : Loop σ} {e : Option Err}
    (accepts : sw.writer.AcceptsAll) (room : sw.pending.length < payloadSizeMask)
    (ran : Loop.run read mode a fuel ⟨sw, r, start, written⟩ = some (l', e)) :
    ∃ cs : List (List UInt8), (∀ c ∈ cs, ValidChunk c) ∧
      l'.sw = (sw.emitChunks a start cs).withPending l'.sw.pending ∧
      cs.flatten ++ l'.sw.pending ++ data l'.r = sw.pending ++ data r ∧
      l'.written + (data l'.r).length = written + (data r).length := by
  induction fuel generalizing sw r start written with
  | zero => simp [Loop.run] at ran
  | succ fuel ih =>
    have fits := read_fits bounded ⟨sw, r, start, written⟩ room
    have split := reads r (payloadSizeMask - sw.pending.length)
    have pass := (step_eq ⟨sw, r, start, written⟩ : Loop.step read mode a _ = _)
    dsimp only at fits pass
    generalize read r (payloadSizeMask - sw.pending.length) = result at fits split pass
    obtain ⟨⟨d, err⟩, r₁⟩ := result
    dsimp only at fits split pass
    by_cases cond : (sw.pending ++ d).length = payloadSizeMask ∨
        (mode ≠ .lazy ∧ 0 < (sw.pending ++ d).length)
    · rw [withPending_pending, if_pos cond,
        writeChunk_err (sw.withPending (sw.pending ++ d)) a start accepts] at pass
      rw [run_succ_of_none fuel pass] at ran
      obtain ⟨cs, valid, shape, flat, count⟩ :=
        @ih ((sw.withPending (sw.pending ++ d)).writeChunk a start).1 r₁ sw.ssCipher.saltSize
          (written + d.length) (accepts.writeChunk_withPending _ a start)
          (by simp [payloadSizeMask_pos]) ran
      have pos : 0 < (sw.pending ++ d).length := by
        rcases cond with full | ⟨_, pos⟩
        · rw [full]; exact payloadSizeMask_pos
        · exact pos
      refine ⟨(sw.pending ++ d) :: cs, ?_, by rw [emitChunks_append]; exact shape, ?_, ?_⟩
      · intro c member
        rcases List.mem_cons.mp member with rfl | later
        · exact ⟨pos, fits⟩
        · exact valid c later
      · simp only [writeChunk_pending, List.nil_append, List.append_assoc] at flat
        simp only [List.flatten_cons, List.append_assoc]
        rw [flat, split]
      · rw [count, split, List.length_append]
        omega
    · rw [withPending_pending, if_neg cond] at pass
      have short : (sw.pending ++ d).length < payloadSizeMask := by
        rcases Nat.lt_or_ge (sw.pending ++ d).length payloadSizeMask with lt | ge
        · exact lt
        · exact absurd (Or.inl (Nat.le_antisymm fits ge)) cond
      cases err with
      | none =>
        rw [run_succ_of_none fuel pass] at ran
        obtain ⟨cs, valid, shape, flat, count⟩ :=
          @ih (sw.withPending (sw.pending ++ d)) r₁ start (written + d.length) accepts short ran
        refine ⟨cs, valid, shape.trans (by rw [emitChunks_withPending_eq, withPending_withPending]), ?_, ?_⟩
        · rw [flat, withPending_pending, split, List.append_assoc]
        · rw [count, split, List.length_append]
          omega
      | some e' =>
        have done := run_succ_of_step_error fuel pass
        rw [done, Option.some.injEq, Prod.mk.injEq] at ran
        obtain ⟨rfl, rfl⟩ := ran
        refine ⟨[], by simp, rfl, ?_, ?_⟩
        · simp [split]
        · simp [split]
          omega

theorem step_pending_nil (flushes : mode ≠ .lazy) (l : Loop σ) :
    (l.step read mode a).1.sw.pending = [] := by
  rw [step_pending]
  split
  · rfl
  · next keep =>
    simp only [ne_eq, flushes, not_false_eq_true, true_and, not_or, Nat.not_lt,
      Nat.le_zero, List.length_eq_zero] at keep
    exact keep.2

theorem run_pending_nil (flushes : mode ≠ .lazy) {fuel : Nat}
    {l l' : Loop σ} {e : Option Err} (ran : Loop.run read mode a fuel l = some (l', e)) :
    l'.sw.pending = [] := by
  induction fuel generalizing l with
  | zero => simp [Loop.run] at ran
  | succ fuel ih =>
    have last : (l.step read mode a).1.sw.pending = [] := step_pending_nil flushes l
    rcases pass : l.step read mode a with ⟨l₁, _ | e'⟩ <;> rw [pass] at last
    · rw [run_succ_of_none fuel pass] at ran
      exact ih ran
    · have done := run_succ_of_step_error fuel pass
      rw [done, Option.some.injEq, Prod.mk.injEq] at ran
      rw [← ran.1]
      exact last

theorem readFrom_emits (bounded : ReadBounded read) (reads : ReadsFrom read data) {fuel : Nat}
    {sw sw' : Writer} {r r' : σ} {n : Nat} {e : Option Err} (ready : sw.aead = some a)
    (accepts : sw.writer.AcceptsAll) (room : sw.pending.length < payloadSizeMask)
    (ran : sw.readFrom read fuel r mode = some (sw', r', n, e)) :
    ∃ cs : List (List UInt8), (∀ c ∈ cs, ValidChunk c) ∧
      sw' = ((if mode = .normal then sw.markFlushed else sw).emitChunks a sw.firstStart
        cs).withPending sw'.pending ∧
      cs.flatten ++ sw'.pending ++ data r' = sw.pending ++ data r ∧
      n + (data r').length = (data r).length ∧
      (mode ≠ .lazy → sw'.pending = []) := by
  rw [readFrom_ready read fuel r mode ready] at ran
  obtain ⟨⟨l', e'⟩, hrun, rest⟩ := Option.map_eq_some'.mp ran
  simp only [Prod.mk.injEq] at rest
  obtain ⟨rfl, rfl, rfl, rfl⟩ := rest
  have marked : (if mode = .normal then sw.markFlushed else sw).pending = sw.pending := by
    split <;> rfl
  obtain ⟨cs, valid, shape, flat, count⟩ := run_emits bounded reads
    (by split <;> exact accepts) (marked ▸ room) hrun
  exact ⟨cs, valid, shape, marked ▸ flat, by simpa using count,
    fun flushes => run_pending_nil flushes hrun⟩

theorem step_accepts (l : Loop σ) (accepts : l.sw.writer.AcceptsAll) :
    (l.step read mode a).1.sw.writer.AcceptsAll ∧
      ((l.step read mode a).2.isSome →
        (read l.r (payloadSizeMask - l.sw.pending.length)).1.2.isSome) := by
  rw [step_eq]
  dsimp only
  have buffered : ∀ q, (l.sw.withPending q).writer.AcceptsAll := fun _ => accepts
  split
  · exact ⟨(buffered _).writeChunk a l.start, by simp [writeChunk_err _ _ _ (buffered _)]⟩
  · exact ⟨accepts, id⟩

theorem run_drains {clean : σ → Prop} (drains : Drains read data clean) {fuel : Nat}
    {l l' : Loop σ} {e : Option Err} (accepts : l.sw.writer.AcceptsAll) (cleanStart : clean l.r)
    (ran : Loop.run read mode a fuel l = some (l', e)) : data l'.r = [] := by
  induction fuel generalizing l with
  | zero => simp [Loop.run] at ran
  | succ fuel ih =>
    have kept := drains l.r (payloadSizeMask - l.sw.pending.length) cleanStart
    have moved : (l.step read mode a).1.r = _ := step_r l
    obtain ⟨accepts₁, reported⟩ := step_accepts l accepts
    rcases pass : l.step read mode a with ⟨l₁, _ | err⟩ <;> rw [pass] at moved accepts₁ reported
    · rw [run_succ_of_none fuel pass] at ran
      exact ih accepts₁ (moved ▸ kept.1) ran
    · have done := run_succ_of_step_error fuel pass
      rw [done, Option.some.injEq, Prod.mk.injEq] at ran
      rw [← ran.1, moved]
      exact kept.2 (reported rfl)

theorem readFrom_drains {clean : σ → Prop} (drains : Drains read data clean) {fuel : Nat}
    {sw sw' : Writer} {r r' : σ} {n : Nat} {e : Option Err} (ready : sw.aead = some a)
    (accepts : sw.writer.AcceptsAll) (cleanStart : clean r)
    (ran : sw.readFrom read fuel r mode = some (sw', r', n, e)) : data r' = [] := by
  rw [readFrom_ready read fuel r mode ready] at ran
  obtain ⟨⟨l', e'⟩, hrun, rest⟩ := Option.map_eq_some'.mp ran
  simp only [Prod.mk.injEq] at rest
  rw [← rest.2.1]
  exact run_drains drains (by split <;> exact accepts) cleanStart hrun

end Loop

end Shadowsocks
