import Shadowsocks.Reader

/-!
`readConverter` over any chunk reader, given by its `ReadChunk` on a state: the calls a
user makes (`Read` with a buffer length, `WriteTo` into a sink) and runs of them. `WriteTo`
ends when each chunk lowers some measure of the chunk reader by more than its length and
the sink takes a byte whenever it reports no error. What the converter hands out depends
only on the results `ReadChunk` gives, call after call: two chunk readers that give the
same results drive the converter alike (`run_mirrors`).
-/

namespace Shadowsocks

/-- A sink that takes at least one byte whenever it reports no error. -/
def Sink.Progresses (w : Sink) : Prop := ∀ n, (w.reply n).2 = none → (w.reply n).1 ≠ some 0

/-- The calls a user makes on a reader: `read n` is `Read` into a buffer of `n` bytes,
`writeTo w` is `WriteTo(w)`. -/
inductive ReaderCall where
  | read (n : Nat)
  | writeTo (w : Sink)

/-- What a call hands over (copied into the buffer, or taken by the sink), the count it
returns and its error. -/
structure Outcome where
  delivered : List UInt8
  count : Nat
  err : Option Err

def handedOut (outcomes : List Outcome) : List UInt8 := (outcomes.map Outcome.delivered).flatten

theorem handedOut_cons (o : Outcome) (os : List Outcome) :
    handedOut (o :: os) = o.delivered ++ handedOut os := rfl

theorem handedOut_append (pre post : List Outcome) :
    handedOut (pre ++ post) = handedOut pre ++ handedOut post := by
  simp [handedOut]

section Calls
variable {σ : Type} (readChunk : σ → σ × Except Err (List UInt8)) (budget : Converter σ → Nat)

def Converter.call (c : Converter σ) : ReaderCall → Option (Converter σ × Outcome)
  | .read n =>
    match c.Read readChunk n with
    | (c, out, err) => some (c, ⟨out, out.length, err⟩)
  | .writeTo w =>
    (c.WriteTo readChunk (budget c) w).map fun (c, w', n, err) =>
      (c, ⟨(w'.writes.drop w.writes.length).flatten, n, err⟩)

def Converter.run (c : Converter σ) : List ReaderCall → Option (Converter σ × List Outcome)
  | [] => some (c, [])
  | call :: calls =>
    match c.call readChunk budget call with
    | none => none
    | some (c, outcome) =>
      (Converter.run c calls).map fun (c, outcomes) => (c, outcome :: outcomes)

def readChunks : Nat → σ → List (Except Err (List UInt8))
  | 0, _ => []
  | m + 1, x => (readChunk x).2 :: readChunks m (readChunk x).1

end Calls

def Observes {σ τ : Type} (readChunk : σ → σ × Except Err (List UInt8))
    (readChunk' : τ → τ × Except Err (List UInt8)) (x : σ) (y : τ) : Prop :=
  ∀ m, readChunks readChunk m x = readChunks readChunk' m y

/-- Converters that hold the same bytes over chunk readers that give the same results. -/
structure Mirrors {σ τ : Type} (readChunk : σ → σ × Except Err (List UInt8))
    (readChunk' : τ → τ × Except Err (List UInt8)) (c : Converter σ) (d : Converter τ) :
    Prop where
  observes : Observes readChunk readChunk' c.cr d.cr
  leftover : c.leftover = d.leftover

theorem Sink.write_spec {k k' : Sink} {b : List UInt8} {n : Nat} {err : Option Err}
    (wrote : k.write b = (k', n, err)) :
    k'.writes = k.writes ++ [b.take n] ∧ k'.reply = k.reply ∧ n ≤ b.length ∧
      err = (k.reply k.writes.length).2 ∧ (err = none → k.Progresses → b ≠ [] → 0 < n) := by
  simp only [Sink.write, Prod.mk.injEq] at wrote
  obtain ⟨rfl, rfl, rfl⟩ := wrote
  refine ⟨?_, rfl, ?_, rfl, fun ok progresses given => ?_⟩
  · split <;> simp
  · split
    · exact Nat.le_refl _
    · exact List.length_take_le' _ _
  · have allowed := progresses _ ok
    split <;> simp_all [List.length_pos, Nat.pos_iff_ne_zero]

section Generic
variable {σ τ : Type} {readChunk : σ → σ × Except Err (List UInt8)}
  {readChunk' : τ → τ × Except Err (List UInt8)} {c : Converter σ} {d : Converter τ}

theorem ensureLeftover_of_held (held : c.leftover ≠ []) :
    c.ensureLeftover readChunk = (c, none) := by
  simp [Converter.ensureLeftover, held]

theorem ensureLeftover_of_empty (empty : c.leftover = []) :
    c.ensureLeftover readChunk =
      (⟨(readChunk c.cr).1, match (readChunk c.cr).2 with | .ok p => p | .error _ => []⟩,
        match (readChunk c.cr).2 with | .ok _ => none | .error e => some e) := by
  obtain ⟨cr, leftover⟩ := c
  subst empty
  unfold Converter.ensureLeftover
  rcases readChunk cr with ⟨x, e | p⟩ <;> rfl

/-- `Read` into a buffer of at least one byte hands out nothing and reports no error
exactly when nothing was left over and the chunk reader gave an empty chunk: `ensureLeftover`
then returns with `leftover` still empty, although its comment says it leaves it nonempty. -/
theorem Read_returns_nothing_iff_empty_chunk {n : Nat} (pos : 0 < n) :
    ((c.Read readChunk n).2.1 = [] ∧ (c.Read readChunk n).2.2 = none) ↔
      c.leftover = [] ∧ (readChunk c.cr).2 = .ok [] := by
  unfold Converter.Read
  by_cases held : c.leftover = []
  · rw [ensureLeftover_of_empty held]
    rcases readChunk c.cr with ⟨cr, e | p⟩
    · simp [held]
    · simp [held, pos.ne']
  · rw [ensureLeftover_of_held held]
    simp [held, pos.ne']

theorem Read_returns_nothing_on_empty_chunk :
    0 < 5 ∧
      ((((⟨⟨⟨[0, 0, 0, 1], .eof⟩, Cipher.tagging 0 1, some (Aead.tagging 1), [0]⟩, []⟩ :
          Converter ChunkReader).Read ChunkReader.ReadChunk 5).2.1 = [] ∧
        ((⟨⟨⟨[0, 0, 0, 1], .eof⟩, Cipher.tagging 0 1, some (Aead.tagging 1), [0]⟩, []⟩ :
          Converter ChunkReader).Read ChunkReader.ReadChunk 5).2.2 = none) ↔
        ([] : List UInt8) = [] ∧
          (ChunkReader.ReadChunk ⟨⟨[0, 0, 0, 1], .eof⟩, Cipher.tagging 0 1, some (Aead.tagging 1),
            [0]⟩).2 = .ok []) ∧
      ([] : List UInt8) = [] ∧
        (ChunkReader.ReadChunk ⟨⟨[0, 0, 0, 1], .eof⟩, Cipher.tagging 0 1, some (Aead.tagging 1),
          [0]⟩).2 = .ok [] :=
  ⟨by decide, Read_returns_nothing_iff_empty_chunk (by decide), rfl, rfl⟩

theorem writeTo_isSome_of_measure (μ : σ → Nat)
    (shrinks : ∀ x x' p, readChunk x = (x', .ok p) → μ x' + p.length + 1 ≤ μ x)
    {fuel written : Nat} {w : Sink} (progresses : w.Progresses)
    (enough : c.leftover.length + μ c.cr + 1 ≤ fuel) :
    (c.writeTo readChunk fuel w written).isSome := by
  induction fuel generalizing c w written with
  | zero => omega
  | succ fuel ih =>
    unfold Converter.writeTo
    by_cases held : c.leftover = []
    · rw [ensureLeftover_of_empty held]
      rcases read : readChunk c.cr with ⟨x, e | p⟩
      · rfl
      · dsimp only
        rcases sent : w.write p with ⟨w₁, m, _ | e⟩ <;> dsimp only
        · obtain ⟨-, reply, -, -, -⟩ := Sink.write_spec sent
          refine ih (fun k => reply ▸ progresses k) ?_
          have := shrinks _ _ _ read
          simp only [held, List.length_nil, List.length_drop] at enough ⊢
          omega
        · rfl
    · rw [ensureLeftover_of_held held]
      dsimp only
      rcases sent : w.write c.leftover with ⟨w₁, m, _ | e⟩ <;> dsimp only
      · obtain ⟨-, reply, -, -, moved⟩ := Sink.write_spec sent
        refine ih (fun k => reply ▸ progresses k) ?_
        have := moved rfl progresses held
        have := List.length_pos.2 held
        simp only [List.length_drop] at enough ⊢
        omega
      · rfl

theorem writeTo_more_fuel {fuel fuel' written : Nat} {w : Sink}
    {r : Converter σ × Sink × Nat × Option Err}
    (wrote : c.writeTo readChunk fuel w written = some r) (more : fuel ≤ fuel') :
    c.writeTo readChunk fuel' w written = some r := by
  induction fuel generalizing c w written fuel' with
  | zero => nomatch wrote
  | succ fuel ih =>
    obtain ⟨fuel', rfl⟩ : ∃ f, fuel' = f + 1 := ⟨fuel' - 1, by omega⟩
    unfold Converter.writeTo at wrote ⊢
    revert wrote
    rcases c.ensureLeftover readChunk with ⟨c₁, _ | e⟩ <;> dsimp only
    · rcases w.write c₁.leftover with ⟨w₁, m, _ | e⟩ <;> dsimp only
      · exact fun wrote => ih wrote (by omega)
      · exact id
    · exact id

theorem Observes.step {x : σ} {y : τ} (same : Observes readChunk readChunk' x y) :
    (readChunk x).2 = (readChunk' y).2 ∧ Observes readChunk readChunk' (readChunk x).1 (readChunk' y).1 :=
  ⟨List.head_eq_of_cons_eq (same 1), fun m => List.tail_eq_of_cons_eq (same (m + 1))⟩

theorem Observes.symm {x : σ} {y : τ} (same : Observes readChunk readChunk' x y) :
    Observes readChunk' readChunk y x :=
  fun m => (same m).symm

theorem ensureLeftover_mirrors (mirrors : Mirrors readChunk readChunk' c d) :
    (c.ensureLeftover readChunk).2 = (d.ensureLeftover readChunk').2 ∧
      Mirrors readChunk readChunk' (c.ensureLeftover readChunk).1 (d.ensureLeftover readChunk').1 := by
  by_cases held : c.leftover = []
  · rw [ensureLeftover_of_empty held, ensureLeftover_of_empty (mirrors.leftover ▸ held)]
    obtain ⟨result, next⟩ := mirrors.observes.step
    exact ⟨by rw [result], next, by dsimp only; rw [result]⟩
  · rw [ensureLeftover_of_held held, ensureLeftover_of_held (mirrors.leftover ▸ held)]
    exact ⟨rfl, mirrors⟩

theorem Read_mirrors (mirrors : Mirrors readChunk readChunk' c d) (n : Nat) :
    (c.Read readChunk n).2 = (d.Read readChunk' n).2 ∧
      Mirrors readChunk readChunk' (c.Read readChunk n).1 (d.Read readChunk' n).1 := by
  obtain ⟨err, ensured⟩ := ensureLeftover_mirrors mirrors
  unfold Converter.Read
  revert err ensured
  rcases c.ensureLeftover readChunk with ⟨c₁, _ | e⟩ <;>
    rcases d.ensureLeftover readChunk' with ⟨d₁, _ | e'⟩ <;> dsimp only <;> intro err ensured
  · exact ⟨by rw [ensured.leftover], ensured.observes, by dsimp only; rw [ensured.leftover]⟩
  · nomatch err
  · nomatch err
  · cases err
    exact ⟨rfl, ensured⟩

theorem writeTo_mirrors {fuel written : Nat} {w : Sink} {r : Converter σ × Sink × Nat × Option Err}
    (mirrors : Mirrors readChunk readChunk' c d)
    (wrote : c.writeTo readChunk fuel w written = some r) :
    ∃ d', d.writeTo readChunk' fuel w written = some (d', r.2) ∧
      Mirrors readChunk readChunk' r.1 d' := by
  induction fuel generalizing c d w written with
  | zero => nomatch wrote
  | succ fuel ih =>
    obtain ⟨err, ensured⟩ := ensureLeftover_mirrors mirrors
    unfold Converter.writeTo at wrote ⊢
    revert wrote err ensured
    rcases c.ensureLeftover readChunk with ⟨c₁, _ | e⟩ <;>
      rcases d.ensureLeftover readChunk' with ⟨d₁, _ | e'⟩ <;> dsimp only <;>
      intro err ensured wrote
    · rw [← ensured.leftover]
      revert wrote
      rcases w.write c₁.leftover with ⟨w₁, m, _ | e⟩ <;> dsimp only <;> intro wrote
      · refine ih ?_ wrote
        exact ⟨ensured.observes, rfl⟩
      · cases wrote
        exact ⟨_, rfl, ensured.observes, rfl⟩
    · nomatch err
    · nomatch err
    · cases err
      cases wrote
      exact ⟨d₁, rfl, ensured⟩

section Budgets
variable {budget : Converter σ → Nat} {budget' : Converter τ → Nat}

theorem call_mirrors {call : ReaderCall} {c' : Converter σ} {o : Outcome}
    (mirrors : Mirrors readChunk readChunk' c d) (called : c.call readChunk budget call = some (c', o))
    (ends : (d.call readChunk' budget' call).isSome) :
    ∃ d', d.call readChunk' budget' call = some (d', o) ∧ Mirrors readChunk readChunk' c' d' := by
  cases call with
  | read n =>
    obtain ⟨result, next⟩ := Read_mirrors mirrors n
    rcases read : c.Read readChunk n with ⟨c₁, out, err⟩
    rcases read' : d.Read readChunk' n with ⟨d₁, out', err'⟩
    rw [read, read'] at result next
    simp only [Prod.mk.injEq] at result
    obtain ⟨rfl, rfl⟩ := result
    simp only [Converter.call, read, read', Option.some.injEq] at called ⊢
    obtain ⟨rfl, rfl⟩ := Prod.mk.inj called
    exact ⟨d₁, rfl, next⟩
  | writeTo w =>
    obtain ⟨⟨c₁, w', n, err⟩, wrote, handed⟩ := Option.map_eq_some'.1 called
    obtain ⟨rfl, rfl⟩ := Prod.mk.inj handed
    obtain ⟨d₁, wrote', next⟩ := writeTo_mirrors mirrors wrote
    obtain ⟨r, ended⟩ := Option.isSome_iff_exists.1 (Option.isSome_map'.symm.trans ends)
    have agree : r = (d₁, w', n, err) := Option.some.inj <|
      (writeTo_more_fuel ended (Nat.le_max_left _ (budget c))).symm.trans
        (writeTo_more_fuel wrote' (Nat.le_max_right (budget' d) _))
    subst agree
    exact ⟨d₁, by simp only [Converter.call, Converter.WriteTo] at ended ⊢; rw [ended]; rfl, next⟩

theorem run_mirrors {calls : List ReaderCall} {c' : Converter σ} {outcomes : List Outcome}
    (mirrors : Mirrors readChunk readChunk' c d)
    (ran : c.run readChunk budget calls = some (c', outcomes))
    (ends : ∀ (d : Converter τ) call, call ∈ calls → (d.call readChunk' budget' call).isSome) :
    ∃ d', d.run readChunk' budget' calls = some (d', outcomes) ∧
      Mirrors readChunk readChunk' c' d' := by
  induction calls generalizing c d outcomes with
  | nil =>
    obtain ⟨rfl, rfl⟩ := Prod.mk.inj (Option.some.inj ran)
    exact ⟨d, rfl, mirrors⟩
  | cons call calls ih =>
    rcases called : c.call readChunk budget call with _ | ⟨c₁, o⟩ <;>
      simp only [Converter.run, called] at ran
    · nomatch ran
    obtain ⟨⟨c₂, outs⟩, ran', handed⟩ := Option.map_eq_some'.1 ran
    obtain ⟨rfl, rfl⟩ := Prod.mk.inj handed
    obtain ⟨d₁, called', next⟩ :=
      call_mirrors mirrors called (ends d call (List.mem_cons_self _ _))
    obtain ⟨d₂, ran'', last⟩ :=
      ih next ran' fun d call mem => ends d call (List.mem_cons_of_mem _ mem)
    exact ⟨d₂, by simp only [Converter.run, called', ran'', Option.map_some'], last⟩

end Budgets

end Generic

end Shadowsocks
