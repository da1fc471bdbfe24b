import Shadowsocks.Converter

/-!
`readConverter` over a chunk reader that yields a list of chunks and then an error (and
`io.EOF` after that). Whatever the calls, their buffer lengths and the sinks' replies,
the bytes the converter hands out are, in order, a prefix of the chunks' concatenation,
and together with what it holds and what the chunk reader still has they are all of it.
The chunk reader's error reaches a caller only once everything before it was handed out.
-/

namespace Shadowsocks

/-- A `ChunkReader` that yields `chunks`, then reports `final` once and `io.EOF` after. -/
structure ChunkSource where
  chunks : List (List UInt8)
  final : Err

def ChunkSource.readChunk (s : ChunkSource) : ChunkSource × Except Err (List UInt8) :=
  match s.chunks with
  | [] => ({ s with final := .eof }, .error s.final)
  | c :: cs => ({ s with chunks := cs }, .ok c)

def Converter.data (c : Converter ChunkSource) : List UInt8 := c.leftover ++ c.cr.chunks.flatten

def ChunkSource.size (s : ChunkSource) : Nat := s.chunks.length + (s.chunks.map List.length).sum

def Converter.sourceBudget (c : Converter ChunkSource) : Nat := c.leftover.length + c.cr.size + 1

/-! ### One call over a chunk source -/

section Source
variable {c c' : Converter ChunkSource}

@[simp] theorem data_mk (s : ChunkSource) (leftover : List UInt8) :
    (⟨s, leftover⟩ : Converter ChunkSource).data = leftover ++ s.chunks.flatten := rfl

theorem ensureLeftover_source {err : Option Err}
    (ensured : c.ensureLeftover ChunkSource.readChunk = (c', err)) :
    c'.data = c.data ∧ (c.leftover ≠ [] → c' = c ∧ err = none) ∧
      (∀ e, err = some e → c.data = [] ∧ e = c.cr.final ∧ c'.data = [] ∧ c'.cr.final = .eof) ∧
      (err = none → c'.cr.final = c.cr.final) := by
  unfold Converter.ensureLeftover at ensured
  split at ensured
  · next held =>
    obtain ⟨rfl, rfl⟩ := Prod.mk.inj ensured
    exact ⟨rfl, fun _ => ⟨rfl, rfl⟩, fun _ found => (nomatch found), fun _ => rfl⟩
  · next empty =>
    simp only [ne_eq, Decidable.not_not] at empty
    rcases c with ⟨⟨chunks, final⟩, leftover⟩
    subst empty
    cases chunks with
    | nil =>
      obtain ⟨rfl, rfl⟩ := Prod.mk.inj ensured
      exact ⟨rfl, fun held => absurd rfl held, fun e found => by cases found; simp, nofun⟩
    | cons chunk chunks =>
      obtain ⟨rfl, rfl⟩ := Prod.mk.inj ensured
      exact ⟨by simp [Converter.data], fun held => absurd rfl held, nofun, fun _ => rfl⟩

theorem ensureLeftover_final {err : Option Err}
    (ensured : c.ensureLeftover ChunkSource.readChunk = (c', err)) :
    c'.cr.final = c.cr.final ∨ c'.cr.final = .eof := by
  obtain ⟨-, -, failed, kept⟩ := ensureLeftover_source ensured
  cases err with
  | none => exact .inl (kept rfl)
  | some e => exact .inr (failed e rfl).2.2.2

theorem Read_source {n : Nat} {out : List UInt8} {err : Option Err}
    (read : c.Read ChunkSource.readChunk n = (c', out, err)) :
    out ++ c'.data = c.data ∧ out.length ≤ n ∧
      (∀ e, err = some e → out = [] ∧ c.data = [] ∧ e = c.cr.final) ∧
      (c'.cr.final = c.cr.final ∨ c'.cr.final = .eof) := by
  unfold Converter.Read at read
  rcases ensured : c.ensureLeftover ChunkSource.readChunk with ⟨c₁, _ | e⟩ <;>
    rw [ensured] at read <;> obtain ⟨same, -, failed, -⟩ := ensureLeftover_source ensured
  · obtain ⟨rfl, rfl, rfl⟩ := read
    have final := ensureLeftover_final ensured
    refine ⟨?_, List.length_take_le _ _, nofun, final⟩
    rw [← same]
    simp [Converter.data, ← List.append_assoc]
  · obtain ⟨rfl, rfl, rfl⟩ := read
    obtain ⟨nothing, rfl, -⟩ := failed e rfl
    exact ⟨same, by simp, fun _ found => by cases found; exact ⟨rfl, nothing, rfl⟩,
      ensureLeftover_final ensured⟩

theorem data_drop (c : Converter ChunkSource) (m : Nat) :
    c.leftover.take m ++ ({ c with leftover := c.leftover.drop m } : Converter ChunkSource).data =
      c.data := by
  simp only [Converter.data, ← List.append_assoc, List.take_append_drop]

theorem writeTo_source {fuel written n : Nat} {w w' : Sink} {err : Option Err}
    (wrote : c.writeTo ChunkSource.readChunk fuel w written = some (c', w', n, err)) :
    ∃ taken, w'.writes = w.writes ++ taken ∧ w'.reply = w.reply ∧
      taken.flatten ++ c'.data = c.data ∧ n = written + taken.flatten.length ∧
      (c'.cr.final = c.cr.final ∨ c'.cr.final = .eof) ∧
      ((c'.data = [] ∧ err = if c.cr.final = .eof then none else some c.cr.final) ∨
        (err ≠ none ∧ err = (w.reply (w'.writes.length - 1)).2)) := by
  induction fuel generalizing c w written with
  | zero => nomatch wrote
  | succ fuel ih =>
    unfold Converter.writeTo at wrote
    rcases ensured : c.ensureLeftover ChunkSource.readChunk with ⟨c₁, _ | e⟩ <;>
      rw [ensured] at wrote <;> dsimp only at wrote <;>
      obtain ⟨same, -, failed, kept⟩ := ensureLeftover_source ensured
    · have final₁ := kept rfl
      rcases sent : w.write c₁.leftover with ⟨w₁, m, _ | e⟩ <;> rw [sent] at wrote <;>
        dsimp only at wrote <;> obtain ⟨writes, reply, bound, reported, -⟩ := Sink.write_spec sent
      · obtain ⟨taken, writes', reply', data, count, final, ended⟩ := ih wrote
        dsimp only at final ended
        rw [final₁] at final ended
        rw [reply] at ended
        refine ⟨[c₁.leftover.take m] ++ taken, by rw [writes', writes, List.append_assoc],
          reply'.trans reply, ?_, ?_, final, ended⟩
        · rw [List.flatten_append, List.append_assoc, data, ← same]
          simpa using data_drop c₁ m
        · simp [count, bound, Nat.add_assoc]
      · simp only [Option.some.injEq, Prod.mk.injEq] at wrote
        obtain ⟨rfl, rfl, rfl, rfl⟩ := wrote
        refine ⟨[c₁.leftover.take m], writes, reply, ?_, by simp [bound], .inl final₁,
          .inr ⟨nofun, by simpa [writes] using reported⟩⟩
        rw [← same]
        simpa using data_drop c₁ m
    · simp only [Option.some.injEq, Prod.mk.injEq] at wrote
      obtain ⟨rfl, rfl, rfl, rfl⟩ := wrote
      obtain ⟨nothing, rfl, gone, eof⟩ := failed e rfl
      exact ⟨[], by simp, rfl, by simpa using same, by simp, .inr eof, .inl ⟨gone, rfl⟩⟩

theorem ChunkSource.size_readChunk {s s' : ChunkSource} {p : List UInt8}
    (read : s.readChunk = (s', .ok p)) : s'.size + p.length + 1 ≤ s.size := by
  unfold ChunkSource.readChunk at read
  split at read
  · nomatch read
  · next c cs taken =>
    obtain ⟨rfl, same⟩ := Prod.mk.inj read
    cases same
    simp only [ChunkSource.size, taken, List.length_cons, List.map_cons, List.sum_cons]
    omega

theorem writeTo_isSome {fuel written : Nat} {w : Sink} (progresses : w.Progresses)
    (enough : c.sourceBudget ≤ fuel) :
    (c.writeTo ChunkSource.readChunk fuel w written).isSome :=
  writeTo_isSome_of_measure ChunkSource.size (fun _ _ _ => ChunkSource.size_readChunk)
    progresses enough

theorem call_source {call : ReaderCall} {o : Outcome}
    (called : c.call ChunkSource.readChunk Converter.sourceBudget call = some (c', o)) :
    o.delivered ++ c'.data = c.data ∧ (c'.cr.final = c.cr.final ∨ c'.cr.final = .eof) := by
  cases call with
  | read n =>
    rcases read : c.Read ChunkSource.readChunk n with ⟨c₁, out, err⟩
    simp only [Converter.call, read, Option.some.injEq] at called
    obtain ⟨rfl, rfl⟩ := Prod.mk.inj called
    obtain ⟨rest, -, -, final⟩ := Read_source read
    exact ⟨rest, final⟩
  | writeTo w =>
    obtain ⟨⟨c₁, w', n, err⟩, wrote, handed⟩ := Option.map_eq_some'.1 called
    obtain ⟨rfl, rfl⟩ := Prod.mk.inj handed
    obtain ⟨taken, writes, -, rest, -, final, -⟩ := writeTo_source wrote
    exact ⟨by simpa [writes] using rest, final⟩

theorem call_isSome (call : ReaderCall) (progresses : ∀ w, call = .writeTo w → w.Progresses) :
    (c.call ChunkSource.readChunk Converter.sourceBudget call).isSome := by
  cases call with
  | read n => rfl
  | writeTo w =>
    exact Option.isSome_map'.trans (writeTo_isSome (progresses w rfl) (Nat.le_refl _))

theorem run_source {calls : List ReaderCall} {outcomes : List Outcome}
    (ran : c.run ChunkSource.readChunk Converter.sourceBudget calls = some (c', outcomes)) :
    handedOut outcomes ++ c'.data = c.data ∧
      (c'.cr.final = c.cr.final ∨ c'.cr.final = .eof) := by
  induction calls generalizing c outcomes with
  | nil =>
    obtain ⟨rfl, rfl⟩ := Prod.mk.inj (Option.some.inj ran)
    exact ⟨rfl, .inl rfl⟩
  | cons call calls ih =>
    rcases called : c.call ChunkSource.readChunk Converter.sourceBudget call with _ | ⟨c₁, o⟩ <;>
      simp only [Converter.run, called] at ran
    · nomatch ran
    obtain ⟨⟨c₂, outs⟩, ran', handed⟩ := Option.map_eq_some'.1 ran
    obtain ⟨rfl, rfl⟩ := Prod.mk.inj handed
    obtain ⟨rest, final⟩ := call_source called
    obtain ⟨rest', final'⟩ := ih ran'
    refine ⟨by rw [handedOut, List.map_cons, List.flatten_cons, List.append_assoc, ← handedOut,
      rest', rest], ?_⟩
    rcases final' with same | eof
    · exact same ▸ final
    · exact .inr eof

theorem run_isSome {calls : List ReaderCall}
    (progresses : ∀ w, ReaderCall.writeTo w ∈ calls → w.Progresses) :
    (c.run ChunkSource.readChunk Converter.sourceBudget calls).isSome := by
  induction calls generalizing c with
  | nil => rfl
  | cons call calls ih =>
    have called := call_isSome (c := c) call fun w is => progresses w (is ▸ List.mem_cons_self _ _)
    obtain ⟨⟨c₁, o⟩, found⟩ := Option.isSome_iff_exists.1 called
    simp only [Converter.run, found]
    exact Option.isSome_map'.trans (ih fun w mem => progresses w (List.mem_cons_of_mem _ mem))

end Source

/-- `readConverter` over a chunk source hands out the chunks' bytes in order and reports the
source's error only after all of them; every run of calls into progressing sinks returns. -/
theorem readConverter_hands_out_chunks_in_order (src : ChunkSource) :
    (∀ {σ : Type} (readChunk : σ → σ × Except Err (List UInt8)) (c : Converter σ),
      c.leftover ≠ [] → c.ensureLeftover readChunk = (c, none)) ∧
    (∀ calls : List ReaderCall, (∀ w, ReaderCall.writeTo w ∈ calls → w.Progresses) →
      ((⟨src, []⟩ : Converter ChunkSource).run ChunkSource.readChunk Converter.sourceBudget
        calls).isSome) ∧
    ∀ calls c outcomes,
      (⟨src, []⟩ : Converter ChunkSource).run ChunkSource.readChunk Converter.sourceBudget
        calls = some (c, outcomes) →
      handedOut outcomes ++ c.data = src.chunks.flatten ∧
      (c.cr.final = src.final ∨ c.cr.final = .eof) ∧
      (∀ n c' out err, c.Read ChunkSource.readChunk n = (c', out, err) →
        out.length ≤ n ∧ handedOut outcomes ++ out ++ c'.data = src.chunks.flatten ∧
        ∀ e, err = some e → out = [] ∧ handedOut outcomes = src.chunks.flatten ∧
          e = c.cr.final) ∧
      (∀ w, w.Progresses → ∃ c' w' n err,
        c.WriteTo ChunkSource.readChunk c.sourceBudget w = some (c', w', n, err) ∧
        ∃ taken, w'.writes = w.writes ++ taken ∧ n = taken.flatten.length ∧
          handedOut outcomes ++ taken.flatten ++ c'.data = src.chunks.flatten ∧
          ((handedOut outcomes ++ taken.flatten = src.chunks.flatten ∧
              err = if c.cr.final = .eof then none else some c.cr.final) ∨
            (err ≠ none ∧ err = (w.reply (w'.writes.length - 1)).2))) := by
  refine ⟨fun _ _ held => ensureLeftover_of_held held,
    fun calls progresses => run_isSome progresses, fun calls c outcomes ran => ?_⟩
  obtain ⟨account, final⟩ := run_source ran
  simp only [data_mk, List.nil_append] at account
  refine ⟨account, final, fun n c' out err read => ?_, fun w progresses => ?_⟩
  · obtain ⟨rest, bound, failed, -⟩ := Read_source read
    refine ⟨bound, by rw [List.append_assoc, rest, account], fun e found => ?_⟩
    obtain ⟨rfl, nothing, rfl⟩ := failed e found
    exact ⟨rfl, by rwa [nothing, List.append_nil] at account, rfl⟩
  · have ends : (c.WriteTo ChunkSource.readChunk c.sourceBudget w).isSome :=
      writeTo_isSome progresses (Nat.le_refl _)
    obtain ⟨⟨c', w', n, err⟩, wrote⟩ := Option.isSome_iff_exists.1 ends
    obtain ⟨taken, writes, -, rest, count, -, ended⟩ := writeTo_source wrote
    refine ⟨c', w', n, err, wrote, taken, writes, by simpa using count,
      by rw [List.append_assoc, rest, account], ?_⟩
    rcases ended with ⟨gone, reported⟩ | sink
    · exact .inl ⟨by rw [← account, ← rest, gone, List.append_nil], reported⟩
    · exact .inr sink

/-! ### Reads into non-empty buffers, and sinks that take everything -/

theorem Sink.AcceptsAll.progresses {w : Sink} (accepting : w.AcceptsAll) : w.Progresses :=
  fun n _ => by simp [accepting n]

section Reads
variable {c c' : Converter ChunkSource} {budget : Converter ChunkSource → Nat}

theorem Read_progress {n : Nat} {out : List UInt8} {err : Option Err} (pos : 0 < n)
    (nonempty : ∀ p ∈ c.cr.chunks, p ≠ [])
    (read : c.Read ChunkSource.readChunk n = (c', out, err)) :
    (c.data ≠ [] → out ≠ [] ∧ err = none ∧ c'.cr.final = c.cr.final) ∧
      (c.data = [] → err = some c.cr.final) ∧ ∀ p ∈ c'.cr.chunks, p ≠ [] := by
  obtain ⟨⟨chunks, final⟩, leftover⟩ := c
  unfold Converter.Read at read
  cases leftover with
  | cons x xs =>
    rw [ensureLeftover_of_held (List.cons_ne_nil x xs)] at read
    obtain ⟨rfl, rfl, rfl⟩ := read
    exact ⟨fun _ => ⟨by simp [pos.ne'], rfl, rfl⟩, fun gone => by simp at gone, nonempty⟩
  | nil =>
    rw [ensureLeftover_of_empty rfl] at read
    cases chunks with
    | nil =>
      obtain ⟨rfl, rfl, rfl⟩ := read
      exact ⟨fun left => absurd rfl left, fun _ => rfl, nofun⟩
    | cons p ps =>
      obtain ⟨rfl, rfl, rfl⟩ := read
      have first := nonempty p (List.mem_cons_self _ _)
      exact ⟨fun _ => ⟨by simp [ChunkSource.readChunk, first, pos.ne'], rfl, rfl⟩,
        fun gone => by simp [first] at gone,
        fun q mem => nonempty q (List.mem_cons_of_mem _ mem)⟩

theorem run_reads_errors {ns : List Nat} {outcomes : List Outcome}
    (ran : c.run ChunkSource.readChunk budget (ns.map .read) = some (c', outcomes)) :
    ∀ pre o post, outcomes = pre ++ o :: post → o.err ≠ none →
      (o.err = some c.cr.final ∨ o.err = some .eof) ∧ handedOut pre = c.data := by
  induction ns generalizing c outcomes with
  | nil =>
    obtain ⟨-, rfl⟩ := Prod.mk.inj (Option.some.inj ran)
    intro pre o post split
    simp at split
  | cons n ns ih =>
    rcases read : c.Read ChunkSource.readChunk n with ⟨c₁, out, err⟩
    simp only [List.map_cons, Converter.run, Converter.call, read] at ran
    obtain ⟨⟨c₂, outs⟩, ran', handed⟩ := Option.map_eq_some'.1 ran
    obtain ⟨rfl, rfl⟩ := Prod.mk.inj handed
    obtain ⟨rest, -, failed, final⟩ := Read_source read
    intro pre o post split reported
    cases pre with
    | nil =>
      obtain ⟨rfl, -⟩ := List.cons.inj split
      obtain ⟨e, found⟩ := Option.ne_none_iff_exists'.1 reported
      obtain ⟨-, nothing, rfl⟩ := failed e found
      exact ⟨.inl found, nothing.symm⟩
    | cons p pre =>
      obtain ⟨rfl, later⟩ := List.cons.inj split
      obtain ⟨named, handed⟩ := ih ran' pre o post later reported
      refine ⟨?_, by rw [handedOut_cons, handed, rest]⟩
      rcases final with same | eof
      · rwa [← same]
      · rw [eof] at named
        exact .inr (named.elim id id)

theorem run_reads_progress {ns : List Nat} {outcomes : List Outcome} (pos : ∀ n ∈ ns, 0 < n)
    (nonempty : ∀ p ∈ c.cr.chunks, p ≠ []) (enough : c.data.length < ns.length)
    (ran : c.run ChunkSource.readChunk budget (ns.map .read) = some (c', outcomes)) :
    ∃ pre o post, outcomes = pre ++ o :: post ∧ (∀ o' ∈ pre, o'.err = none) ∧
      handedOut pre = c.data ∧ o.err = some c.cr.final := by
  induction ns generalizing c outcomes with
  | nil => exact absurd enough (Nat.not_lt_zero _)
  | cons n ns ih =>
    rcases read : c.Read ChunkSource.readChunk n with ⟨c₁, out, err⟩
    simp only [List.map_cons, Converter.run, Converter.call, read] at ran
    obtain ⟨⟨c₂, outs⟩, ran', handed⟩ := Option.map_eq_some'.1 ran
    obtain ⟨rfl, rfl⟩ := Prod.mk.inj handed
    obtain ⟨more, dry, nonempty₁⟩ := Read_progress (pos n (List.mem_cons_self _ _)) nonempty read
    by_cases gone : c.data = []
    · exact ⟨[], _, outs, rfl, nofun, by rw [gone]; rfl, dry gone⟩
    obtain ⟨given, quiet, final⟩ := more gone
    have took := (Read_source read).1
    have shorter : c₁.data.length < ns.length := by
      have := List.length_pos.2 given
      rw [← took, List.length_append, List.length_cons] at enough
      omega
    obtain ⟨pre, o, post, rfl, quiets, handed, failed⟩ :=
      ih (fun m mem => pos m (List.mem_cons_of_mem _ mem)) nonempty₁ shorter ran'
    refine ⟨⟨out, out.length, err⟩ :: pre, o, post, rfl, List.forall_mem_cons.2 ⟨quiet, quiets⟩,
      ?_, final ▸ failed⟩
    rw [handedOut_cons, handed, took]

end Reads

/-- What `Read` calls into buffers of lengths `ns` hand out over bytes `data` that end
with the error `e`. -/
structure ReadsOut (data : List UInt8) (e : Err) (ns : List Nat) (outcomes : List Outcome) :
    Prop where
  handed : handedOut outcomes <+: data
  errors : ∀ pre o post, outcomes = pre ++ o :: post → o.err ≠ none →
    (o.err = some e ∨ o.err = some .eof) ∧ handedOut pre = data
  all : (∀ n ∈ ns, 0 < n) → data.length < ns.length →
    handedOut outcomes = data ∧ ∃ pre o post, outcomes = pre ++ o :: post ∧
      (∀ o' ∈ pre, o'.err = none) ∧ o.err = some e

theorem run_reads_source (src : ChunkSource) (nonempty : ∀ p ∈ src.chunks, p ≠ [])
    (ns : List Nat) :
    ∃ dv outcomes, (⟨src, []⟩ : Converter ChunkSource).run ChunkSource.readChunk
        Converter.sourceBudget (ns.map .read) = some (dv, outcomes) ∧
      ReadsOut src.chunks.flatten src.final ns outcomes := by
  have ends : ((⟨src, []⟩ : Converter ChunkSource).run ChunkSource.readChunk Converter.sourceBudget
      (ns.map .read)).isSome := run_isSome fun w mem => by simp at mem
  obtain ⟨⟨dv, outcomes⟩, ran⟩ := Option.isSome_iff_exists.1 ends
  have account : handedOut outcomes ++ dv.data = src.chunks.flatten := (run_source ran).1
  refine ⟨dv, outcomes, ran, ⟨_, account⟩, run_reads_errors ran, fun pos enough => ?_⟩
  obtain ⟨pre, o, post, rfl, quiets, handed, failed⟩ := run_reads_progress pos nonempty
    (c := ⟨src, []⟩) enough ran
  change handedOut pre = src.chunks.flatten at handed
  have longer : src.chunks.flatten <+: handedOut (pre ++ o :: post) := by
    rw [handedOut_append, handed]
    exact List.prefix_append _ _
  exact ⟨List.IsPrefix.eq_of_length_le ⟨_, account⟩ longer.length_le, pre, o, post, rfl, quiets,
    failed⟩

theorem WriteTo_source_all {c : Converter ChunkSource} {w : Sink} (accepting : w.AcceptsAll) :
    ∃ c' w', c.WriteTo ChunkSource.readChunk c.sourceBudget w =
        some (c', w', c.data.length, if c.cr.final = .eof then none else some c.cr.final) ∧
      (w'.writes.drop w.writes.length).flatten = c.data := by
  have ends : (c.writeTo ChunkSource.readChunk c.sourceBudget w 0).isSome :=
    writeTo_isSome accepting.progresses (Nat.le_refl _)
  obtain ⟨⟨c', w', n, err⟩, wrote⟩ := Option.isSome_iff_exists.1 ends
  obtain ⟨taken, writes, -, rest, count, -, ended⟩ := writeTo_source wrote
  rcases ended with ⟨gone, rfl⟩ | ⟨reported, sink⟩
  · rw [gone, List.append_nil] at rest
    refine ⟨c', w', ?_, by simp [writes, rest]⟩
    rw [← rest, ← Nat.zero_add taken.flatten.length, ← count]
    exact wrote
  · rw [accepting] at sink
    exact absurd sink reported

end Shadowsocks
