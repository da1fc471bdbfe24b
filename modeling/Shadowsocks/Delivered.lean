import Shadowsocks.ReaderErrors

/-!
What `readConverter` of shadowsocks/stream.go hands out, over any chunk reader: the bytes
of the chunks its `ReadChunk` calls returned, in order, then what it still holds. An error
hands out nothing, and every error reaches the caller except the `io.EOF` that `WriteTo`
turns into no error. Over `chunkReader`, where `io.EOF` means the stream is used up, an
application whose `Read` and `WriteTo` calls all succeed has read only payloads sealed under
consecutive nonces after an accepted salt, in order; and a set-up reader keeps its AEAD
whatever the stream holds.
-/

namespace Shadowsocks

def okBytes : List (Except Err (List UInt8)) → List UInt8
  | [] => []
  | .ok p :: results => p ++ okBytes results
  | .error _ :: results => okBytes results

@[simp] theorem okBytes_append (rs rs' : List (Except Err (List UInt8))) :
    okBytes (rs ++ rs') = okBytes rs ++ okBytes rs' := by
  induction rs with
  | nil => rfl
  | cons r rs ih => cases r <;> simp [okBytes, ih]

theorem okBytes_of_errors {rs : List (Except Err (List UInt8))}
    (failed : ∀ r ∈ rs, ∃ e, r = .error e) : okBytes rs = [] := by
  induction rs with
  | nil => rfl
  | cons r rs ih =>
    obtain ⟨e, rfl⟩ := failed r (List.mem_cons_self _ _)
    exact ih fun r' mem => failed r' (List.mem_cons_of_mem _ mem)

section Generic
variable {σ : Type} (readChunk : σ → σ × Except Err (List UInt8))

def afterChunks : Nat → σ → σ
  | 0, x => x
  | m + 1, x => afterChunks m (readChunk x).1

theorem readChunks_add (m k : Nat) (x : σ) :
    readChunks readChunk (m + k) x =
      readChunks readChunk m x ++ readChunks readChunk k (afterChunks readChunk m x) := by
  induction m generalizing x with
  | zero => simp [readChunks, afterChunks]
  | succ m ih => rw [Nat.succ_add]; simp [readChunks, afterChunks, ih]

theorem afterChunks_add (m k : Nat) (x : σ) :
    afterChunks readChunk (m + k) x = afterChunks readChunk k (afterChunks readChunk m x) := by
  induction m generalizing x with
  | zero => simp [afterChunks]
  | succ m ih => rw [Nat.succ_add]; simp [afterChunks, ih]

/-- From `c` to `c'` the converter made `m` `ReadChunk` calls and handed out `out`: what it
held and their chunks are `out` and what it holds; and every error they gave was reported
in `errs`, but an `io.EOF` when `hides` holds. -/
structure Delivers (m : Nat) (c c' : Converter σ) (out : List UInt8) (errs : List Err)
    (hides : Prop) : Prop where
  cr : c'.cr = afterChunks readChunk m c.cr
  bytes : out ++ c'.leftover = c.leftover ++ okBytes (readChunks readChunk m c.cr)
  errors : ∀ e, .error e ∈ readChunks readChunk m c.cr → e ∈ errs ∨ (e = .eof ∧ hides)

variable {readChunk}

theorem Delivers.trans {m₁ m₂ : Nat} {c₁ c₂ c₃ : Converter σ} {out₁ out₂ : List UInt8}
    {errs₁ errs₂ : List Err} {hides₁ hides₂ : Prop}
    (first : Delivers readChunk m₁ c₁ c₂ out₁ errs₁ hides₁)
    (second : Delivers readChunk m₂ c₂ c₃ out₂ errs₂ hides₂) :
    Delivers readChunk (m₁ + m₂) c₁ c₃ (out₁ ++ out₂) (errs₁ ++ errs₂) (hides₁ ∨ hides₂) where
  cr := by rw [second.cr, first.cr, afterChunks_add]
  bytes := by
    rw [readChunks_add, okBytes_append, ← first.cr]
    calc out₁ ++ out₂ ++ c₃.leftover
        = out₁ ++ c₂.leftover ++ okBytes (readChunks readChunk m₂ c₂.cr) := by
          rw [List.append_assoc, second.bytes, List.append_assoc]
      _ = c₁.leftover ++ (okBytes (readChunks readChunk m₁ c₁.cr) ++
          okBytes (readChunks readChunk m₂ c₂.cr)) := by rw [first.bytes, List.append_assoc]
  errors e mem := by
    rw [readChunks_add, List.mem_append, ← first.cr] at mem
    rcases mem with early | late
    · exact (first.errors e early).imp (List.mem_append_left _) (And.imp_right .inl)
    · exact (second.errors e late).imp (List.mem_append_right _) (And.imp_right .inr)

theorem Delivers.take {m : Nat} {c c₁ : Converter σ} {errs : List Err} {hides : Prop}
    (held : Delivers readChunk m c c₁ [] errs hides) (k : Nat) :
    Delivers readChunk m c { c₁ with leftover := c₁.leftover.drop k } (c₁.leftover.take k) errs
      hides :=
  ⟨held.cr, by rw [List.take_append_drop, ← held.bytes, List.nil_append], held.errors⟩

theorem ensureLeftover_delivers {c c' : Converter σ} {err : Option Err}
    (ensured : c.ensureLeftover readChunk = (c', err)) :
    ∃ m, Delivers readChunk m c c' [] err.toList False := by
  by_cases held : c.leftover = []
  · rw [ensureLeftover_of_empty held] at ensured
    obtain ⟨rfl, rfl⟩ := Prod.mk.inj ensured
    refine ⟨1, rfl, ?_, ?_⟩ <;> simp only [readChunks, held] <;>
      rcases readChunk c.cr with ⟨x, e | p⟩ <;> simp [okBytes]
  · rw [ensureLeftover_of_held held] at ensured
    obtain ⟨rfl, rfl⟩ := Prod.mk.inj ensured
    exact ⟨0, rfl, by simp [readChunks, okBytes], by simp [readChunks]⟩

theorem Read_delivers {c c' : Converter σ} {n : Nat} {out : List UInt8} {err : Option Err}
    (read : c.Read readChunk n = (c', out, err)) :
    ∃ m, Delivers readChunk m c c' out err.toList False := by
  unfold Converter.Read at read
  rcases ensured : c.ensureLeftover readChunk with ⟨c₁, _ | e⟩ <;> rw [ensured] at read <;>
    dsimp only at read
  · obtain ⟨m, held⟩ := ensureLeftover_delivers ensured
    obtain ⟨rfl, found⟩ := Prod.mk.inj read
    obtain ⟨rfl, rfl⟩ := Prod.mk.inj found
    exact ⟨m, held.take n⟩
  · obtain ⟨rfl, found⟩ := Prod.mk.inj read
    obtain ⟨rfl, rfl⟩ := Prod.mk.inj found
    exact ensureLeftover_delivers ensured

theorem Delivers.report {m : Nat} {c c' : Converter σ} {out : List UInt8} {errs errs' : List Err}
    {hides hides' : Prop} (delivers : Delivers readChunk m c c' out errs hides)
    (more : ∀ e ∈ errs, e ∈ errs' ∨ (e = .eof ∧ hides')) (weaker : hides → hides') :
    Delivers readChunk m c c' out errs' hides' :=
  ⟨delivers.cr, delivers.bytes, fun e mem =>
    (delivers.errors e mem).elim (more e) fun ⟨eof, hidden⟩ => .inr ⟨eof, weaker hidden⟩⟩

theorem writeTo_delivers {fuel written written' : Nat} {c c' : Converter σ} {w w' : Sink}
    {err : Option Err} (wrote : c.writeTo readChunk fuel w written = some (c', w', written', err)) :
    ∃ m taken, w'.writes = w.writes ++ taken ∧
      Delivers readChunk m c c' taken.flatten err.toList True := by
  induction fuel generalizing c w written with
  | zero => cases wrote
  | succ fuel ih =>
    unfold Converter.writeTo at wrote
    rcases ensured : c.ensureLeftover readChunk with ⟨c₁, _ | e⟩ <;> rw [ensured] at wrote <;>
      dsimp only at wrote
    · obtain ⟨m, held⟩ := ensureLeftover_delivers ensured
      rcases sent : w.write c₁.leftover with ⟨w₁, k, _ | e⟩ <;> rw [sent] at wrote <;>
        dsimp only at wrote
      · obtain ⟨m', taken, more, rest⟩ := ih wrote
        refine ⟨m + m', [c₁.leftover.take k] ++ taken, ?_, ?_⟩
        · rw [more, (Sink.write_spec sent).1, List.append_assoc]
        · simpa only [List.flatten_append, List.flatten_singleton, List.nil_append] using
            ((held.take k).trans rest).report (fun e mem => .inl mem) fun _ => trivial
      · obtain ⟨rfl, rfl, rfl, rfl⟩ := wrote
        refine ⟨m, [c₁.leftover.take k], (Sink.write_spec sent).1, ?_⟩
        simpa only [List.flatten_singleton] using
          (held.take k).report (by simp) fun _ => trivial
    · obtain ⟨rfl, rfl, rfl, rfl⟩ := wrote
      obtain ⟨m, held⟩ := ensureLeftover_delivers ensured
      refine ⟨m, [], (List.append_nil _).symm, held.report (fun e' mem => ?_) False.elim⟩
      obtain rfl : e' = e := by simpa using mem
      by_cases eof : e' = .eof
      · exact .inr ⟨eof, trivial⟩
      · exact .inl (by simp [eof])

theorem call_delivers {budget : Converter σ → Nat} {c c' : Converter σ} {call : ReaderCall}
    {o : Outcome} (called : c.call readChunk budget call = some (c', o)) :
    ∃ m, Delivers readChunk m c c' o.delivered o.err.toList (∃ w, call = .writeTo w) := by
  cases call with
  | read n =>
    rcases read : c.Read readChunk n with ⟨c₁, out, err⟩
    simp only [Converter.call, read, Option.some.injEq] at called
    obtain ⟨rfl, rfl⟩ := Prod.mk.inj called
    obtain ⟨m, delivers⟩ := Read_delivers read
    exact ⟨m, delivers.report (fun e mem => .inl mem) False.elim⟩
  | writeTo w =>
    obtain ⟨⟨c₁, w', n, err⟩, wrote, rest⟩ := Option.map_eq_some'.mp called
    obtain ⟨rfl, rfl⟩ := Prod.mk.inj rest
    obtain ⟨m, taken, more, delivers⟩ := writeTo_delivers wrote
    exact ⟨m, by simpa only [more, List.drop_left] using
      delivers.report (fun e mem => .inl mem) fun _ => ⟨w, rfl⟩⟩

theorem run_delivers {budget : Converter σ → Nat} {c c' : Converter σ} {calls : List ReaderCall}
    {outcomes : List Outcome} (ran : c.run readChunk budget calls = some (c', outcomes)) :
    ∃ m, Delivers readChunk m c c' (handedOut outcomes) (outcomes.filterMap Outcome.err)
      (∃ w, ReaderCall.writeTo w ∈ calls) := by
  induction calls generalizing c outcomes with
  | nil =>
    obtain ⟨rfl, rfl⟩ := Prod.mk.inj (Option.some.inj ran)
    exact ⟨0, rfl, by simp [readChunks, okBytes, handedOut], by simp [readChunks]⟩
  | cons call calls ih =>
    rcases called : c.call readChunk budget call with _ | ⟨c₁, o⟩ <;>
      simp only [Converter.run, called] at ran
    · nomatch ran
    obtain ⟨⟨c₂, outs⟩, ran', handed⟩ := Option.map_eq_some'.1 ran
    obtain ⟨rfl, rfl⟩ := Prod.mk.inj handed
    obtain ⟨m, first⟩ := call_delivers called
    obtain ⟨m', rest⟩ := ih ran'
    refine ⟨m + m', ?_⟩
    have errs : (o :: outs).filterMap Outcome.err = o.err.toList ++ outs.filterMap Outcome.err := by
      cases found : o.err <;> simp [List.filterMap_cons, found]
    rw [handedOut_cons, errs]
    refine (first.trans rest).report (fun e mem => .inl mem) ?_
    rintro (⟨w, rfl⟩ | ⟨w, mem⟩)
    · exact ⟨w, List.mem_cons_self _ _⟩
    · exact ⟨w, List.mem_cons_of_mem _ mem⟩

end Generic

/-! ### Over `chunkReader` -/

theorem afterChunks_aead {cr : ChunkReader} {d : Aead} (set : cr.aead = some d) (m : Nat) :
    (afterChunks ChunkReader.ReadChunk m cr).aead = some d := by
  induction m generalizing cr with
  | zero => exact set
  | succ m ih => exact ih (ChunkReader.ReadChunk_aead set)

/-- Once `chunkReader` has its AEAD it keeps it through every run of `Read` and `WriteTo`
calls, whatever the stream holds: it never reads a second salt. -/
theorem reader_keys_once :
    ∀ (c c' : Converter ChunkReader) (d : Aead) (calls : List ReaderCall)
      (outcomes : List Outcome), c.cr.aead = some d →
      c.run ChunkReader.ReadChunk Converter.budget calls = some (c', outcomes) →
      c'.cr.aead = some d := by
  intro c c' d calls outcomes set ran
  obtain ⟨m, delivers⟩ := run_delivers ran
  rw [delivers.cr]
  exact afterChunks_aead set m

theorem ChunkReader.ReadChunk_eof_dry {cr cr' : ChunkReader}
    (failed : cr.ReadChunk = (cr', .error .eof)) : cr'.reader.bytes = [] := by
  rcases ChunkReader.ReadChunk_error failed with ⟨dry, -⟩ | ⟨x, wrapped | wrapped⟩ | ⟨x, wrapped⟩
  · rw [dry]
  all_goals cases wrapped

theorem readChunks_eof_prefix (m : Nat) (cr : ChunkReader)
    (eofs : ∀ e, .error e ∈ readChunks ChunkReader.ReadChunk m cr → e = .eof) :
    ∃ ps : List (List UInt8), readChunks ChunkReader.ReadChunk ps.length cr = ps.map .ok ∧
      okBytes (readChunks ChunkReader.ReadChunk m cr) = ps.flatten := by
  induction m generalizing cr with
  | zero => exact ⟨[], rfl, rfl⟩
  | succ m ih =>
    rcases read : cr.ReadChunk with ⟨cr₁, e | p⟩
    · obtain rfl : e = .eof := eofs e (by simp [readChunks, read])
      refine ⟨[], rfl, ?_⟩
      simp only [readChunks, read, okBytes]
      exact okBytes_of_errors (readChunks_of_dry (ChunkReader.ReadChunk_eof_dry read) m)
    · obtain ⟨ps, first, bytes⟩ := ih cr₁ fun e mem => eofs e (by simp [readChunks, read, mem])
      exact ⟨p :: ps, by simp [readChunks, read, first], by simp [readChunks, read, okBytes, bytes]⟩

/-- `readConverter` hands out the bytes of the chunks it read, in order, reporting every error
but an `io.EOF` that `WriteTo` hid; when no call failed, only a prefix of sealed payloads. -/
theorem reader_hands_out_only_sealed_payloads :
    (∀ (σ : Type) (readChunk : σ → σ × Except Err (List UInt8)) (budget : Converter σ → Nat)
      (c c' : Converter σ) (calls : List ReaderCall) (outcomes : List Outcome),
      c.run readChunk budget calls = some (c', outcomes) →
      ∃ m, c'.cr = afterChunks readChunk m c.cr ∧
        handedOut outcomes ++ c'.leftover = c.leftover ++ okBytes (readChunks readChunk m c.cr) ∧
        ∀ e, .error e ∈ readChunks readChunk m c.cr →
          e ∈ outcomes.filterMap Outcome.err ∨ (e = .eof ∧ ∃ w, ReaderCall.writeTo w ∈ calls)) ∧
    ∀ (reader : ByteStream) (c : Cipher) (calls : List ReaderCall) (c' : Converter ChunkReader)
      (outcomes : List Outcome),
      (newShadowsocksReader reader c).run ChunkReader.ReadChunk Converter.budget calls =
        some (c', outcomes) → (∀ o ∈ outcomes, o.err = none) →
      handedOut outcomes = [] ∨ ∃ salt d bytes rest ps, salt.length = c.saltSize ∧
        c.decrypter salt = .ok d ∧ reader.bytes = salt ++ bytes ++ rest ∧
        SealedChunks d 0 ps bytes ∧ handedOut outcomes <+: ps.flatten := by
  refine ⟨fun _ _ _ _ _ _ _ ran => ?_, fun reader c calls c' outcomes ran quiet => ?_⟩ <;>
    obtain ⟨m, delivers⟩ := run_delivers ran
  · exact ⟨m, delivers.cr, delivers.bytes, delivers.errors⟩
  have unreported : outcomes.filterMap Outcome.err = [] :=
    List.filterMap_eq_nil_iff.2 fun o mem => quiet o mem
  obtain ⟨ps, first, bytes⟩ := readChunks_eof_prefix m _ fun e mem =>
    ((delivers.errors e mem).resolve_left (by simp [unreported])).1
  have handed : handedOut outcomes ++ c'.leftover = ps.flatten := by
    rw [delivers.bytes, bytes]
    rfl
  rcases ps with _ | ⟨p, ps⟩
  · exact .inl (List.append_eq_nil.mp handed).1
  · obtain ⟨salt, d, sealedBytes, rest, len, opened, split, sealed, -⟩ :=
      (readChunks_fresh_iff reader c p ps 0 []).mp (by simpa using first)
    exact .inr ⟨salt, d, sealedBytes, rest, p :: ps, len, opened, split, sealed, c'.leftover, handed⟩

theorem reader_keeps_key_past_forged_block :
    ∃ c' outcomes, (⟨⟨⟨[0, 1, 9, 0, 1, 1, 7, 2], .eof⟩, Cipher.tagging 0 1, some (Aead.tagging 1),
        [0]⟩, []⟩ : Converter ChunkReader).run ChunkReader.ReadChunk Converter.budget
        [.read 4, .read 4] = some (c', outcomes) ∧ c'.cr.aead = some (Aead.tagging 1) :=
  have ran : (⟨⟨⟨[0, 1, 9, 0, 1, 1, 7, 2], .eof⟩, Cipher.tagging 0 1, some (Aead.tagging 1), [0]⟩,
      []⟩ : Converter ChunkReader).run ChunkReader.ReadChunk Converter.budget [.read 4, .read 4] =
      some _ := rfl
  ⟨_, _, ran, reader_keys_once ⟨⟨⟨[0, 1, 9, 0, 1, 1, 7, 2], .eof⟩, Cipher.tagging 0 1,
    some (Aead.tagging 1), [0]⟩, []⟩ _ (Aead.tagging 1) [.read 4, .read 4] _ rfl ran⟩

theorem reader_hands_out_one_sealed_chunk :
    (newShadowsocksReader ⟨[0, 2, 0, 5, 6, 1], .eof⟩ (Cipher.tagging 0 1)).run
        ChunkReader.ReadChunk Converter.budget [.read 10] =
      some (⟨⟨⟨[], .eof⟩, Cipher.tagging 0 1, some (Aead.tagging 1), [2]⟩, []⟩,
        [⟨[5, 6], 2, none⟩]) ∧
    (∀ o ∈ [(⟨[5, 6], 2, none⟩ : Outcome)], o.err = none) ∧
    (handedOut [⟨[5, 6], 2, none⟩] = [] ∨ ∃ salt d bytes rest ps,
      salt.length = (Cipher.tagging 0 1).saltSize ∧ (Cipher.tagging 0 1).decrypter salt = .ok d ∧
      (⟨[0, 2, 0, 5, 6, 1], .eof⟩ : ByteStream).bytes = salt ++ bytes ++ rest ∧
      SealedChunks d 0 ps bytes ∧ handedOut [⟨[5, 6], 2, none⟩] <+: ps.flatten) :=
  have ran : (newShadowsocksReader ⟨[0, 2, 0, 5, 6, 1], .eof⟩ (Cipher.tagging 0 1)).run
      ChunkReader.ReadChunk Converter.budget [.read 10] =
      some (⟨⟨⟨[], .eof⟩, Cipher.tagging 0 1, some (Aead.tagging 1), [2]⟩, []⟩,
        [⟨[5, 6], 2, none⟩]) := rfl
  have quiet : ∀ o ∈ [(⟨[5, 6], 2, none⟩ : Outcome)], o.err = none := by simp
  ⟨ran, quiet, reader_hands_out_only_sealed_payloads.2 _ _ _ _ _ ran quiet⟩

end Shadowsocks
