import Shadowsocks.ReaderSteps
import Shadowsocks.Lossless

/-!
What `NewShadowsocksReader` makes of a direction's bytes cut after any byte `k`, as a
peer closing mid-stream leaves them. The chunk reader behaves, call after call, as a
chunk source that yields the payloads of the frames lying wholly within the first `k`
bytes and then `io.EOF` if the cut falls at the start, right after the salt or at a
frame's end, `io.ErrUnexpectedEOF` anywhere else. `Reads` relates a chunk reader to the
chunk source it behaves as; its step lemma is a case split over the ways one `ReadChunk`
can go (`ReaderSteps`).
-/

namespace Shadowsocks

/-- What a reader of the first `k` bytes of the frames of `cs` gets: the chunks whose
frames lie wholly within them, then `io.EOF` if the cut falls at a frame's end and
`io.ErrUnexpectedEOF` if it falls inside a frame. -/
def frameCut (a : Aead) : List (List UInt8) → Nat → List (List UInt8) × Err
  | [], _ => ([], .eof)
  | c :: cs, k =>
    if k = 0 then ([], .eof)
    else if k < c.length + (2 + 2 * a.overhead) then ([], .unexpectedEOF)
    else
      ((c :: (frameCut a cs (k - (c.length + (2 + 2 * a.overhead)))).1),
        (frameCut a cs (k - (c.length + (2 + 2 * a.overhead)))).2)

def streamCut (saltSize : Nat) (a : Aead) (cs : List (List UInt8)) (k : Nat) :
    List (List UInt8) × Err :=
  if k = 0 then ([], .eof)
  else if k < saltSize then ([], .unexpectedEOF)
  else frameCut a cs (k - saltSize)

section Cut
variable {a : Aead}

@[simp] theorem frameCut_zero (cs : List (List UInt8)) : frameCut a cs 0 = ([], .eof) := by
  cases cs <;> rfl

theorem length_flatten_frames_cons (i : Nat) (c : List UInt8) (cs : List (List UInt8)) :
    (frames a i (c :: cs)).flatten.length =
      c.length + (2 + 2 * a.overhead) + (frames a (i + 1) cs).flatten.length := by
  simp

theorem frameCut_spec (i : Nat) (cs : List (List UInt8)) {k : Nat}
    (within : k ≤ (frames a i cs).flatten.length) :
    ∃ j ≤ cs.length, frameCut a cs k = (cs.take j,
        if k = (frames a i (cs.take j)).flatten.length then .eof else .unexpectedEOF) ∧
      (frames a i (cs.take j)).flatten.length ≤ k ∧
      (j < cs.length → k < (frames a i (cs.take (j + 1))).flatten.length) := by
  induction cs generalizing i k with
  | nil =>
    simp only [frames_nil, List.flatten_nil, List.length_nil, Nat.le_zero] at within
    subst within
    exact ⟨0, le_rfl, by simp, le_rfl, nofun⟩
  | cons c cs ih =>
    rw [length_flatten_frames_cons] at within
    by_cases started : k = 0
    · subst started
      exact ⟨0, Nat.zero_le _, by simp, le_rfl, fun _ => by
        rw [Nat.zero_add, List.take_succ_cons, List.take_zero, length_flatten_frames_cons]
        omega⟩
    by_cases short : k < c.length + (2 + 2 * a.overhead)
    · refine ⟨0, Nat.zero_le _, ?_, Nat.zero_le _, fun _ => by simpa using short⟩
      simp [frameCut, started, short]
    · obtain ⟨j, bound, cut, before, after⟩ := ih (i + 1) (k := k - (c.length + (2 + 2 * a.overhead)))
        (by omega)
      refine ⟨j + 1, by simpa using bound, ?_, ?_, fun more => ?_⟩
      · rw [frameCut, if_neg started, if_neg short, cut]
        simp only [List.take_succ_cons, List.cons.injEq, true_and, length_flatten_frames_cons]
        have clean : k - (c.length + (2 + 2 * a.overhead)) =
            (frames a (i + 1) (cs.take j)).flatten.length ↔
          k = c.length + (2 + 2 * a.overhead) + (frames a (i + 1) (cs.take j)).flatten.length := by
          omega
        simp only [clean]
      · rw [List.take_succ_cons, length_flatten_frames_cons]
        omega
      · have := after (by simpa using more)
        rw [List.take_succ_cons, length_flatten_frames_cons]
        omega

theorem streamCut_of_le {saltSize k : Nat} (cs : List (List UInt8)) (past : saltSize ≤ k) :
    streamCut saltSize a cs k = frameCut a cs (k - saltSize) := by
  unfold streamCut
  by_cases started : k = 0
  · simp [started]
  · rw [if_neg started, if_neg (by omega)]

theorem streamCut_spec (salt : List UInt8) (cs : List (List UInt8)) {k : Nat}
    (within : k ≤ salt.length + (frames a 0 cs).flatten.length) :
    ∃ j ≤ cs.length, streamCut salt.length a cs k = (cs.take j,
        if k = 0 ∨ k = salt.length + (frames a 0 (cs.take j)).flatten.length then .eof
        else .unexpectedEOF) ∧
      (k < salt.length → j = 0) ∧
      (salt.length ≤ k → salt.length + (frames a 0 (cs.take j)).flatten.length ≤ k ∧
        (j < cs.length → k < salt.length + (frames a 0 (cs.take (j + 1))).flatten.length)) := by
  by_cases salted : salt.length ≤ k
  · obtain ⟨j, bound, cut, before, after⟩ :=
      frameCut_spec (a := a) 0 cs (k := k - salt.length) (by omega)
    refine ⟨j, bound, ?_, fun inside => absurd inside (by omega),
      fun _ => ⟨by omega, fun more => by have := after more; omega⟩⟩
    have clean : k - salt.length = (frames a 0 (cs.take j)).flatten.length ↔
        k = 0 ∨ k = salt.length + (frames a 0 (cs.take j)).flatten.length := by
      omega
    rw [streamCut_of_le cs salted, cut]
    simp only [clean]
  · refine ⟨0, Nat.zero_le _, ?_, fun _ => rfl, fun past => absurd past salted⟩
    by_cases started : k = 0
    · simp [streamCut, started]
    · simp only [streamCut, if_neg started, if_pos (by omega : k < salt.length), List.take_zero,
        frames_nil, List.flatten_nil, List.length_nil, Nat.add_zero]
      rw [if_neg (by omega)]

end Cut

theorem readChunks_drained (e : Err) {m n : Nat} (enough : m ≤ n) :
    readChunks ChunkSource.readChunk m ⟨[], e⟩ =
      (Except.error e :: List.replicate n (Except.error Err.eof)).take m := by
  induction m generalizing e n with
  | zero => rfl
  | succ m ih =>
    obtain ⟨n, rfl⟩ : ∃ n', n = n' + 1 := ⟨n - 1, by omega⟩
    show .error e :: readChunks ChunkSource.readChunk m ⟨[], .eof⟩ = _
    rw [ih Err.eof (by omega : m ≤ n), List.replicate_succ]
    rfl

theorem readChunks_source_of_le (ds : List (List UInt8)) (e : Err) {m n : Nat} (enough : m ≤ n) :
    readChunks ChunkSource.readChunk m ⟨ds, e⟩ =
      (ds.map Except.ok ++ Except.error e :: List.replicate n (Except.error Err.eof)).take m := by
  induction ds generalizing m with
  | nil => exact readChunks_drained e enough
  | cons d ds ih =>
    cases m with
    | zero => rfl
    | succ m =>
      show .ok d :: readChunks ChunkSource.readChunk m ⟨ds, e⟩ = _
      rw [ih (by omega : m ≤ n)]
      rfl

theorem readChunks_source (ds : List (List UInt8)) (e : Err) (m : Nat) :
    readChunks ChunkSource.readChunk m ⟨ds, e⟩ =
      (ds.map Except.ok ++ Except.error e :: List.replicate m (Except.error Err.eof)).take m :=
  readChunks_source_of_le ds e le_rfl

/-! ### The chunk reader on a cut stream -/

/-- A chunk reader over a stream of frames sealed by `a`, cut after some byte, and the
chunk source it behaves as. -/
inductive Reads (a : Aead) : ChunkReader → ChunkSource → Prop
    | drained {cr : ChunkReader} : cr.reader = ⟨[], .eof⟩ →
      (cr.aead = none → cr.ssCipher.saltSize ≠ 0) → Reads a cr ⟨[], .eof⟩
    | framed {cr : ChunkReader} {d : Aead} {i k : Nat} {cs : List (List UInt8)} :
      cr.aead = some d → Opens d a → cr.counter = leBytes a.nonceSize (2 * i) →
      cr.reader = ⟨(frames a i cs).flatten.take k, .eof⟩ → (∀ c ∈ cs, ValidChunk c) →
      Reads a cr ⟨(frameCut a cs k).1, (frameCut a cs k).2⟩
    | fresh {cr : ChunkReader} {salt : List UInt8} {k : Nat} {cs : List (List UInt8)} :
      cr.aead = none → cr.ssCipher.Matched → cr.ssCipher.encrypter salt = .ok a →
      salt.length = cr.ssCipher.saltSize →
      cr.reader = ⟨(salt ++ (frames a 0 cs).flatten).take k, .eof⟩ → (∀ c ∈ cs, ValidChunk c) →
      Reads a cr ⟨(streamCut salt.length a cs k).1, (streamCut salt.length a cs k).2⟩

section Step
variable {a : Aead} {cr : ChunkReader}

theorem Reads.step_drained (drained : cr.reader = ⟨[], .eof⟩)
    (salted : cr.aead = none → cr.ssCipher.saltSize ≠ 0) :
    cr.ReadChunk.2 = (ChunkSource.readChunk ⟨[], .eof⟩).2 ∧
      Reads a cr.ReadChunk.1 (ChunkSource.readChunk ⟨[], .eof⟩).1 := by
  rw [ChunkReader.ReadChunk_drained drained salted]
  exact ⟨rfl, .drained drained salted⟩

theorem Reads.step_framed {d : Aead} {i k : Nat} {cs : List (List UInt8)}
    (set : cr.aead = some d) (opens : Opens d a)
    (counter : cr.counter = leBytes a.nonceSize (2 * i))
    (reader : cr.reader = ⟨(frames a i cs).flatten.take k, .eof⟩)
    (valid : ∀ c ∈ cs, ValidChunk c) :
    cr.ReadChunk.2 = (ChunkSource.readChunk ⟨(frameCut a cs k).1, (frameCut a cs k).2⟩).2 ∧
      Reads a cr.ReadChunk.1
        (ChunkSource.readChunk ⟨(frameCut a cs k).1, (frameCut a cs k).2⟩).1 := by
  have salted : cr.aead = none → cr.ssCipher.saltSize ≠ 0 := by simp [set]
  cases cs with
  | nil =>
    have drained : cr.reader = ⟨[], .eof⟩ := by simp [reader]
    exact Reads.step_drained drained salted
  | cons c cs =>
    rw [frames_cons, List.flatten_cons] at reader
    have chunk := valid c (List.mem_cons_self _ _)
    have rest : ∀ c ∈ cs, ValidChunk c := fun c mem => valid c (List.mem_cons_of_mem _ mem)
    by_cases started : k = 0
    · subst started
      have drained : cr.reader = ⟨[], .eof⟩ := by simp [reader]
      rw [frameCut_zero]
      exact Reads.step_drained drained salted
    by_cases short : k < (frame a i c).length
    · obtain ⟨counter', read⟩ := ChunkReader.ReadChunk_inside_frame set opens counter reader chunk
        (Nat.pos_of_ne_zero started) short
      rw [length_frame] at short
      simp only [read, frameCut, if_neg started, if_pos short]
      exact ⟨rfl, .drained rfl (by simp [set])⟩
    · rw [ChunkReader.ReadChunk_whole_frame set opens counter reader chunk (by omega)]
      rw [length_frame] at short ⊢
      simp only [frameCut, if_neg started, if_neg short]
      exact ⟨rfl, .framed set opens rfl rfl rest⟩

theorem Reads.step_fresh {salt : List UInt8} {k : Nat} {cs : List (List UInt8)}
    (unset : cr.aead = none) (matched : cr.ssCipher.Matched)
    (derived : cr.ssCipher.encrypter salt = .ok a) (saltLen : salt.length = cr.ssCipher.saltSize)
    (reader : cr.reader = ⟨(salt ++ (frames a 0 cs).flatten).take k, .eof⟩)
    (valid : ∀ c ∈ cs, ValidChunk c) :
    cr.ReadChunk.2 = (ChunkSource.readChunk
        ⟨(streamCut salt.length a cs k).1, (streamCut salt.length a cs k).2⟩).2 ∧
      Reads a cr.ReadChunk.1 (ChunkSource.readChunk
        ⟨(streamCut salt.length a cs k).1, (streamCut salt.length a cs k).2⟩).1 := by
  obtain ⟨d, opened, opens⟩ := matched.opens derived
  have init := ChunkReader.init_fresh unset opened saltLen reader
  by_cases whole : salt.length ≤ k
  · rw [if_pos whole] at init
    rw [ChunkReader.ReadChunk_of_init_ok init rfl, streamCut_of_le cs whole]
    exact Reads.step_framed rfl opens (by rw [opens.nonceSize, Nat.mul_zero, leBytes_zero]) rfl
      valid
  · rw [if_neg whole] at init
    rw [ChunkReader.ReadChunk_of_init_error init]
    have cut : streamCut salt.length a cs k = ([], if k = 0 then .eof else .unexpectedEOF) := by
      unfold streamCut
      by_cases started : k = 0 <;> simp [started, (by omega : k < salt.length)]
    rw [cut]
    exact ⟨rfl, .drained rfl fun _ => by dsimp only; omega⟩

theorem Reads.step {s : ChunkSource} (reads : Reads a cr s) :
    cr.ReadChunk.2 = s.readChunk.2 ∧ Reads a cr.ReadChunk.1 s.readChunk.1 := by
  cases reads with
  | drained drained salted => exact Reads.step_drained drained salted
  | framed set opens counter reader valid => exact Reads.step_framed set opens counter reader valid
  | fresh unset matched derived saltLen reader valid =>
    exact Reads.step_fresh unset matched derived saltLen reader valid

theorem Reads.observes {s : ChunkSource} (reads : Reads a cr s) :
    Observes ChunkReader.ReadChunk ChunkSource.readChunk cr s := by
  intro m
  induction m generalizing cr s with
  | zero => rfl
  | succ m ih =>
    obtain ⟨result, next⟩ := reads.step
    exact congrArg₂ List.cons result (ih next)

end Step

/-! ### The reader of a cut stream -/

theorem reads_of_mirrors {src : ChunkSource} {d : Converter ChunkReader}
    (mirrors : Mirrors ChunkSource.readChunk ChunkReader.ReadChunk ⟨src, []⟩ d)
    (nonempty : ∀ p ∈ src.chunks, p ≠ []) :
    (∀ ns : List Nat, ∃ cv outcomes,
      d.run ChunkReader.ReadChunk Converter.budget (ns.map .read) = some (cv, outcomes) ∧
      ReadsOut src.chunks.flatten src.final ns outcomes) ∧
    (∀ w : Sink, w.AcceptsAll → ∃ cv w',
      d.WriteTo ChunkReader.ReadChunk d.budget w = some (cv, w', src.chunks.flatten.length,
        if src.final = .eof then none else some src.final) ∧
      (w'.writes.drop w.writes.length).flatten = src.chunks.flatten) ∧
    ∀ calls : List ReaderCall, (∀ w, ReaderCall.writeTo w ∈ calls → w.Progresses) →
      ∃ cv dv outcomes, d.run ChunkReader.ReadChunk Converter.budget calls = some (cv, outcomes) ∧
        (⟨src, []⟩ : Converter ChunkSource).run ChunkSource.readChunk
          Converter.sourceBudget calls = some (dv, outcomes) := by
  refine ⟨fun ns => ?_, fun w accepting => ?_, fun calls progresses => ?_⟩
  · obtain ⟨dv, outcomes, source, reads⟩ := run_reads_source src nonempty ns
    obtain ⟨cv, real, -⟩ := run_mirrors mirrors source fun d call mem =>
      call_isSome_reader d call fun w is => by subst is; simp at mem
    exact ⟨cv, outcomes, real, reads⟩
  · obtain ⟨dv, w', wrote, got⟩ := WriteTo_source_all (c := ⟨src, []⟩) accepting
    have called : (⟨src, []⟩ : Converter ChunkSource).call ChunkSource.readChunk
        Converter.sourceBudget (.writeTo w) = some (dv, ⟨(w'.writes.drop w.writes.length).flatten,
          src.chunks.flatten.length, if src.final = .eof then none else some src.final⟩) := by
      simp only [Converter.call, wrote, Option.map_some']
      rfl
    obtain ⟨cv, called', -⟩ := call_mirrors mirrors called
      (call_isSome_reader _ _ fun _ is => by cases is; exact accepting.progresses)
    obtain ⟨⟨cv', w'', n, err⟩, wrote', handed⟩ := Option.map_eq_some'.1 called'
    simp only [Prod.mk.injEq, Outcome.mk.injEq] at handed
    obtain ⟨rfl, taken, rfl, rfl⟩ := handed
    exact ⟨cv', w'', wrote', taken.trans got⟩
  · obtain ⟨⟨dv, outcomes⟩, source⟩ := Option.isSome_iff_exists.1 (run_isSome progresses)
    obtain ⟨cv, real, -⟩ := run_mirrors mirrors source
      fun d call mem => call_isSome_reader d call fun w is => progresses w (is ▸ mem)
    exact ⟨cv, dv, outcomes, real, source⟩

/-- A reader of a stream cut after byte `k` hands out exactly the payloads of the frames
within it, then `io.EOF` at the salt's or a frame's end and `io.ErrUnexpectedEOF` elsewhere. -/
theorem reader_stops_cleanly_only_at_frame_ends {c : Cipher} {salt : List UInt8} {a : Aead}
    {cs : List (List UInt8)} {k : Nat} (matched : c.Matched) (derived : c.encrypter salt = .ok a)
    (saltLen : salt.length = c.saltSize) (valid : ∀ chunk ∈ cs, ValidChunk chunk)
    (cut : k ≤ (salt ++ (frames a 0 cs).flatten).length) :
    ∃ j ≤ cs.length, ∃ e : Err,
      (k < salt.length → j = 0) ∧
      (salt.length ≤ k → salt.length + (frames a 0 (cs.take j)).flatten.length ≤ k ∧
        (j < cs.length → k < salt.length + (frames a 0 (cs.take (j + 1))).flatten.length)) ∧
      e = (if k = 0 ∨ k = salt.length + (frames a 0 (cs.take j)).flatten.length then .eof
        else .unexpectedEOF) ∧
      (∀ m, readChunks ChunkReader.ReadChunk m
          (newChunkReader ⟨(salt ++ (frames a 0 cs).flatten).take k, .eof⟩ c) =
        ((cs.take j).map Except.ok ++ Except.error e ::
          List.replicate m (Except.error Err.eof)).take m) ∧
      (∀ ns : List Nat, ∃ cv outcomes,
        (newShadowsocksReader ⟨(salt ++ (frames a 0 cs).flatten).take k, .eof⟩ c).run
          ChunkReader.ReadChunk Converter.budget (ns.map .read) = some (cv, outcomes) ∧
        ReadsOut (cs.take j).flatten e ns outcomes) ∧
      (∀ w : Sink, w.AcceptsAll → ∃ cv w',
        (newShadowsocksReader ⟨(salt ++ (frames a 0 cs).flatten).take k, .eof⟩ c).WriteTo
          ChunkReader.ReadChunk
          (newShadowsocksReader ⟨(salt ++ (frames a 0 cs).flatten).take k, .eof⟩ c).budget w =
          some (cv, w', (cs.take j).flatten.length, if e = .eof then none else some e) ∧
        (w'.writes.drop w.writes.length).flatten = (cs.take j).flatten) ∧
      ∀ calls : List ReaderCall, (∀ w, ReaderCall.writeTo w ∈ calls → w.Progresses) →
        ∃ cv dv outcomes,
          (newShadowsocksReader ⟨(salt ++ (frames a 0 cs).flatten).take k, .eof⟩ c).run
            ChunkReader.ReadChunk Converter.budget calls = some (cv, outcomes) ∧
          (⟨⟨cs.take j, e⟩, []⟩ : Converter ChunkSource).run ChunkSource.readChunk
            Converter.sourceBudget calls = some (dv, outcomes) := by
  obtain ⟨j, bound, cutAt, before, after⟩ :=
    streamCut_spec (a := a) salt cs (k := k) (by simpa using cut)
  refine ⟨j, bound, _, before, after, rfl, ?_⟩
  have fresh : Reads a (newChunkReader ⟨(salt ++ (frames a 0 cs).flatten).take k, .eof⟩ c)
      ⟨(streamCut salt.length a cs k).1, (streamCut salt.length a cs k).2⟩ :=
    .fresh rfl matched derived saltLen rfl valid
  rw [cutAt] at fresh
  have observes := fresh.observes
  have mirrors : Mirrors ChunkSource.readChunk ChunkReader.ReadChunk ⟨⟨cs.take j, _⟩, []⟩
      (newShadowsocksReader ⟨(salt ++ (frames a 0 cs).flatten).take k, .eof⟩ c) :=
    ⟨observes.symm, rfl⟩
  exact ⟨fun m => (observes m).trans (readChunks_source _ _ m), reads_of_mirrors mirrors
    fun p mem => List.ne_nil_of_length_pos (valid p (List.mem_of_mem_take mem)).1⟩

theorem reader_of_stream_cut_inside_second_frame :
    (Cipher.tagging 2 1).Matched ∧ (Cipher.tagging 2 1).encrypter [7, 8] = .ok (Aead.tagging 1) ∧
    [7, 8].length = (Cipher.tagging 2 1).saltSize ∧
    (∀ chunk ∈ ([[1], [2, 3]] : List (List UInt8)), ValidChunk chunk) ∧
    9 ≤ ([7, 8] ++ (frames (Aead.tagging 1) 0 [[1], [2, 3]]).flatten).length ∧
    ∃ j ≤ ([[1], [2, 3]] : List (List UInt8)).length, ∃ e : Err,
      (9 < [7, 8].length → j = 0) ∧
      ([7, 8].length ≤ 9 →
        [7, 8].length + (frames (Aead.tagging 1) 0 ([[1], [2, 3]].take j)).flatten.length ≤ 9 ∧
        (j < ([[1], [2, 3]] : List (List UInt8)).length →
          9 < [7, 8].length + (frames (Aead.tagging 1) 0 ([[1], [2, 3]].take (j + 1))).flatten.length)) ∧
      e = (if 9 = 0 ∨ 9 = [7, 8].length +
          (frames (Aead.tagging 1) 0 ([[1], [2, 3]].take j)).flatten.length then .eof
        else .unexpectedEOF) ∧
      (∀ m, readChunks ChunkReader.ReadChunk m
          (newChunkReader ⟨([7, 8] ++ (frames (Aead.tagging 1) 0 [[1], [2, 3]]).flatten).take 9, .eof⟩
            (Cipher.tagging 2 1)) =
        ((([[1], [2, 3]] : List (List UInt8)).take j).map Except.ok ++ Except.error e ::
          List.replicate m (Except.error Err.eof)).take m) ∧
      (∀ ns : List Nat, ∃ cv outcomes,
        (newShadowsocksReader ⟨([7, 8] ++ (frames (Aead.tagging 1) 0 [[1], [2, 3]]).flatten).take 9,
          .eof⟩ (Cipher.tagging 2 1)).run ChunkReader.ReadChunk Converter.budget (ns.map .read) =
            some (cv, outcomes) ∧
        ReadsOut (([[1], [2, 3]] : List (List UInt8)).take j).flatten e ns outcomes) ∧
      (∀ w : Sink, w.AcceptsAll → ∃ cv w',
        (newShadowsocksReader ⟨([7, 8] ++ (frames (Aead.tagging 1) 0 [[1], [2, 3]]).flatten).take 9,
          .eof⟩ (Cipher.tagging 2 1)).WriteTo ChunkReader.ReadChunk
          (newShadowsocksReader ⟨([7, 8] ++ (frames (Aead.tagging 1) 0 [[1], [2, 3]]).flatten).take 9,
            .eof⟩ (Cipher.tagging 2 1)).budget w =
          some (cv, w', (([[1], [2, 3]] : List (List UInt8)).take j).flatten.length,
            if e = .eof then none else some e) ∧
        (w'.writes.drop w.writes.length).flatten =
          (([[1], [2, 3]] : List (List UInt8)).take j).flatten) ∧
      ∀ calls : List ReaderCall, (∀ w, ReaderCall.writeTo w ∈ calls → w.Progresses) →
        ∃ cv dv outcomes,
          (newShadowsocksReader ⟨([7, 8] ++ (frames (Aead.tagging 1) 0 [[1], [2, 3]]).flatten).take 9,
            .eof⟩ (Cipher.tagging 2 1)).run ChunkReader.ReadChunk Converter.budget calls =
              some (cv, outcomes) ∧
          (⟨⟨([[1], [2, 3]] : List (List UInt8)).take j, e⟩, []⟩ : Converter ChunkSource).run
            ChunkSource.readChunk Converter.sourceBudget calls = some (dv, outcomes) :=
  ⟨Cipher.tagging_matched 2 1, rfl, rfl, by decide, by decide,
    reader_stops_cleanly_only_at_frame_ends (k := 9) (Cipher.tagging_matched 2 1)
      (rfl : (Cipher.tagging 2 1).encrypter [7, 8] = .ok (Aead.tagging 1)) rfl
      (by decide : ∀ chunk ∈ ([[1], [2, 3]] : List (List UInt8)), ValidChunk chunk) (by decide)⟩

end Shadowsocks
