import Mathlib.Data.List.Forall2
import Shadowsocks.History

/-!
What an inner writer that may take only part of a write, or fail, receives from
`shadowsocksWriter` of shadowsocks/stream.go. The loop drops the count `Write` returns and
moves the nonce on by two for every chunk it hands over, whatever the reply; so each write
the inner writer records is a prefix of the next frame of the wire format, the salt in
front of the first and no other, and the nonces of the chunks are `0, 1, 2, ...` until the
counter wraps.
-/

namespace Shadowsocks

/-- The writer has handed the frames of `cs` to an inner writer that held `writes₀`, which
kept a prefix of each; every chunk is valid and the nonce has advanced twice per chunk. -/
structure Handed (writes₀ : List (List UInt8)) (sw : Writer) (a : Aead)
    (cs : List (List UInt8)) : Prop where
  aead : sw.aead = some a
  derived : sw.ssCipher.encrypter sw.salt = .ok a
  saltLen : sw.salt.length = sw.ssCipher.saltSize
  valid : ∀ c ∈ cs, ValidChunk c
  taken : ∃ ws, sw.writer.writes = writes₀ ++ ws ∧ List.Forall₂ (· <+: ·) ws (wire sw.salt a cs)
  counter : sw.counter = leBytes a.nonceSize (2 * cs.length)

theorem writeChunk_taken (sw : Writer) (a : Aead) (start : Nat) :
    ∃ taken, (sw.writeChunk a start).1.writer.writes = sw.writer.writes ++ [taken] ∧
      taken <+: sw.chunkBytes a start := by
  simp only [Writer.writeChunk, Sink.write]
  split
  · exact ⟨_, rfl, List.prefix_refl _⟩
  · exact ⟨_, rfl, List.take_prefix _ _⟩

section Handed
variable {writes₀ : List (List UInt8)} {sw : Writer} {a : Aead} {cs : List (List UInt8)}

theorem Sent.handed (sent : Sent writes₀ sw a cs) : Handed writes₀ sw a cs :=
  ⟨sent.aead, sent.derived, sent.saltLen, sent.valid,
    ⟨_, sent.writes, List.forall₂_same.mpr fun w _ => List.prefix_refl w⟩, sent.counter⟩

theorem Handed.length (h : Handed writes₀ sw a cs) :
    sw.writer.writes.length = writes₀.length + cs.length := by
  obtain ⟨ws, writes, taken⟩ := h.taken
  rw [writes, List.length_append, taken.length_eq, length_wire]

theorem Handed.withPending (h : Handed writes₀ sw a cs) (q : List UInt8) :
    Handed writes₀ (sw.withPending q) a cs :=
  ⟨h.aead, h.derived, h.saltLen, h.valid, h.taken, h.counter⟩

theorem Handed.reset (h : Handed writes₀ sw a cs) (p : List UInt8) :
    Handed writes₀ (sw.reset p) a cs :=
  ⟨h.aead, h.derived, h.saltLen, h.valid, h.taken, h.counter⟩

theorem Handed.markFlushed (h : Handed writes₀ sw a cs) : Handed writes₀ sw.markFlushed a cs :=
  ⟨h.aead, h.derived, h.saltLen, h.valid, h.taken, h.counter⟩

theorem Handed.resetFlush (h : Handed writes₀ sw a cs) : Handed writes₀ sw.resetFlush a cs :=
  ⟨h.aead, h.derived, h.saltLen, h.valid, h.taken, h.counter⟩

theorem Handed.writeChunk (h : Handed writes₀ sw a cs) {c : List UInt8} (valid : ValidChunk c)
    {start : Nat} (fromSalt : start = if cs = [] then 0 else sw.salt.length) :
    Handed writes₀ ((sw.withPending c).writeChunk a start).1 a (cs ++ [c]) := by
  obtain ⟨ws, writes, taken⟩ := h.taken
  obtain ⟨t, more, kept⟩ := writeChunk_taken (sw.withPending c) a start
  have within : start ≤ sw.salt.length := by split at fromSalt <;> omega
  rw [chunkBytes_frame c start h.counter within] at kept
  refine ⟨h.aead, h.derived, h.saltLen, fun c' mem => ?_, ⟨ws ++ [t], ?_, ?_⟩, ?_⟩
  · rcases List.mem_append.mp mem with old | new
    · exact h.valid c' old
    · rw [List.mem_singleton.mp new]; exact valid
  · rw [more, withPending_writer, writes, List.append_assoc]
  · rw [writeChunk_salt, withPending_salt, wire_append]
    refine List.rel_append taken (.cons ?_ .nil)
    by_cases empty : cs = [] <;> simp_all
  · rw [writeChunk_counter, withPending_counter, h.counter, increment_increment_leBytes,
      List.length_append, List.length_singleton]

theorem Handed.firstStart (h : Handed writes₀ sw a cs) (noWrap : 2 * cs.length < 256 ^ a.nonceSize) :
    sw.firstStart = if cs = [] then 0 else sw.salt.length := by
  rw [firstStart_of_counter h.counter h.saltLen noWrap]
  simp only [List.length_eq_zero]

end Handed

section Loop
variable {σ : Type} {read : σ → Nat → (List UInt8 × Option Err) × σ} {mode : Mode} {a : Aead}
  {writes₀ : List (List UInt8)}

/-- A loop head while handing frames: `cs` handed so far, the buffer below a full chunk,
and the next chunk starting at the salt exactly when none has been handed. -/
structure Loop.Handing (writes₀ : List (List UInt8)) (a : Aead) (l : Loop σ)
    (cs : List (List UInt8)) : Prop where
  handed : Handed writes₀ l.sw a cs
  room : l.sw.pending.length < payloadSizeMask
  start : l.start = if cs = [] then 0 else l.sw.salt.length

theorem Loop.Handing.step (bounded : ReadBounded read) {l : Loop σ} {cs : List (List UInt8)}
    (h : l.Handing writes₀ a cs) : ∃ ds, (l.step read mode a).1.Handing writes₀ a (cs ++ ds) := by
  have fits := read_fits bounded l h.room
  rw [step_eq]
  dsimp only
  split
  · next sends =>
    refine ⟨[_], h.handed.writeChunk ⟨?_, fits⟩ h.start, by simpa using payloadSizeMask_pos, ?_⟩
    · rw [withPending_pending] at sends
      have := payloadSizeMask_pos
      omega
    · simp [h.handed.saltLen]
  · next keeps =>
    refine ⟨[], by simpa using h.handed.withPending _, ?_, by simpa using h.start⟩
    rw [withPending_pending] at keeps ⊢
    omega

theorem readFrom_handed (bounded : ReadBounded read) {fuel : Nat} {sw sw' : Writer} {r r' : σ}
    {n : Nat} {e : Option Err} {cs : List (List UInt8)} (h : Handed writes₀ sw a cs)
    (room : sw.pending.length < payloadSizeMask) (noWrap : 2 * cs.length < 256 ^ a.nonceSize)
    (ran : sw.readFrom read fuel r mode = some (sw', r', n, e)) :
    ∃ ds, Handed writes₀ sw' a (cs ++ ds) := by
  rw [readFrom_ready read fuel r mode h.aead] at ran
  obtain ⟨⟨l, e'⟩, loop, rest⟩ := Option.map_eq_some'.mp ran
  obtain ⟨rfl, -⟩ := Prod.mk.inj rest
  have first : Loop.Handing writes₀ a
      ⟨if mode = .normal then sw.markFlushed else sw, r, sw.firstStart, 0⟩ (cs ++ []) := by
    rw [List.append_nil]
    split
    · exact ⟨h.markFlushed, room, h.firstStart noWrap⟩
    · exact ⟨h, room, h.firstStart noWrap⟩
  obtain ⟨ds, last⟩ := Loop.run_preserves (fun l => ∃ ds, l.Handing writes₀ a (cs ++ ds))
    (fun _ ⟨ds, h⟩ => by
      obtain ⟨es, next⟩ := @Loop.Handing.step σ read mode a writes₀ bounded _ _ h
      exact ⟨ds ++ es, by simpa using next⟩) ⟨[], first⟩ loop
  exact ⟨ds, last.handed⟩

end Loop

/-! ### Every history, over every inner writer -/

section Calls
variable {writes₀ : List (List UInt8)} {a : Aead} {sw sw' : Writer}

/-- What holds at every call boundary once the writer is set up: the buffer is below a full
chunk, and either the frames of the chunks handed over are what the inner writer kept, or
so many writes were made that the nonce may have wrapped. -/
def HandedOrWrapped (writes₀ : List (List UInt8)) (a : Aead) (sw : Writer) : Prop :=
  sw.pending.length < payloadSizeMask ∧
    ((∃ cs, Handed writes₀ sw a cs) ∨
      writes₀.length + 2 ^ (8 * a.nonceSize - 1) ≤ sw.writer.writes.length)

theorem HandedOrWrapped.keep {sw₁ : Writer} (holds : HandedOrWrapped writes₀ a sw)
    (same : ∀ cs, Handed writes₀ sw a cs → Handed writes₀ sw₁ a cs)
    (pending : sw₁.pending = sw.pending) (writer : sw₁.writer = sw.writer) :
    HandedOrWrapped writes₀ a sw₁ :=
  ⟨pending ▸ holds.1, holds.2.imp (fun ⟨cs, h⟩ => ⟨cs, same cs h⟩) (writer ▸ ·)⟩

theorem readFrom_handedOrWrapped {σ : Type} {read : σ → Nat → (List UInt8 × Option Err) × σ}
    (bounded : ReadBounded read) {fuel : Nat} {r r' : σ} {mode : Mode} {n : Nat}
    {e : Option Err} (holds : HandedOrWrapped writes₀ a sw)
    (ran : sw.readFrom read fuel r mode = some (sw', r', n, e)) :
    HandedOrWrapped writes₀ a sw' := by
  have grows := (readFrom_grows ran).1
  refine ⟨readFrom_pending_lt bounded holds.1 ran, ?_⟩
  rcases holds.2 with ⟨cs, h⟩ | many
  · by_cases noWrap : 2 * cs.length < 256 ^ a.nonceSize
    · obtain ⟨ds, h'⟩ := readFrom_handed bounded h holds.1 noWrap ran
      exact .inl ⟨_, h'⟩
    · have wrapped : 2 ^ (8 * a.nonceSize - 1) ≤ cs.length :=
        Nat.le_of_not_lt fun few => noWrap (noWrap_of_fewChunks few)
      have := h.length
      exact .inr (by omega)
  · exact .inr (many.trans grows)

theorem run_handedOrWrapped {calls : List Call} (holds : HandedOrWrapped writes₀ a sw)
    (ran : sw.run calls = some sw') : HandedOrWrapped writes₀ a sw' :=
  Writer.run_preserves (HandedOrWrapped writes₀ a)
    (fun holds ran => Writer.call_preserves (HandedOrWrapped writes₀ a)
      (fun _ p holds => holds.keep (fun _ h => h.reset p) rfl rfl)
      (fun _ holds => holds.keep (fun _ h => h.resetFlush) rfl rfl)
      (fun _ holds => holds.keep (fun _ h => h.markFlushed) rfl rfl)
      (fun bounded holds ran => readFrom_handedOrWrapped bounded holds ran) holds ran)
    holds ran

theorem run_unready_handed {calls : List Call} (unready : sw.aead = none)
    (quiet : sw.writer.writes = writes₀) (idle : sw.pending = []) (ran : sw.run calls = some sw') :
    (sw'.aead = none ∧ sw'.writer.writes = writes₀) ∨
      ∃ a, sw'.aead = some a ∧ HandedOrWrapped writes₀ a sw' := by
  induction calls generalizing sw with
  | nil =>
    simp only [Writer.run, Option.some.injEq] at ran
    subst ran
    exact .inl ⟨unready, quiet⟩
  | cons c calls ih =>
    simp only [Writer.run] at ran
    rcases step : sw.call c with _ | ⟨sw₁, n₁, e₁⟩ <;> rw [step] at ran
    · simp at ran
    · rcases call_unready unready step with ⟨unset, writer, pending⟩ | ⟨sw₀, a, setup, step₀⟩
      · exact ih unset (by rw [writer, quiet]) (by rw [pending, idle]) ran
      · have handed₀ : Handed writes₀ sw₀ a [] := quiet ▸ (init_sent unready setup).handed
        have ran₀ : sw₀.run (c :: calls) = some sw' := by
          simp only [Writer.run, step₀]; exact ran
        have pending₀ : sw₀.pending = sw.pending := by rw [← init_pending sw, setup]
        have room : sw₀.pending.length < payloadSizeMask := by
          rw [pending₀, idle]; exact payloadSizeMask_pos
        exact .inr ⟨a, (run_grows_of_calls ran₀).2.1 a handed₀.aead,
          run_handedOrWrapped ⟨room, .inl ⟨[], handed₀⟩⟩ ran₀⟩

end Calls

/-- Over any inner writer, even one that keeps part of a write or fails, every history hands it
only prefixes of the frames of the chunks sent, the salt before the first, with the nonce at
twice their number. -/
theorem writer_hands_every_inner_writer_prefixes_of_frames {sink : Sink} {c : Cipher}
    {rand : ByteStream} {calls : List Call} {sw : Writer}
    (ran : (newShadowsocksWriter sink c rand).run calls = some sw)
    (fewWrites : ∀ a, sw.aead = some a →
      sw.writer.writes.length < sink.writes.length + 2 ^ (8 * a.nonceSize - 1)) :
    (sw.aead = none ∧ sw.writer.writes = sink.writes) ∨
      ∃ a cs ws, sw.aead = some a ∧ c.encrypter sw.salt = .ok a ∧ sw.salt.length = c.saltSize ∧
        (∀ chunk ∈ cs, ValidChunk chunk) ∧ sw.writer.writes = sink.writes ++ ws ∧
        List.Forall₂ (· <+: ·) ws (wire sw.salt a cs) ∧
        sw.counter = leBytes a.nonceSize (2 * cs.length) := by
  have cipher : sw.ssCipher = c := (run_grows_of_calls ran).2.2
  rcases run_unready_handed rfl rfl rfl ran with quiet | ⟨a, set, -, ⟨cs, h⟩ | wrapped⟩
  · exact .inl quiet
  · obtain ⟨ws, writes, taken⟩ := h.taken
    exact .inr ⟨a, cs, ws, set, cipher ▸ h.derived, cipher ▸ h.saltLen, h.valid, writes, taken,
      h.counter⟩
  · exact absurd wrapped (Nat.not_le_of_lt (fewWrites a set))

theorem writer_hands_prefixes_to_failing_inner_writer :
    ∃ sw, (newShadowsocksWriter ⟨[], fun _ => (some 2, some (.external 7))⟩ (Cipher.tagging 2 1)
        ⟨[7, 8], .eof⟩).run [.write [1, 2, 3], .write [4]] = some sw ∧
      (∀ a, sw.aead = some a → sw.writer.writes.length < 0 + 2 ^ (8 * a.nonceSize - 1)) ∧
      sw.writer.writes = [[7, 8], [0, 1]] ∧
      ((sw.aead = none ∧ sw.writer.writes = []) ∨
      ∃ a cs ws, sw.aead = some a ∧ (Cipher.tagging 2 1).encrypter sw.salt = .ok a ∧
        sw.salt.length = (Cipher.tagging 2 1).saltSize ∧ (∀ chunk ∈ cs, ValidChunk chunk) ∧
        sw.writer.writes = [] ++ ws ∧ List.Forall₂ (· <+: ·) ws (wire sw.salt a cs) ∧
        sw.counter = leBytes a.nonceSize (2 * cs.length)) :=
  have ran : (newShadowsocksWriter ⟨[], fun _ => (some 2, some (.external 7))⟩
      (Cipher.tagging 2 1) ⟨[7, 8], .eof⟩).run [.write [1, 2, 3], .write [4]] = some _ := rfl
  have fewWrites : ∀ a, _ := fun a (set : some (Aead.tagging 1) = some a) => by
    cases set; decide
  ⟨_, ran, fewWrites, rfl, writer_hands_every_inner_writer_prefixes_of_frames ran fewWrites⟩

end Shadowsocks
