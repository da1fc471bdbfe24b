import Shadowsocks.Emission

/-!
The wire format of one direction: `salt || chunk+`, where chunk `i` is the sealed
big-endian length under nonce `2i` followed by the sealed payload under nonce `2i+1`,
and each chunk is one write to the inner writer. The salt is sent only while the nonce
counter is zero, so the format holds until the counter wraps, after `2^(8N-1)` chunks
for an `N`-byte nonce.
-/

namespace Shadowsocks

/-- Chunk `i` on the wire: its length and its payload, sealed under nonces `2i` and
`2i+1`. -/
def frame (a : Aead) (i : Nat) (c : List UInt8) : List UInt8 :=
  a.encrypt (leBytes a.nonceSize (2 * i)) (putUint16 c.length) ++
    a.encrypt (leBytes a.nonceSize (2 * i + 1)) c

def frames (a : Aead) : Nat → List (List UInt8) → List (List UInt8)
  | _, [] => []
  | i, c :: cs => frame a i c :: frames a (i + 1) cs

def prefixFirst (pre : List UInt8) : List (List UInt8) → List (List UInt8)
  | [] => []
  | f :: fs => (pre ++ f) :: fs

/-- The inner writes of a direction that sent `cs`: one frame each, the salt in front of
the first. -/
def wire (salt : List UInt8) (a : Aead) (cs : List (List UInt8)) : List (List UInt8) :=
  prefixFirst salt (frames a 0 cs)

@[simp] theorem nil_prefixFirst (fs : List (List UInt8)) : prefixFirst [] fs = fs := by
  cases fs <;> rfl

@[simp] theorem prefixFirst_nil (pre : List UInt8) : prefixFirst pre [] = [] := rfl

@[simp] theorem prefixFirst_cons (pre f : List UInt8) (fs : List (List UInt8)) :
    prefixFirst pre (f :: fs) = (pre ++ f) :: fs := rfl

@[simp] theorem length_prefixFirst (pre : List UInt8) (fs : List (List UInt8)) :
    (prefixFirst pre fs).length = fs.length := by
  cases fs <;> rfl

@[simp] theorem frames_nil (a : Aead) (i : Nat) : frames a i [] = [] := rfl

@[simp] theorem frames_cons (a : Aead) (i : Nat) (c : List UInt8) (cs : List (List UInt8)) :
    frames a i (c :: cs) = frame a i c :: frames a (i + 1) cs := rfl

@[simp] theorem frames_eq_nil (a : Aead) (i : Nat) (cs : List (List UInt8)) :
    frames a i cs = [] ↔ cs = [] := by
  cases cs <;> simp

@[simp] theorem length_frames (a : Aead) (i : Nat) (cs : List (List UInt8)) :
    (frames a i cs).length = cs.length := by
  induction cs generalizing i <;> simp [*]

@[simp] theorem length_wire (salt : List UInt8) (a : Aead) (cs : List (List UInt8)) :
    (wire salt a cs).length = cs.length := by
  simp [wire]

@[simp] theorem length_frame (a : Aead) (i : Nat) (c : List UInt8) :
    (frame a i c).length = c.length + (2 + 2 * a.overhead) := by
  simp only [frame, List.length_append, a.encrypt_length, putUint16, List.length_cons,
    List.length_nil]
  omega

theorem length_flatten_frames (a : Aead) (i : Nat) (cs : List (List UInt8)) :
    (frames a i cs).flatten.length = cs.flatten.length + cs.length * (2 + 2 * a.overhead) := by
  induction cs generalizing i with
  | nil => simp
  | cons c cs ih =>
    simp only [frames_cons, List.flatten_cons, List.length_append, ih, length_frame,
      List.length_cons, Nat.add_mul, Nat.one_mul]
    omega

theorem frames_append (a : Aead) (i : Nat) (cs ds : List (List UInt8)) :
    frames a i (cs ++ ds) = frames a i cs ++ frames a (i + cs.length) ds := by
  induction cs generalizing i with
  | nil => rfl
  | cons c cs ih => simp [ih, Nat.add_assoc, Nat.add_comm 1]

theorem wire_append (salt : List UInt8) (a : Aead) (cs ds : List (List UInt8)) :
    wire salt a (cs ++ ds) =
      wire salt a cs ++ prefixFirst (if cs = [] then salt else []) (frames a cs.length ds) := by
  cases cs with
  | nil => simp [wire]
  | cons c cs => simp [wire, frames_append, Nat.add_comm 1]

section Emit
variable {sw : Writer} {a : Aead} {j : Nat}

theorem chunkBytes_frame (c : List UInt8) (start : Nat)
    (counter : sw.counter = leBytes a.nonceSize (2 * j)) (within : start ≤ sw.salt.length) :
    (sw.withPending c).chunkBytes a start = sw.salt.drop start ++ frame a j c := by
  simp only [Writer.chunkBytes, withPending_salt, withPending_counter, withPending_pending,
    counter, increment_leBytes, List.append_assoc, frame]
  rw [List.drop_append_of_le_length within]

theorem emitChunks_wire (accepts : sw.writer.AcceptsAll) (start : Nat) (cs : List (List UInt8))
    (counter : sw.counter = leBytes a.nonceSize (2 * j))
    (saltLen : sw.salt.length = sw.ssCipher.saltSize) (within : start ≤ sw.salt.length) :
    (sw.emitChunks a start cs).writer.writes =
        sw.writer.writes ++ prefixFirst (sw.salt.drop start) (frames a j cs) ∧
      (sw.emitChunks a start cs).counter = leBytes a.nonceSize (2 * (j + cs.length)) := by
  induction cs generalizing sw start j with
  | nil => simp [counter]
  | cons c cs ih =>
    have next : ((sw.withPending c).writeChunk a start).1.counter =
        leBytes a.nonceSize (2 * (j + 1)) := by
      simp only [writeChunk_counter, withPending_counter, counter, increment_leBytes]
      congr 1
    obtain ⟨writes, count⟩ := @ih ((sw.withPending c).writeChunk a start).1 (j + 1)
      (accepts.writeChunk_withPending _ a start) sw.ssCipher.saltSize next
      (by simpa using saltLen) (by simp [saltLen])
    rw [emitChunks_cons]
    refine ⟨?_, by rw [count]; congr 2; simp only [List.length_cons]; omega⟩
    rw [writes, writeChunk_writes (sw.withPending c) a start accepts,
      chunkBytes_frame c start counter within]
    have pastSalt : sw.salt.drop sw.ssCipher.saltSize = [] := List.drop_of_length_le saltLen.le
    simp [pastSalt]

end Emit

theorem noWrap_of_fewChunks {k N : Nat} (few : k < 2 ^ (8 * N - 1)) : 2 * k < 256 ^ N := by
  cases N with
  | zero => simp at few; omega
  | succ N =>
    have double : 256 ^ (N + 1) = 2 * 2 ^ (8 * (N + 1) - 1) := by
      rw [show (256 : Nat) = 2 ^ 8 from rfl, ← pow_mul, ← pow_succ']
      congr 1
    generalize 2 ^ (8 * (N + 1) - 1) = bound at few double
    omega

theorem firstStart_of_counter {sw : Writer} {N k : Nat}
    (counter : sw.counter = leBytes N (2 * k)) (saltLen : sw.salt.length = sw.ssCipher.saltSize)
    (noWrap : 2 * k < 256 ^ N) : sw.firstStart = if k = 0 then 0 else sw.salt.length := by
  have zero : isZero sw.counter = true ↔ k = 0 := by
    rw [counter, isZero_leBytes, Nat.mod_eq_of_lt noWrap]
    omega
  unfold Writer.firstStart
  rw [saltLen]
  by_cases none : k = 0 <;> simp [none, zero]

/-- The writer has sent `cs` since the inner writer held `writes₀`: the inner writer holds
their wire form after the salt the AEAD was derived from, every chunk is valid, and the
nonce has advanced twice per chunk. -/
structure Sent (writes₀ : List (List UInt8)) (sw : Writer) (a : Aead)
    (cs : List (List UInt8)) : Prop where
  aead : sw.aead = some a
  derived : sw.ssCipher.encrypter sw.salt = .ok a
  saltLen : sw.salt.length = sw.ssCipher.saltSize
  valid : ∀ c ∈ cs, ValidChunk c
  writes : sw.writer.writes = writes₀ ++ wire sw.salt a cs
  counter : sw.counter = leBytes a.nonceSize (2 * cs.length)

section Sent
variable {writes₀ : List (List UInt8)} {sw : Writer} {a : Aead} {cs : List (List UInt8)}

theorem Sent.reset (h : Sent writes₀ sw a cs) (p : List UInt8) :
    Sent writes₀ (sw.reset p) a cs :=
  ⟨h.aead, h.derived, h.saltLen, h.valid, h.writes, h.counter⟩

theorem Sent.markFlushed (h : Sent writes₀ sw a cs) : Sent writes₀ sw.markFlushed a cs :=
  ⟨h.aead, h.derived, h.saltLen, h.valid, h.writes, h.counter⟩

theorem Sent.resetFlush (h : Sent writes₀ sw a cs) : Sent writes₀ sw.resetFlush a cs :=
  ⟨h.aead, h.derived, h.saltLen, h.valid, h.writes, h.counter⟩

theorem Sent.withPending (h : Sent writes₀ sw a cs) (q : List UInt8) :
    Sent writes₀ (sw.withPending q) a cs :=
  ⟨h.aead, h.derived, h.saltLen, h.valid, h.writes, h.counter⟩

theorem Sent.firstStart (h : Sent writes₀ sw a cs) (noWrap : 2 * cs.length < 256 ^ a.nonceSize) :
    sw.firstStart = if cs = [] then 0 else sw.salt.length := by
  simp only [firstStart_of_counter h.counter h.saltLen noWrap, List.length_eq_zero]

theorem Sent.firstStart_le (h : Sent writes₀ sw a cs) : sw.firstStart ≤ sw.salt.length := by
  unfold Writer.firstStart; split <;> simp [h.saltLen]

theorem Sent.length_emitChunks (h : Sent writes₀ sw a cs) (accepts : sw.writer.AcceptsAll)
    (ds : List (List UInt8)) :
    (sw.emitChunks a sw.firstStart ds).writer.writes.length =
      writes₀.length + cs.length + ds.length := by
  rw [(emitChunks_wire accepts sw.firstStart ds h.counter h.saltLen h.firstStart_le).1, h.writes]
  simp [Nat.add_assoc]

theorem Sent.emitChunks (h : Sent writes₀ sw a cs) (accepts : sw.writer.AcceptsAll)
    {ds : List (List UInt8)} (valid : ∀ d ∈ ds, ValidChunk d)
    (noWrap : ds ≠ [] → 2 * cs.length < 256 ^ a.nonceSize) :
    Sent writes₀ (sw.emitChunks a sw.firstStart ds) a (cs ++ ds) := by
  obtain ⟨writes, counter⟩ :=
    emitChunks_wire accepts sw.firstStart ds h.counter h.saltLen h.firstStart_le
  refine ⟨by simpa using h.aead, by simpa using h.derived, by simpa using h.saltLen,
    fun c member => ?_, ?_, by rw [counter, List.length_append]⟩
  · rcases List.mem_append.mp member with old | new
    · exact h.valid c old
    · exact valid c new
  · rw [writes, h.writes, emitChunks_salt, wire_append, List.append_assoc]
    by_cases quiet : ds = []
    · simp [quiet]
    · rw [h.firstStart (noWrap quiet)]
      by_cases empty : cs = [] <;> simp [empty]

end Sent

end Shadowsocks
