import Shadowsocks.Bytes

/-!
How the writer cuts its input. `chunks` is the cut of a normal write, which flushes
everything (the last chunk may be short); `fullChunks` is the cut of a lazy write, which
emits only full chunks and keeps the rest pending.
-/

namespace Shadowsocks

theorem payloadSizeMask_pos : 0 < payloadSizeMask := by decide

/-- `xs` cut into chunks of `payloadSizeMask` bytes, the last one possibly shorter. -/
def chunks (xs : List UInt8) : List (List UInt8) :=
  if xs = [] then [] else xs.take payloadSizeMask :: chunks (xs.drop payloadSizeMask)
termination_by xs.length
decreasing_by
  have : xs.length ≠ 0 := by simpa using ‹¬xs = []›
  simp only [List.length_drop]
  have := payloadSizeMask_pos
  omega

/-- The full chunks at the head of `xs`, and the fewer than `payloadSizeMask` bytes after
them. -/
def fullChunks (xs : List UInt8) : List (List UInt8) × List UInt8 :=
  if xs.length < payloadSizeMask then ([], xs)
  else
    let rest := fullChunks (xs.drop payloadSizeMask)
    (xs.take payloadSizeMask :: rest.1, rest.2)
termination_by xs.length
decreasing_by
  simp only [List.length_drop]
  have := payloadSizeMask_pos
  omega

@[simp] theorem chunks_nil : chunks [] = [] := by
  rw [chunks]; simp

theorem chunks_of_ne_nil {xs : List UInt8} (nonempty : xs ≠ []) :
    chunks xs = xs.take payloadSizeMask :: chunks (xs.drop payloadSizeMask) := by
  rw [chunks]; simp [nonempty]

theorem chunks_of_length_le {xs : List UInt8} (nonempty : xs ≠ [])
    (fits : xs.length ≤ payloadSizeMask) : chunks xs = [xs] := by
  rw [chunks_of_ne_nil nonempty, List.take_of_length_le fits, List.drop_of_length_le fits,
    chunks_nil]

theorem fullChunks_of_lt {xs : List UInt8} (short : xs.length < payloadSizeMask) :
    fullChunks xs = ([], xs) := by
  rw [fullChunks]; simp [short]

theorem fullChunks_of_le {xs : List UInt8} (long : payloadSizeMask ≤ xs.length) :
    fullChunks xs = (xs.take payloadSizeMask :: (fullChunks (xs.drop payloadSizeMask)).1,
      (fullChunks (xs.drop payloadSizeMask)).2) := by
  rw [fullChunks]; simp [Nat.not_lt.mpr long]

theorem take_append_fill {q rem : List UInt8} (room : q.length ≤ payloadSizeMask) :
    (q ++ rem).take payloadSizeMask = q ++ rem.take (payloadSizeMask - q.length) := by
  rw [List.take_append_eq_append_take, List.take_of_length_le room]

theorem drop_append_fill {q rem : List UInt8} (room : q.length ≤ payloadSizeMask) :
    (q ++ rem).drop payloadSizeMask = rem.drop (payloadSizeMask - q.length) := by
  rw [List.drop_append_eq_append_drop, List.drop_of_length_le room, List.nil_append]

theorem flatten_chunks (xs : List UInt8) : (chunks xs).flatten = xs := by
  induction xs using chunks.induct with
  | case1 => simp
  | case2 xs nonempty ih => rw [chunks_of_ne_nil nonempty, List.flatten_cons, ih,
      List.take_append_drop]

theorem length_of_mem_chunks {xs c : List UInt8} (member : c ∈ chunks xs) :
    0 < c.length ∧ c.length ≤ payloadSizeMask := by
  induction xs using chunks.induct with
  | case1 => simp at member
  | case2 xs nonempty ih =>
    rw [chunks_of_ne_nil nonempty, List.mem_cons] at member
    rcases member with rfl | later
    · have : xs.length ≠ 0 := by simpa using nonempty
      have := payloadSizeMask_pos
      simp only [List.length_take]
      omega
    · exact ih later

theorem length_chunks (xs : List UInt8) :
    (chunks xs).length = (xs.length + payloadSizeMask - 1) / payloadSizeMask := by
  induction xs using chunks.induct with
  | case1 => simp [payloadSizeMask]
  | case2 xs nonempty ih =>
    have : xs.length ≠ 0 := by simpa using nonempty
    rw [chunks_of_ne_nil nonempty, List.length_cons, ih, List.length_drop]
    simp only [payloadSizeMask] at *
    omega

theorem fullChunks_flatten (xs : List UInt8) :
    (fullChunks xs).1.flatten ++ (fullChunks xs).2 = xs := by
  induction xs using fullChunks.induct with
  | case1 xs short => simp [fullChunks_of_lt short]
  | case2 xs long ih =>
    rw [fullChunks_of_le (Nat.not_lt.mp long), List.flatten_cons, List.append_assoc, ih,
      List.take_append_drop]

theorem length_of_mem_fullChunks {xs c : List UInt8} (member : c ∈ (fullChunks xs).1) :
    c.length = payloadSizeMask := by
  induction xs using fullChunks.induct with
  | case1 xs short => simp [fullChunks_of_lt short] at member
  | case2 xs long ih =>
    rw [fullChunks_of_le (Nat.not_lt.mp long), List.mem_cons] at member
    rcases member with rfl | later
    · simp only [List.length_take]; omega
    · exact ih later

theorem fullChunks_lengths (xs : List UInt8) :
    (fullChunks xs).1.length = xs.length / payloadSizeMask ∧
      (fullChunks xs).2.length = xs.length % payloadSizeMask := by
  induction xs using fullChunks.induct with
  | case1 xs short =>
    simp [fullChunks_of_lt short, Nat.div_eq_of_lt short, Nat.mod_eq_of_lt short]
  | case2 xs long ih =>
    rw [fullChunks_of_le (Nat.not_lt.mp long)]
    simp only [List.length_cons, ih, List.length_drop]
    have := payloadSizeMask_pos
    have split : xs.length = xs.length - payloadSizeMask + payloadSizeMask := by omega
    constructor
    · conv => rhs; rw [split, Nat.add_div_right _ this]
    · conv => rhs; rw [split, Nat.add_mod_right]

theorem chunks_fullChunks (xs ys : List UInt8) :
    chunks (xs ++ ys) = (fullChunks xs).1 ++ chunks ((fullChunks xs).2 ++ ys) := by
  induction xs using fullChunks.induct with
  | case1 xs short => simp [fullChunks_of_lt short]
  | case2 xs long ih =>
    have long := Nat.not_lt.mp long
    have nonempty : xs ++ ys ≠ [] := List.ne_nil_of_length_pos (by
      rw [List.length_append]; have := payloadSizeMask_pos; omega)
    rw [fullChunks_of_le long, chunks_of_ne_nil nonempty, List.take_append_of_le_length long,
      List.drop_append_of_le_length long, ih, List.cons_append]

theorem fullChunks_append (xs ys : List UInt8) :
    fullChunks (xs ++ ys) = ((fullChunks xs).1 ++ (fullChunks ((fullChunks xs).2 ++ ys)).1,
      (fullChunks ((fullChunks xs).2 ++ ys)).2) := by
  induction xs using fullChunks.induct with
  | case1 xs short => simp [fullChunks_of_lt short]
  | case2 xs long ih =>
    have long := Nat.not_lt.mp long
    rw [fullChunks_of_le long, fullChunks_of_le (by rw [List.length_append]; omega),
      List.take_append_of_le_length long, List.drop_append_of_le_length long, ih]
    rfl

theorem chunks_of_short {xs : List UInt8} (fits : xs.length ≤ payloadSizeMask) :
    chunks xs = if xs = [] then [] else [xs] := by
  split
  · next empty => rw [empty, chunks_nil]
  · next nonempty => exact chunks_of_length_le nonempty fits

end Shadowsocks
