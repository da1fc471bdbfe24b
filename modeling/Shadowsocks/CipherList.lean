import Shadowsocks.Interfaces

/-!
The cipher list of cipher_list.go: a container/list whose elements point to a
`CipherEntry` (an ID, a cipher, and the IP of the client that last used it).
`PushBack` appends an entry, `SafeMarkUsedByClientIP` moves an element to the front and
records the client's IP, and `SafeSnapshotForClientIP` lists the elements whose last IP
is the client's first, then the others.

`PushBack` allocates a fresh element each time, so an element is named by the number of
`PushBack` calls before the one that returned it, and the entries by a list in push
order. A `net.IP` is a byte slice, `none` being nil. A history lists the calls on one
list newest first, as a log does; the calls are sequential, each under the list's lock.
Clients are compared with `net.IP.Equal`, so an IPv4 client and the IPv4-in-IPv6 form of its
address are one client to the list.
-/

namespace Shadowsocks

/-- A `net.IP`: a byte slice, `none` being nil. -/
abbrev IP := Option (List UInt8)

def IP.bytes : IP → List UInt8
  | none => []
  | some b => b

/-- The 12 bytes in front of an IPv4 address in its IPv6 form. -/
def v4InV6Prefix : List UInt8 := [0, 0, 0, 0, 0, 0, 0, 0, 0, 0, 0xff, 0xff]

/-- `net.IP.Equal` of the Go library: the same bytes, or a 4-byte IPv4 address and the
same address in 16-byte form. -/
def IP.Equal (ip x : IP) : Bool :=
  if ip.bytes.length = x.bytes.length then ip.bytes == x.bytes
  else if ip.bytes.length = 4 ∧ x.bytes.length = 16 then
    x.bytes.take 12 == v4InV6Prefix && ip.bytes == x.bytes.drop 12
  else if ip.bytes.length = 16 ∧ x.bytes.length = 4 then
    ip.bytes.take 12 == v4InV6Prefix && ip.bytes.drop 12 == x.bytes
  else false

theorem IP.Equal_self (ip : IP) : IP.Equal ip ip = true := by
  simp [IP.Equal]

structure CipherEntry where
  id : String
  cipher : Cipher
  lastClientIP : IP

/-- The list and its entries. Element `e`, a `*list.Element`, is the one the `e`-th
`PushBack` returned. -/
structure CipherList where
    entries : List CipherEntry
    list : List Nat

def newCipherList : CipherList := ⟨[], []⟩

/-- `list.MoveToFront`: nothing when `e` is not in the list or already at its front. -/
def moveToFront (l : List Nat) (e : Nat) : List Nat :=
  if e ∉ l ∨ l.head? = some e then l else e :: l.erase e

def CipherList.PushBack (cl : CipherList) (id : String) (cipher : Cipher) :
    CipherList × Nat :=
  (⟨cl.entries ++ [⟨id, cipher, none⟩], cl.list ++ [cl.entries.length]⟩, cl.entries.length)

def matchesIP (cl : CipherList) (e : Nat) (clientIP : IP) : Bool :=
  match cl.entries[e]? with
  | some c => clientIP.isSome && IP.Equal clientIP c.lastClientIP
  | none => false

def snapshotStep (cl : CipherList) (clientIP : IP) (buckets : List Nat × List Nat)
    (e : Nat) : List Nat × List Nat :=
  if matchesIP cl e clientIP then (buckets.1 ++ [e], buckets.2) else (buckets.1, buckets.2 ++ [e])

def CipherList.SafeSnapshotForClientIP (cl : CipherList) (clientIP : IP) : List Nat :=
  let (cipherArray, remainingCiphers) := cl.list.foldl (snapshotStep cl clientIP) ([], [])
  cipherArray ++ remainingCiphers

def CipherList.SafeMarkUsedByClientIP (cl : CipherList) (e : Nat) (clientIP : IP) :
    CipherList where
  entries := cl.entries.modify (fun c => { c with lastClientIP := clientIP }) e
  list := moveToFront cl.list e

inductive ListCall where
  | pushBack (id : String) (cipher : Cipher)
  | safeMarkUsedByClientIP (e : Nat) (clientIP : IP)

def CipherList.call (cl : CipherList) : ListCall → CipherList
  | .pushBack id cipher => (cl.PushBack id cipher).1
  | .safeMarkUsedByClientIP e clientIP => cl.SafeMarkUsedByClientIP e clientIP

def CipherList.replay (cl : CipherList) : List ListCall → CipherList
  | [] => cl
  | call :: history => (cl.replay history).call call

/-! ### What the list is for

A recency list: every pushed entry once, the marked ones first by their latest marks, the
others in push order, each remembering its latest client. -/

def pushed : List ListCall → List (String × Cipher)
  | [] => []
  | .pushBack id cipher :: history => pushed history ++ [(id, cipher)]
  | .safeMarkUsedByClientIP .. :: history => pushed history

/-- Every mark names an element that an earlier `PushBack` returned. -/
def Valid : List ListCall → Prop
  | [] => True
  | .pushBack .. :: history => Valid history
  | .safeMarkUsedByClientIP e _ :: history => e < (pushed history).length ∧ Valid history

instance decidableValid : (history : List ListCall) → Decidable (Valid history)
  | [] => isTrue trivial
  | .pushBack .. :: history => decidableValid history
  | .safeMarkUsedByClientIP .. :: history => @instDecidableAnd _ _ _ (decidableValid history)

/-- The latest mark of `e` in a history: its time (the number of calls before it) and the
client's IP. -/
def lastMark : List ListCall → Nat → Option (Nat × IP)
  | [], _ => none
  | .pushBack .. :: history, e => lastMark history e
  | .safeMarkUsedByClientIP e' clientIP :: history, e =>
    if e' = e then some (history.length, clientIP) else lastMark history e

def markedIP (history : List ListCall) (e : Nat) : IP :=
  match lastMark history e with
  | some (_, clientIP) => clientIP
  | none => none

/-- `i` comes before `j` in most-recently-used order: the marked elements first, latest
mark first, then the never-marked ones in push order. -/
def MoreRecent (history : List ListCall) (i j : Nat) : Prop :=
  match lastMark history i, lastMark history j with
  | some (s, _), some (t, _) => t < s
  | some _, none => True
  | none, some _ => False
  | none, none => i < j

instance (history : List ListCall) : DecidableRel (MoreRecent history) := fun i j => by
  unfold MoreRecent; split <;> infer_instance

def CipherEntry.key (c : CipherEntry) : String × Cipher := (c.id, c.cipher)

/-- The list after `history`: its entries are the pushed ones, each with the IP of its
latest mark, and it holds every pushed element once, in most-recently-used order. -/
structure Tracks (history : List ListCall) (cl : CipherList) : Prop where
  keys : cl.entries.map CipherEntry.key = pushed history
  ips : ∀ e c, cl.entries[e]? = some c → c.lastClientIP = markedIP history e
  perm : cl.list.Perm (List.range (pushed history).length)
  recent : cl.list.Pairwise (MoreRecent history)

section History
variable {history : List ListCall} {e : Nat}

@[simp] theorem lastMark_pushBack (id : String) (cipher : Cipher) :
    lastMark (.pushBack id cipher :: history) e = lastMark history e := rfl

theorem lastMark_marked (clientIP : IP) :
    lastMark (.safeMarkUsedByClientIP e clientIP :: history) e = some (history.length, clientIP) :=
  if_pos rfl

theorem lastMark_other {e' : Nat} (other : e' ≠ e) (clientIP : IP) :
    lastMark (.safeMarkUsedByClientIP e' clientIP :: history) e = lastMark history e :=
  if_neg other

theorem lastMark_lt_length {t : Nat} {clientIP : IP} (marked : lastMark history e = some (t, clientIP)) :
    t < history.length := by
  induction history with
  | nil => cases marked
  | cons call history ih =>
    cases call with
    | pushBack => exact Nat.lt_succ_of_lt (ih marked)
    | safeMarkUsedByClientIP e' ip =>
      by_cases same : e' = e
      · rw [same, lastMark_marked, Option.some.injEq, Prod.mk.injEq] at marked
        simp [← marked.1]
      · exact Nat.lt_succ_of_lt (ih (by rwa [lastMark_other same] at marked))

theorem lastMark_of_unpushed (valid : Valid history) (unpushed : (pushed history).length ≤ e) :
    lastMark history e = none := by
  induction history with
  | nil => rfl
  | cons call history ih =>
    cases call with
    | pushBack id cipher =>
      simp only [pushed, List.length_append, List.length_singleton] at unpushed
      exact ih valid (by omega)
    | safeMarkUsedByClientIP e' ip =>
      have other : e' ≠ e := by have := valid.1; simp only [pushed] at unpushed; omega
      rw [lastMark_other other]
      exact ih valid.2 unpushed

theorem moreRecent_marked {x : Nat} (other : x ≠ e) (clientIP : IP) :
    MoreRecent (.safeMarkUsedByClientIP e clientIP :: history) e x := by
  unfold MoreRecent
  rw [lastMark_marked, lastMark_other (Ne.symm other)]
  rcases marked : lastMark history x with _ | ⟨t, ip⟩
  · trivial
  · exact lastMark_lt_length marked

theorem moreRecent_other {x y : Nat} (hx : x ≠ e) (hy : y ≠ e) (clientIP : IP) :
    MoreRecent (.safeMarkUsedByClientIP e clientIP :: history) x y ↔ MoreRecent history x y := by
  unfold MoreRecent
  rw [lastMark_other (Ne.symm hx), lastMark_other (Ne.symm hy)]

end History

theorem moveToFront_of_mem {l : List Nat} {e : Nat} (mem : e ∈ l) :
    moveToFront l e = e :: l.erase e := by
  unfold moveToFront
  split
  · rename_i stays
    rcases stays with absent | front
    · exact absurd mem absent
    · cases l with
      | nil => cases front
      | cons x xs =>
        rw [List.head?_cons, Option.some.injEq] at front
        rw [front, List.erase_cons_head]
  · rfl

theorem key_modify (entries : List CipherEntry) (e : Nat) (clientIP : IP) :
    (entries.modify (fun c => { c with lastClientIP := clientIP }) e).map CipherEntry.key =
      entries.map CipherEntry.key := by
  apply List.ext_getElem?
  intro m
  simp only [List.getElem?_map, List.getElem?_modify]
  cases entries[m]? with
  | none => rfl
  | some c => by_cases same : e = m <;> simp [same, CipherEntry.key]

section Steps
variable {history : List ListCall} {cl : CipherList}

theorem Tracks.length (tracks : Tracks history cl) :
    cl.entries.length = (pushed history).length := by
  rw [← tracks.keys, List.length_map]

theorem Tracks.nodup (tracks : Tracks history cl) : cl.list.Nodup :=
  tracks.perm.nodup_iff.mpr (List.nodup_range _)

theorem Tracks.mem (tracks : Tracks history cl) {e : Nat} :
    e ∈ cl.list ↔ e < (pushed history).length := by
  rw [tracks.perm.mem_iff, List.mem_range]

theorem Tracks.pushBack (tracks : Tracks history cl) (valid : Valid history) (id : String)
    (cipher : Cipher) : Tracks (.pushBack id cipher :: history) (cl.PushBack id cipher).1 := by
  have fresh : lastMark history cl.entries.length = none :=
    lastMark_of_unpushed valid tracks.length.ge
  refine ⟨by simp [CipherList.PushBack, pushed, tracks.keys, CipherEntry.key], ?_, ?_, ?_⟩
  · intro e c found
    simp only [CipherList.PushBack] at found
    rcases Nat.lt_or_ge e cl.entries.length with old | new
    · rw [List.getElem?_append_left old] at found
      exact tracks.ips e c found
    · rw [List.getElem?_append_right new] at found
      rcases past : e - cl.entries.length with _ | k <;> rw [past] at found <;> cases found
      simp [markedIP, show e = cl.entries.length by omega, fresh]
  · simp only [CipherList.PushBack, pushed, List.length_append, List.length_singleton,
      List.range_succ, tracks.length]
    exact tracks.perm.append_right _
  · refine List.pairwise_append.mpr ⟨tracks.recent, List.pairwise_singleton _ _, ?_⟩
    intro x member y newest
    rw [List.mem_singleton.mp newest]
    show MoreRecent history x cl.entries.length
    unfold MoreRecent
    rw [fresh]
    rcases lastMark history x with _ | ⟨t, ip⟩
    · rw [tracks.length]; exact tracks.mem.mp member
    · trivial

theorem Tracks.mark (tracks : Tracks history cl) {e : Nat} (named : e < (pushed history).length)
    (clientIP : IP) :
    Tracks (.safeMarkUsedByClientIP e clientIP :: history) (cl.SafeMarkUsedByClientIP e clientIP) := by
  have front := moveToFront_of_mem (tracks.mem.mpr named)
  refine ⟨by simp [CipherList.SafeMarkUsedByClientIP, key_modify, tracks.keys, pushed], ?_, ?_, ?_⟩
  · intro x c found
    simp only [CipherList.SafeMarkUsedByClientIP, List.getElem?_modify] at found
    by_cases same : e = x
    · subst same
      rcases old : cl.entries[e]? with _ | c₀ <;> rw [old] at found <;> cases found
      simp [markedIP, lastMark_marked]
    · rcases old : cl.entries[x]? with _ | c₀ <;> rw [old] at found <;> cases found
      simp only [if_neg same, markedIP, lastMark_other same]
      exact tracks.ips x c₀ old
  · simp only [CipherList.SafeMarkUsedByClientIP, front, pushed]
    exact (List.perm_cons_erase (tracks.mem.mpr named)).symm.trans tracks.perm
  · simp only [CipherList.SafeMarkUsedByClientIP, front]
    have erased {x : Nat} (member : x ∈ cl.list.erase e) : x ≠ e :=
      (tracks.nodup.mem_erase_iff.mp member).1
    refine List.pairwise_cons.mpr ⟨fun x member => moreRecent_marked (erased member) clientIP, ?_⟩
    exact (tracks.recent.sublist (List.erase_sublist _ _)).imp_of_mem fun hx hy before =>
      (moreRecent_other (erased hx) (erased hy) clientIP).mpr before

theorem tracks_replay : ∀ {history : List ListCall}, Valid history →
    Tracks history (newCipherList.replay history)
  | [], _ => ⟨rfl, fun _ _ found => (by cases found), .nil, .nil⟩
  | .pushBack id cipher :: history, valid =>
    (tracks_replay (show Valid history from valid)).pushBack valid id cipher
  | .safeMarkUsedByClientIP _ clientIP :: _, valid => (tracks_replay valid.2).mark valid.1 clientIP

end Steps

/-- After every valid history the list holds each pushed entry once, with the IP of its latest
mark, in most-recently-used order: marked ones by latest mark, then the others in push order. -/
theorem cipherList_keeps_every_entry_in_recency_order (history : List ListCall)
    (cl : CipherList) (valid : Valid history) (reached : newCipherList.replay history = cl) :
    cl.entries.map CipherEntry.key = pushed history ∧
    (∀ e c, cl.entries[e]? = some c → c.lastClientIP = markedIP history e) ∧
    cl.list.Perm (List.range (pushed history).length) ∧ cl.list.Nodup ∧
    cl.list.Pairwise (MoreRecent history) := by
  have tracks := reached ▸ tracks_replay valid
  exact ⟨tracks.keys, tracks.ips, tracks.perm, tracks.nodup, tracks.recent⟩

theorem cipherList_after_three_pushes_and_two_marks :
    let history : List ListCall :=
      [.safeMarkUsedByClientIP 1 (some [10, 0, 0, 2]), .safeMarkUsedByClientIP 2 (some [10, 0, 0, 1]),
        .pushBack "c" (Cipher.tagging 2 1), .pushBack "b" (Cipher.tagging 2 1),
        .pushBack "a" (Cipher.tagging 2 1)]
    let cl : CipherList :=
      ⟨[⟨"a", Cipher.tagging 2 1, none⟩, ⟨"b", Cipher.tagging 2 1, some [10, 0, 0, 2]⟩,
        ⟨"c", Cipher.tagging 2 1, some [10, 0, 0, 1]⟩], [1, 2, 0]⟩
    Valid history ∧ newCipherList.replay history = cl ∧
      cl.entries.map CipherEntry.key = pushed history ∧
      (∀ e c, cl.entries[e]? = some c → c.lastClientIP = markedIP history e) ∧
      cl.list.Perm (List.range (pushed history).length) ∧ cl.list.Nodup ∧
      cl.list.Pairwise (MoreRecent history) :=
  ⟨by decide, rfl, cipherList_keeps_every_entry_in_recency_order _ _ (by decide) rfl⟩

section Snapshot
variable (cl : CipherList) (clientIP : IP)

theorem foldl_snapshotStep (l matching others : List Nat) :
    l.foldl (snapshotStep cl clientIP) (matching, others) =
      (matching ++ l.filter (matchesIP cl · clientIP),
        others ++ l.filter fun e => !matchesIP cl e clientIP) := by
  induction l generalizing matching others with
  | nil => simp
  | cons e l ih =>
    by_cases hit : matchesIP cl e clientIP = true <;>
      simp [snapshotStep, hit, ih, List.filter_cons]

theorem SafeSnapshotForClientIP_partition :
    cl.SafeSnapshotForClientIP clientIP =
      cl.list.filter (matchesIP cl · clientIP) ++
        cl.list.filter fun e => !matchesIP cl e clientIP := by
  simp only [CipherList.SafeSnapshotForClientIP, foldl_snapshotStep, List.nil_append]

theorem SafeSnapshotForClientIP_perm : (cl.SafeSnapshotForClientIP clientIP).Perm cl.list := by
  rw [SafeSnapshotForClientIP_partition]
  exact List.filter_append_perm _ _

theorem matchesIP_nil (e : Nat) : matchesIP cl e none = false := by
  unfold matchesIP; split <;> rfl

theorem SafeSnapshotForClientIP_nil : cl.SafeSnapshotForClientIP none = cl.list := by
  simp [SafeSnapshotForClientIP_partition, matchesIP_nil]

end Snapshot

theorem SafeSnapshotForClientIP_marked {cl : CipherList} {e : Nat} (member : e ∈ cl.list)
    (stored : e < cl.entries.length) (clientIP : IP) :
    ((cl.SafeMarkUsedByClientIP e clientIP).SafeSnapshotForClientIP clientIP).head? = some e := by
  cases clientIP with
  | none =>
    simp [SafeSnapshotForClientIP_nil, CipherList.SafeMarkUsedByClientIP, moveToFront_of_mem member]
  | some b =>
    have hit : matchesIP (cl.SafeMarkUsedByClientIP e (some b)) e (some b) = true := by
      simp [matchesIP, CipherList.SafeMarkUsedByClientIP, List.getElem?_modify,
        List.getElem?_eq_getElem stored, IP.Equal_self]
    rw [SafeSnapshotForClientIP_partition]
    simp only [CipherList.SafeMarkUsedByClientIP, moveToFront_of_mem member] at hit ⊢
    rw [List.filter_cons_of_pos (p := fun x => matchesIP _ x (some b)) hit]
    rfl

/-- A client's snapshot is the stable partition of the list by `matchesIP`: every pushed
element once, the list itself for a nil client, and first the element the client just marked. -/
theorem snapshot_tries_every_entry_matching_first (history : List ListCall) (cl : CipherList)
    (valid : Valid history) (reached : newCipherList.replay history = cl) (clientIP : IP) :
    cl.SafeSnapshotForClientIP clientIP =
        cl.list.filter (matchesIP cl · clientIP) ++
          cl.list.filter (fun e => !matchesIP cl e clientIP) ∧
      (cl.SafeSnapshotForClientIP clientIP).Perm (List.range (pushed history).length) ∧
      (cl.SafeSnapshotForClientIP clientIP).Nodup ∧
      (clientIP = none → cl.SafeSnapshotForClientIP clientIP = cl.list) ∧
      ∀ e < (pushed history).length,
        ((cl.SafeMarkUsedByClientIP e clientIP).SafeSnapshotForClientIP clientIP).head? = some e := by
  have tracks := reached ▸ tracks_replay valid
  have perm := (SafeSnapshotForClientIP_perm cl clientIP).trans tracks.perm
  refine ⟨SafeSnapshotForClientIP_partition cl clientIP, perm,
    perm.nodup_iff.mpr (List.nodup_range _), fun nil => nil ▸ SafeSnapshotForClientIP_nil cl,
    fun e named => ?_⟩
  exact SafeSnapshotForClientIP_marked (tracks.mem.mpr named) (tracks.length ▸ named) clientIP

theorem snapshot_after_three_pushes_and_two_marks :
    let history : List ListCall :=
      [.safeMarkUsedByClientIP 1 (some [10, 0, 0, 2]), .safeMarkUsedByClientIP 2 (some [10, 0, 0, 1]),
        .pushBack "c" (Cipher.tagging 2 1), .pushBack "b" (Cipher.tagging 2 1),
        .pushBack "a" (Cipher.tagging 2 1)]
    let cl := newCipherList.replay history
    Valid history ∧ cl.SafeSnapshotForClientIP (some [10, 0, 0, 1]) = [2, 1, 0] ∧
      cl.SafeSnapshotForClientIP (some [10, 0, 0, 1]) =
          cl.list.filter (matchesIP cl · (some [10, 0, 0, 1])) ++
            cl.list.filter (fun e => !matchesIP cl e (some [10, 0, 0, 1])) ∧
      (cl.SafeSnapshotForClientIP (some [10, 0, 0, 1])).Perm
        (List.range (pushed history).length) ∧
      (cl.SafeSnapshotForClientIP (some [10, 0, 0, 1])).Nodup ∧
      ((some [10, 0, 0, 1] : IP) = none → cl.SafeSnapshotForClientIP (some [10, 0, 0, 1]) = cl.list) ∧
      ∀ e < (pushed history).length,
        ((cl.SafeMarkUsedByClientIP e (some [10, 0, 0, 1])).SafeSnapshotForClientIP
          (some [10, 0, 0, 1])).head? = some e :=
  ⟨by decide, by decide,
    snapshot_tries_every_entry_matching_first _ _ (by decide) rfl (some [10, 0, 0, 1])⟩

/-! ### The order a client's ciphers are tried in -/

/-- Whether a client's snapshot puts `e` in front after `history`: the client is not nil and
its IP equals the one of `e`'s latest mark. -/
def markedBy (history : List ListCall) (clientIP : IP) (e : Nat) : Bool :=
  clientIP.isSome && IP.Equal clientIP (markedIP history e)

theorem Tracks.matchesIP_eq {history : List ListCall} {cl : CipherList}
    (tracks : Tracks history cl) {e : Nat} (member : e ∈ cl.list) (clientIP : IP) :
    matchesIP cl e clientIP = markedBy history clientIP e := by
  have stored : e < cl.entries.length := tracks.length ▸ tracks.mem.mp member
  unfold matchesIP markedBy
  rw [List.getElem?_eq_getElem stored]
  dsimp only
  rw [tracks.ips e _ (List.getElem?_eq_getElem stored)]

/-- The order a client's ciphers are tried in, from the history alone: first those whose latest
mark was by that client, then the others, each group in most-recently-used order. -/
theorem snapshot_tries_last_client_ciphers_then_recent (history : List ListCall)
    (valid : Valid history) (clientIP : IP) :
    ∃ front back, (newCipherList.replay history).SafeSnapshotForClientIP clientIP = front ++ back ∧
      (∀ e ∈ front, markedBy history clientIP e = true) ∧
      (∀ e ∈ back, markedBy history clientIP e = false) ∧
      front.Pairwise (MoreRecent history) ∧ back.Pairwise (MoreRecent history) ∧
      (front ++ back).Perm (List.range (pushed history).length) := by
  have tracks := tracks_replay valid
  generalize newCipherList.replay history = cl at tracks
  refine ⟨_, _, SafeSnapshotForClientIP_partition cl clientIP, fun e member => ?_,
    fun e member => ?_, tracks.recent.filter _, tracks.recent.filter _,
    (List.filter_append_perm _ _).trans tracks.perm⟩
  · obtain ⟨listed, hit⟩ := List.mem_filter.mp member
    rwa [tracks.matchesIP_eq listed] at hit
  · obtain ⟨listed, miss⟩ := List.mem_filter.mp member
    rw [tracks.matchesIP_eq listed] at miss
    simpa using miss

theorem snapshot_order_after_three_pushes_and_two_marks :
    let history : List ListCall :=
      [.safeMarkUsedByClientIP 1 (some [10, 0, 0, 2]), .safeMarkUsedByClientIP 2 (some [10, 0, 0, 1]),
        .pushBack "c" (Cipher.tagging 2 1), .pushBack "b" (Cipher.tagging 2 1),
        .pushBack "a" (Cipher.tagging 2 1)]
    Valid history ∧ ∃ front back,
      (newCipherList.replay history).SafeSnapshotForClientIP (some [10, 0, 0, 1]) = front ++ back ∧
      (∀ e ∈ front, markedBy history (some [10, 0, 0, 1]) e = true) ∧
      (∀ e ∈ back, markedBy history (some [10, 0, 0, 1]) e = false) ∧
      front.Pairwise (MoreRecent history) ∧ back.Pairwise (MoreRecent history) ∧
      (front ++ back).Perm (List.range (pushed history).length) :=
  ⟨by decide, snapshot_tries_last_client_ciphers_then_recent _ (by decide) _⟩

/-! ### An IPv4 client and its IPv4-in-IPv6 form are one client -/

@[simp] theorem IP.bytes_some (b : List UInt8) : IP.bytes (some b) = b := rfl

theorem eq_append_iff_parts {p b xs : List UInt8} (len : xs.length = p.length + b.length) :
    xs = p ++ b ↔ xs.take p.length = p ∧ xs.drop p.length = b := by
  constructor
  · rintro rfl
    simp
  · rintro ⟨first, rest⟩
    rw [← List.take_append_drop p.length xs, first, rest]

section V4InV6
variable {b : List UInt8}

theorem v4InV6Prefix_length : v4InV6Prefix.length = 12 := rfl

theorem IP.Equal_v4InV6 (four : b.length = 4) (x : IP) :
    IP.Equal (some b) x = IP.Equal (some (v4InV6Prefix ++ b)) x ∧
      IP.Equal x (some b) = IP.Equal x (some (v4InV6Prefix ++ b)) := by
  unfold IP.Equal
  simp only [IP.bytes_some, List.length_append, v4InV6Prefix_length, four]
  generalize x.bytes = xs
  by_cases four' : xs.length = 4
  · simp [four', List.take_left' v4InV6Prefix_length, List.drop_left' v4InV6Prefix_length]
  by_cases sixteen : xs.length = 16
  · have parts := eq_append_iff_parts (show xs.length = v4InV6Prefix.length + b.length by
      rw [sixteen, v4InV6Prefix_length, four])
    rw [v4InV6Prefix_length] at parts
    constructor <;> rw [Bool.eq_iff_iff] <;>
      simp [sixteen, four', eq_comm (a := b), eq_comm (a := v4InV6Prefix ++ b), parts]
  · simp [sixteen, four', Ne.symm four', Ne.symm sixteen]

theorem matchesIP_v4InV6 (four : b.length = 4) (cl : CipherList) (e : Nat) :
    matchesIP cl e (some b) = matchesIP cl e (some (v4InV6Prefix ++ b)) := by
  unfold matchesIP
  split
  · simp only [Option.isSome_some, Bool.true_and, (IP.Equal_v4InV6 four _).1]
  · rfl

theorem matchesIP_mark_v4InV6 (four : b.length = 4) (cl : CipherList) (e e' : Nat)
    (clientIP : IP) :
    matchesIP (cl.SafeMarkUsedByClientIP e (some b)) e' clientIP =
      matchesIP (cl.SafeMarkUsedByClientIP e (some (v4InV6Prefix ++ b))) e' clientIP := by
  unfold matchesIP CipherList.SafeMarkUsedByClientIP
  simp only [List.getElem?_modify]
  rcases cl.entries[e']? with _ | c
  · rfl
  · by_cases marked : e = e'
    · simp [marked, (IP.Equal_v4InV6 four clientIP).2]
    · simp [marked]

end V4InV6

theorem SafeSnapshotForClientIP_congr {cl cl' : CipherList} {clientIP clientIP' : IP}
    (same : cl.list = cl'.list) (alike : ∀ e, matchesIP cl e clientIP = matchesIP cl' e clientIP') :
    cl.SafeSnapshotForClientIP clientIP = cl'.SafeSnapshotForClientIP clientIP' := by
  have step : snapshotStep cl clientIP = snapshotStep cl' clientIP' := by
    funext buckets e
    simp only [snapshotStep, alike e]
  simp only [CipherList.SafeSnapshotForClientIP, step, same]

/-- The cipher list takes an IPv4 client and the IPv4-in-IPv6 form of its address for one
client, as `net.IP.Equal` does: both get the same snapshot, and marking a cipher used under
either form leaves the same snapshot for every client. -/
theorem cipherList_one_client_for_v4_and_v4InV6 :
    (∀ (cl : CipherList) (b : List UInt8), b.length = 4 →
      cl.SafeSnapshotForClientIP (some b) =
        cl.SafeSnapshotForClientIP (some (v4InV6Prefix ++ b))) ∧
    ∀ (cl : CipherList) (b : List UInt8) (e : Nat) (clientIP : IP), b.length = 4 →
      (cl.SafeMarkUsedByClientIP e (some b)).SafeSnapshotForClientIP clientIP =
        (cl.SafeMarkUsedByClientIP e (some (v4InV6Prefix ++ b))).SafeSnapshotForClientIP
          clientIP :=
  ⟨fun cl _ four => SafeSnapshotForClientIP_congr rfl (matchesIP_v4InV6 four cl),
   fun cl _ e clientIP four =>
    SafeSnapshotForClientIP_congr rfl fun e' => matchesIP_mark_v4InV6 four cl e e' clientIP⟩

theorem snapshot_same_for_mapped_address :
    ([10, 0, 0, 1] : List UInt8).length = 4 ∧
      ((newCipherList.replay [.safeMarkUsedByClientIP 1 (some [10, 0, 0, 1]),
          .pushBack "b" (Cipher.tagging 2 1), .pushBack "a" (Cipher.tagging 2 1)]).SafeSnapshotForClientIP
          (some [10, 0, 0, 1]) =
        (newCipherList.replay [.safeMarkUsedByClientIP 1 (some [10, 0, 0, 1]),
          .pushBack "b" (Cipher.tagging 2 1), .pushBack "a" (Cipher.tagging 2 1)]).SafeSnapshotForClientIP
          (some (v4InV6Prefix ++ [10, 0, 0, 1]))) :=
  ⟨rfl, cipherList_one_client_for_v4_and_v4InV6.1 _ _ rfl⟩

/-! ### Marking again by the same client changes nothing -/

section Remark
variable {l : List Nat} {e : Nat}

theorem moveToFront_moveToFront (l : List Nat) (e : Nat) :
    moveToFront (moveToFront l e) e = moveToFront l e := by
  by_cases mem : e ∈ l
  · rw [moveToFront_of_mem mem, moveToFront_of_mem (List.mem_cons_self e _), List.erase_cons_head]
  · simp [moveToFront, mem]

theorem moveToFront_eq_self (mem : e ∈ l) : moveToFront l e = l ↔ l.head? = some e := by
  rw [moveToFront_of_mem mem]
  cases l with
  | nil => cases mem
  | cons x xs =>
    by_cases front : x = e
    · subst front
      simp
    · simp [front, Ne.symm front]

theorem modify_lastClientIP_twice (entries : List CipherEntry) (e : Nat) (clientIP : IP) :
    (entries.modify (fun c => { c with lastClientIP := clientIP }) e).modify
        (fun c => { c with lastClientIP := clientIP }) e =
      entries.modify (fun c => { c with lastClientIP := clientIP }) e := by
  rw [List.modify_modify_eq]
  rfl

theorem modify_lastClientIP_eq_self {entries : List CipherEntry} {c : CipherEntry}
    (found : entries[e]? = some c) (clientIP : IP) :
    entries.modify (fun c => { c with lastClientIP := clientIP }) e = entries ↔
      c.lastClientIP = clientIP := by
  constructor
  · intro same
    have entry := congrArg (·[e]?) same
    simp only [List.getElem?_modify_eq, found, Option.map_eq_map, Option.map_some',
      Option.some.injEq] at entry
    exact (congrArg CipherEntry.lastClientIP entry).symm
  · intro recorded
    apply List.ext_getElem?
    intro m
    rw [List.getElem?_modify]
    by_cases marked : e = m
    · subst marked
      simp [found, ← recorded]
    · simp [marked]

end Remark

/-- A client that marks the cipher it used again changes nothing: marking an element twice
for one client is marking it once, and a mark leaves a list as it is exactly when the
element already heads it with that client's IP recorded. -/
theorem cipherList_marks_again_change_nothing :
    (∀ (cl : CipherList) (e : Nat) (clientIP : IP),
      (cl.SafeMarkUsedByClientIP e clientIP).SafeMarkUsedByClientIP e clientIP =
        cl.SafeMarkUsedByClientIP e clientIP) ∧
    ∀ (cl : CipherList) (e : Nat) (c : CipherEntry) (clientIP : IP), e ∈ cl.list →
      cl.entries[e]? = some c →
      (cl.SafeMarkUsedByClientIP e clientIP = cl ↔
        cl.list.head? = some e ∧ c.lastClientIP = clientIP) := by
  refine ⟨fun cl e clientIP => ?_, fun cl e c clientIP mem found => ?_⟩
  · simp only [CipherList.SafeMarkUsedByClientIP, modify_lastClientIP_twice,
      moveToFront_moveToFront]
  · rcases cl with ⟨entries, list⟩
    simp only [CipherList.SafeMarkUsedByClientIP, CipherList.mk.injEq,
      modify_lastClientIP_eq_self found, moveToFront_eq_self mem, and_comm]

theorem mark_by_last_client_keeps_list :
    0 ∈ [0] ∧ [(⟨"a", Cipher.tagging 2 1, some [10, 0, 0, 1]⟩ : CipherEntry)][0]? =
        some ⟨"a", Cipher.tagging 2 1, some [10, 0, 0, 1]⟩ ∧
      ((⟨[⟨"a", Cipher.tagging 2 1, some [10, 0, 0, 1]⟩], [0]⟩ : CipherList).SafeMarkUsedByClientIP
          0 (some [10, 0, 0, 1]) = ⟨[⟨"a", Cipher.tagging 2 1, some [10, 0, 0, 1]⟩], [0]⟩ ↔
        [0].head? = some 0 ∧ some [10, 0, 0, 1] = (some [10, 0, 0, 1] : IP)) :=
  ⟨List.mem_singleton_self 0, rfl,
    cipherList_marks_again_change_nothing.2 ⟨[⟨"a", Cipher.tagging 2 1, some [10, 0, 0, 1]⟩], [0]⟩
      0 ⟨"a", Cipher.tagging 2 1, some [10, 0, 0, 1]⟩ (some [10, 0, 0, 1])
      (List.mem_singleton_self 0) rfl⟩

end Shadowsocks
