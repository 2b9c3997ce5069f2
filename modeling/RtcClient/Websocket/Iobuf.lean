import RtcClient.Websocket.Reception
/-!
# The buffers of a connection

`MgConnection` has byte strings for what has been received and what is to be sent. In memory each
is a block that is replaced by a larger one when there is no room. The calls on a block give what
the same calls on a byte string give, whether memory is to be had or not; no access is outside the
block, and nothing of the contents stays in memory that is not in use (`iobuf_refines`).
-/

namespace RtcClient

open Lib

def MG_IO_SIZE : Nat := 2048

/-! ## Memory -/

/-- `memcpy(block + ofs, src, n)`. There is no result if it is outside one of the blocks. -/
def memcpy (block : Bytes) (ofs : Nat) (src : Bytes) (n : Nat) : Option Bytes :=
  if ofs + n ≤ block.length ∧ n ≤ src.length then some (splice block ofs (src.take n)) else none

/-- `memmove` inside a block. -/
def memmove (block : Bytes) (ofs src n : Nat) : Option Bytes :=
  if src ≤ block.length then memcpy block ofs (block.drop src) n else none

def zeromem (block : Bytes) (ofs len : Nat) : Option Bytes := memcpy block ofs (List.replicate len 0) len

/-! ## The model -/

/-- `struct mg_iobuf`. `buf` is the block, with its `size` bytes; `freed` are the blocks that have been given back. -/
structure MgIobuf where
  buf : Bytes := []
  len : Nat := 0
  freed : List Bytes := []
deriving DecidableEq, Repr

namespace MgIobuf

def size (io : MgIobuf) : Nat := io.buf.length

/-- `granted` says whether `calloc` succeeds. -/
def mg_iobuf_resize (granted : Bool) (io : MgIobuf) (new_size : Nat) : Option (MgIobuf × Bool) := do
  if new_size = 0 then
    let block ← zeromem io.buf 0 io.size
    return ({ buf := [], len := 0, freed := io.freed ++ [block] }, true)
  else if new_size ≠ io.size then
    if granted then
      let p ← memcpy (List.replicate new_size 0) 0 io.buf (if new_size < io.len then new_size else io.len)
      let block ← zeromem io.buf 0 io.size
      return ({ io with buf := p, freed := io.freed ++ [block] }, true)
    else return (io, false)
  else return (io, true)

/-- All the bytes are put in, or none. -/
def mg_iobuf_add (granted : Bool) (io : MgIobuf) (ofs : Nat) (buf : Bytes) (chunk_size : Nat) :
    Option (MgIobuf × Nat) := do
  let (io, len) ←
    if io.len + buf.length > io.size then do
      let new_size := io.len + buf.length + chunk_size
      let new_size := new_size - new_size % chunk_size
      let (io, _) ← mg_iobuf_resize granted io new_size
      pure (io, if new_size ≠ io.size then 0 else buf.length)
    else pure (io, buf.length)
  let block ← if ofs < io.len then memmove io.buf (ofs + len) ofs (io.len - ofs) else pure io.buf
  let block ← memcpy block ofs buf len
  return ({ io with buf := block, len := (if ofs > io.len then ofs else io.len) + len }, len)

/-- The sums and differences are of type `size_t`. -/
def mg_iobuf_del (io : MgIobuf) (ofs len : Nat) : Option (MgIobuf × Nat) := do
  let ofs := if ofs > io.len then io.len else ofs
  let len := if (ofs + len) % 2 ^ 64 > io.len then io.len - ofs else len
  let block ← memmove io.buf ofs ((ofs + len) % 2 ^ 64) (size_sub (io.len - ofs) len)
  let block ← zeromem block (size_sub io.len len) len
  return ({ io with buf := block, len := size_sub io.len len }, len)

/-- The part of `mg_send` that puts the bytes into `c->send`. -/
def mg_send (granted : Bool) (io : MgIobuf) (buf : Bytes) : Option (MgIobuf × Nat) :=
  mg_iobuf_add granted io io.len buf MG_IO_SIZE

/-- `read_conn`: `data` is what `recv` has. The result is -1 if the buffer is full or cannot be made larger. -/
def read_conn (granted : Bool) (io : MgIobuf) (data : Bytes) : Option (MgIobuf × Int) := do
  if io.len ≥ MgConnection.MG_MAX_RECV_BUF_SIZE then return (io, -1)
  else
    let (io, ok) ←
      if io.size - io.len < MG_IO_SIZE then mg_iobuf_resize granted io (io.size + MG_IO_SIZE) else pure (io, true)
    if !ok then return (io, -1)
    else
      let n := min data.length (io.size - io.len)
      let block ← memcpy io.buf io.len data n
      return ({ io with buf := block, len := io.len + n }, n)

end MgIobuf

/-- What is done with a buffer. No caller takes out a part whose end a `size_t` does not hold. -/
inductive IobufCall where
  | recv (granted : Bool) (data : Bytes)
  | send (granted : Bool) (buf : Bytes)
  | del (ofs len : Nat) (fits : ofs + len < 2 ^ 64)
  | free
deriving DecidableEq, Repr

namespace IobufCall

def perform (io : MgIobuf) : IobufCall → Option (MgIobuf × Int)
  | .recv granted data => io.read_conn granted data
  | .send granted buf => (io.mg_send granted buf).map fun r => (r.1, r.2)
  | .del ofs len _ => (io.mg_iobuf_del ofs len).map fun r => (r.1, r.2)
  | .free => (io.mg_iobuf_resize true 0).map fun r => (r.1, 0)

/-- What a call that returns `n` does to a byte string. -/
def effect (xs : Bytes) (n : Int) : IobufCall → Bytes
  | .recv _ data => xs ++ data.take n.toNat
  | .send _ buf => xs ++ buf.take n.toNat
  | .del ofs len _ => mg_iobuf_del xs ofs len
  | .free => []

/-- What a call may return if the buffer has `xs`. -/
def Answer (xs : Bytes) (n : Int) : IobufCall → Prop
  | .recv granted data =>
    (n = -1 ∧ (granted = false ∨ MgConnection.MG_MAX_RECV_BUF_SIZE ≤ xs.length)) ∨
      ((min data.length MG_IO_SIZE : Nat) ≤ n ∧ n ≤ data.length)
  | .send granted buf => n = buf.length ∨ (granted = false ∧ n = 0)
  | .del ofs len _ => n = (min len (xs.length - ofs) : Nat)
  | .free => n = 0

end IobufCall

/-- A byte string on which the calls are made, with these results, is `ys` in the end. -/
def Leads (xs : Bytes) : List (IobufCall × Int) → Bytes → Prop
  | [], ys => ys = xs
  | (call, n) :: rs, ys => call.Answer xs n ∧ Leads (call.effect xs n) rs ys

/-! ## Copies -/

theorem splice_middle (a : Bytes) {b b' : Bytes} (c : Bytes) (h : b'.length = b.length) :
    splice (a ++ b ++ c) a.length b' = a ++ b' ++ c := by
  have hle : a.length + b'.length ≤ (a ++ b ++ c).length := by
    simp only [List.length_append]
    omega
  have htake : (a ++ b ++ c).take a.length = a := by rw [List.append_assoc, List.take_left]
  have hdrop : (a ++ b ++ c).drop (a.length + b'.length) = c := by
    rw [h, ← List.length_append, List.drop_left]
  rw [splice_eq _ _ _ hle, htake, hdrop]

/-- A copy changes the part it covers. -/
theorem memcpy_middle (a : Bytes) {b src : Bytes} (c : Bytes) {n : Nat} (hn : n ≤ src.length) (hb : b.length = n) :
    memcpy (a ++ b ++ c) a.length src n = some (a ++ src.take n ++ c) := by
  have hinside : a.length + n ≤ (a ++ b ++ c).length ∧ n ≤ src.length := by
    simp only [List.length_append]
    omega
  rw [memcpy, if_pos hinside, splice_middle a c]
  rw [List.length_take, hb]
  omega

theorem zeromem_middle (a b c : Bytes) :
    zeromem (a ++ b ++ c) a.length b.length = some (a ++ List.replicate b.length 0 ++ c) := by
  rw [zeromem, memcpy_middle a c (List.length_replicate ▸ Nat.le_refl _) rfl, List.take_replicate, Nat.min_self]

theorem zeromem_all (block : Bytes) : zeromem block 0 block.length = some (List.replicate block.length 0) := by
  have h := zeromem_middle [] block []
  rwa [List.append_nil, List.append_nil] at h

/-- What is behind a gap is moved into it. -/
theorem memmove_back (pre gap post : Bytes) (room : Bytes) :
    ∃ rest, rest.length = gap.length ∧
      memmove (pre ++ gap ++ post ++ room) pre.length (pre.length + gap.length) post.length =
        some (pre ++ post ++ rest ++ room) := by
  have hdrop : (pre ++ gap ++ post ++ room).drop (pre.length + gap.length) = post ++ room := by
    rw [← List.length_append, List.append_assoc (pre ++ gap), List.drop_left]
  have hsplit : pre ++ gap ++ post ++ room =
      pre ++ (gap ++ post).take post.length ++ ((gap ++ post).drop post.length ++ room) := by
    calc pre ++ gap ++ post ++ room
        = pre ++ (gap ++ post) ++ room := by rw [List.append_assoc pre]
      _ = pre ++ ((gap ++ post).take post.length ++ (gap ++ post).drop post.length) ++ room := by
          rw [List.take_append_drop]
      _ = pre ++ (gap ++ post).take post.length ++ ((gap ++ post).drop post.length ++ room) := by
          simp only [List.append_assoc]
  refine ⟨(gap ++ post).drop post.length, ?_, ?_⟩
  · rw [List.length_drop, List.length_append]
    omega
  · have hle : pre.length + gap.length ≤ (pre ++ gap ++ post ++ room).length := by
      simp only [List.length_append]
      omega
    rw [memmove, if_pos hle, hdrop, hsplit, memcpy_middle pre _ (by rw [List.length_append]; omega)
      (by rw [List.length_take, List.length_append]; omega), List.take_left, ← List.append_assoc]

namespace MgIobuf

/-- The calls, one after the other, with what they return. -/
def run (io : MgIobuf) : List IobufCall → Option (MgIobuf × List (IobufCall × Int))
  | [] => some (io, [])
  | call :: calls => do
    let (io, n) ← call.perform io
    let (io, rs) ← run io calls
    return (io, (call, n) :: rs)

/-! ## What is in the memory -/

/-- The buffer has `xs`. Behind it the block is zero, and so are the blocks that have been given back. -/
structure Stores (io : MgIobuf) (xs : Bytes) : Prop where
  len : io.len = xs.length
  buf : ∃ room, io.buf = xs ++ List.replicate room 0
  wiped : ∀ block ∈ io.freed, ∀ b ∈ block, b = 0

variable {io : MgIobuf} {xs : Bytes}

theorem Stores.room_le (h : Stores io xs) : xs.length ≤ io.size := by
  obtain ⟨room, hbuf⟩ := h.buf
  rw [size, hbuf, List.length_append]
  exact Nat.le_add_right _ _

theorem Stores.wipe (h : Stores io xs) (n : Nat) :
    ∀ block ∈ io.freed ++ [List.replicate n 0], ∀ b ∈ block, b = 0 := by
  intro block hblock
  rcases List.mem_append.1 hblock with hold | hnew
  · exact h.wiped block hold
  · rw [List.mem_singleton.1 hnew]
    exact fun b hb => List.eq_of_mem_replicate hb

/-- The memory is given back. -/
theorem Stores.free (h : Stores io xs) (granted : Bool) :
    ∃ io', io.mg_iobuf_resize granted 0 = some (io', true) ∧ Stores io' [] := by
  refine ⟨{ buf := [], len := 0, freed := io.freed ++ [List.replicate io.size 0] }, ?_, rfl, ⟨0, rfl⟩, h.wipe _⟩
  rw [mg_iobuf_resize, if_pos rfl, size, zeromem_all]
  rfl

/-- A larger block has the same contents. -/
theorem Stores.resize (h : Stores io xs) (granted : Bool) {new_size : Nat} (hsize : io.size < new_size) :
    ∃ io', io.mg_iobuf_resize granted new_size = some (io', granted) ∧ Stores io' xs ∧
      io'.size = if granted then new_size else io.size := by
  have hpos : new_size ≠ 0 := Nat.ne_zero_of_lt hsize
  obtain ⟨room, hbuf⟩ := h.buf
  have hlen := h.room_le
  rw [mg_iobuf_resize, if_neg hpos, if_pos (Nat.ne_of_gt hsize)]
  cases granted with
  | false => exact ⟨io, rfl, h, rfl⟩
  | true =>
    have hnew : List.replicate new_size (0 : UInt8) =
        [] ++ List.replicate xs.length 0 ++ List.replicate (new_size - xs.length) 0 := by
      rw [List.nil_append, List.replicate_append_replicate]
      congr 1
      omega
    have hcopy : memcpy (List.replicate new_size 0) 0 io.buf xs.length =
        some (xs ++ List.replicate (new_size - xs.length) 0) := by
      have hc := memcpy_middle [] (b := List.replicate xs.length 0) (List.replicate (new_size - xs.length) 0) hlen
        List.length_replicate
      rw [← hnew] at hc
      rw [show (0 : Nat) = ([] : Bytes).length from rfl, hc, hbuf, List.take_left, List.nil_append]
    rw [h.len, if_neg (Nat.not_lt.2 (Nat.le_of_lt (Nat.lt_of_le_of_lt hlen hsize))), if_pos rfl, hcopy, size,
      zeromem_all]
    refine ⟨_, rfl, ⟨rfl, ⟨_, rfl⟩, h.wipe _⟩, ?_⟩
    show (xs ++ _).length = new_size
    rw [List.length_append, List.length_replicate]
    omega

/-- Bytes are copied behind the contents. -/
theorem Stores.append (h : Stores io xs) {s : Bytes} {n : Nat} (hn : n ≤ s.length) (hroom : xs.length + n ≤ io.size) :
    ∃ block, memcpy io.buf io.len s n = some block ∧
      Stores { io with buf := block, len := io.len + n } (xs ++ s.take n) := by
  obtain ⟨room, hbuf⟩ := h.buf
  have hle : n ≤ room := by
    rw [size, hbuf, List.length_append, List.length_replicate] at hroom
    omega
  have hsplit : io.buf = xs ++ List.replicate n 0 ++ List.replicate (room - n) 0 := by
    rw [hbuf, List.append_assoc, List.replicate_append_replicate]
    congr 2
    omega
  have hlen : io.len + n = (xs ++ s.take n).length := by
    rw [h.len, List.length_append, List.length_take, Nat.min_eq_left hn]
  rw [h.len, hsplit, memcpy_middle xs _ hn List.length_replicate]
  exact ⟨_, rfl, h.len ▸ hlen, ⟨_, rfl⟩, h.wiped⟩

theorem round_up {n chunk_size : Nat} (hchunk : 0 < chunk_size) :
    n < n + chunk_size - (n + chunk_size) % chunk_size := by
  have hlt := Nat.mod_lt (n + chunk_size) hchunk
  omega

/-! ## The calls -/

/-- All the bytes are put behind the contents, or none, if there is no memory. -/
theorem Stores.mg_send (h : Stores io xs) (granted : Bool) (buf : Bytes) :
    ∃ io' n, io.mg_send granted buf = some (io', n) ∧ Stores io' (xs ++ buf.take n) ∧
      (n = buf.length ∨ (granted = false ∧ n = 0)) := by
  rw [MgIobuf.mg_send, mg_iobuf_add]
  by_cases hfit : io.len + buf.length > io.size
  · rw [if_pos hfit]
    have hlarger := round_up (n := io.len + buf.length) (show 0 < MG_IO_SIZE by decide)
    obtain ⟨io', hresize, h', hsize⟩ := h.resize granted (Nat.lt_trans hfit hlarger)
    have hlen : io'.len = io.len := h'.len.trans h.len.symm
    simp only [hresize, Option.bind_eq_bind, Option.bind_some, Option.pure_def, hlen, Nat.lt_irrefl, gt_iff_lt,
      if_false]
    rw [hsize]
    cases granted with
    | true =>
      rw [if_pos rfl] at hsize ⊢
      have hroom : xs.length + buf.length ≤ io'.size := by
        rw [hsize, ← h.len]
        exact Nat.le_of_lt hlarger
      obtain ⟨block, hcopy, hstores⟩ := h'.append (Nat.le_refl buf.length) hroom
      rw [if_neg (not_not_intro rfl), ← hlen, hcopy]
      exact ⟨_, _, rfl, hstores, .inl rfl⟩
    | false =>
      have hne := Nat.ne_of_gt (Nat.lt_trans hfit hlarger)
      obtain ⟨block, hcopy, hstores⟩ := h'.append (Nat.zero_le buf.length) (h'.room_le)
      rw [if_neg Bool.false_ne_true, if_pos hne, ← hlen, hcopy]
      exact ⟨_, _, rfl, hstores, .inr ⟨rfl, rfl⟩⟩
  · rw [if_neg hfit]
    obtain ⟨block, hcopy, hstores⟩ := h.append (Nat.le_refl buf.length) (h.len ▸ Nat.not_lt.1 hfit)
    simp only [pure_bind, Nat.lt_irrefl, gt_iff_lt, if_false]
    rw [hcopy]
    exact ⟨_, _, rfl, hstores, .inl rfl⟩

/-- The bytes are taken out, and the end of the contents is wiped. -/
theorem Stores.mg_iobuf_del (h : Stores io xs) {ofs len : Nat} (hfits : ofs + len < 2 ^ 64) :
    ∃ io', io.mg_iobuf_del ofs len = some (io', min len (xs.length - ofs)) ∧
      Stores io' (RtcClient.mg_iobuf_del xs ofs len) := by
  obtain ⟨room, hbuf⟩ := h.buf
  have hofs : (if ofs > io.len then io.len else ofs) = min ofs xs.length := by
    rw [h.len]
    split <;> omega
  have hn : (if (min ofs xs.length + len) % 2 ^ 64 > io.len then io.len - min ofs xs.length else len) =
      min len (xs.length - ofs) := by
    rw [h.len, Nat.mod_eq_of_lt (by omega)]
    split <;> omega
  generalize hpre : xs.take ofs = pre
  generalize hgap : (xs.drop ofs).take len = gap
  generalize hpost : xs.drop (ofs + len) = post
  have hxs : xs = pre ++ gap ++ post := by
    rw [← hpre, ← hgap, ← hpost, List.append_assoc, ← List.drop_drop, List.take_append_drop, List.take_append_drop]
  have hprelen : min ofs xs.length = pre.length := by rw [← hpre, List.length_take]
  have hgaplen : min len (xs.length - ofs) = gap.length := by rw [← hgap, List.length_take, List.length_drop]
  have hlen : io.len = pre.length + gap.length + post.length := by
    rw [h.len, hxs, List.length_append, List.length_append]
  have hsrc : (pre.length + gap.length) % 2 ^ 64 = pre.length + gap.length := Nat.mod_eq_of_lt (by omega)
  have hrest : size_sub (io.len - pre.length) gap.length = post.length := by
    rw [size_sub_eq (by omega)]
    omega
  have hend : size_sub io.len gap.length = (pre ++ post).length := by
    rw [size_sub_eq (by omega), List.length_append]
    omega
  obtain ⟨rest, hrestlen, hmove⟩ := memmove_back pre gap post (List.replicate room 0)
  have hzero := zeromem_middle (pre ++ post) rest (List.replicate room 0)
  rw [hrestlen, List.append_assoc _ (List.replicate _ _), List.replicate_append_replicate] at hzero
  refine ⟨{ io with
    buf := pre ++ post ++ List.replicate (gap.length + room) 0
    len := (pre ++ post).length }, ?_, ?_⟩
  · rw [MgIobuf.mg_iobuf_del, hofs]
    simp only [hn]
    rw [hgaplen, hprelen, hsrc, hrest, hend, hbuf, hxs, hmove]
    simp only [Option.bind_eq_bind, Option.bind_some, hzero]
    rfl
  · rw [RtcClient.mg_iobuf_del, hpre, hpost]
    exact ⟨rfl, ⟨_, rfl⟩, h.wiped⟩

/-- What is read is put behind the contents. There is room for `MG_IO_SIZE` bytes at least. -/
theorem Stores.read_conn (h : Stores io xs) (granted : Bool) (data : Bytes) :
    ∃ io' n, io.read_conn granted data = some (io', n) ∧ Stores io' (xs ++ data.take n.toNat) ∧
      (IobufCall.recv granted data).Answer xs n := by
  have hread (io' : MgIobuf) (h' : Stores io' xs) (hroom : xs.length + MG_IO_SIZE ≤ io'.size) :
      ∃ io'' n, (do
        let block ← memcpy io'.buf io'.len data (min data.length (io'.size - io'.len))
        return ({ io' with buf := block, len := io'.len + min data.length (io'.size - io'.len) },
          ((min data.length (io'.size - io'.len) : Nat) : Int))) = some (io'', n) ∧
        Stores io'' (xs ++ data.take n.toNat) ∧ (IobufCall.recv granted data).Answer xs n := by
    obtain ⟨block, hcopy, hstores⟩ := h'.append (s := data) (n := min data.length (io'.size - io'.len))
      (Nat.min_le_left _ _) (by rw [h'.len]; omega)
    rw [hcopy]
    refine ⟨_, _, rfl, hstores, .inr ?_⟩
    rw [h'.len]
    omega
  rw [MgIobuf.read_conn]
  split_ifs with hfull hroom
  · refine ⟨io, -1, rfl, ?_, .inl ⟨rfl, .inr (h.len ▸ hfull)⟩⟩
    simpa using h
  · obtain ⟨io', hresize, h', hsize⟩ := h.resize granted (Nat.lt_add_of_pos_right (show 0 < MG_IO_SIZE by decide))
    cases granted with
    | true =>
      simp only [hresize, Option.bind_eq_bind, Option.bind_some]
      exact hread io' h' (by rw [hsize, if_pos rfl]; exact Nat.add_le_add_right h.room_le _)
    | false =>
      simp only [hresize, Option.bind_eq_bind, Option.bind_some]
      refine ⟨io', -1, rfl, ?_, .inl ⟨rfl, .inl rfl⟩⟩
      simpa using h'
  · have hle : xs.length + MG_IO_SIZE ≤ io.size := by
      rw [h.len] at hroom
      have hlen := h.room_le
      omega
    simp only [pure_bind]
    exact hread io h hle

/-- Each call succeeds, returns what it may return, and leaves what the byte string has after it. -/
theorem Stores.perform (h : Stores io xs) (call : IobufCall) :
    ∃ io' n, call.perform io = some (io', n) ∧ Stores io' (call.effect xs n) ∧ call.Answer xs n := by
  cases call with
  | recv granted data => exact h.read_conn granted data
  | send granted buf =>
    obtain ⟨io', n, hsend, h', hn⟩ := h.mg_send granted buf
    refine ⟨io', n, ?_, h', ?_⟩
    · rw [IobufCall.perform, hsend]
      rfl
    · exact hn.imp (congrArg Nat.cast) (And.imp_right (congrArg Nat.cast))
  | del ofs len hfits =>
    obtain ⟨io', hdel, h'⟩ := h.mg_iobuf_del hfits
    refine ⟨io', _, ?_, h', rfl⟩
    rw [IobufCall.perform, hdel]
    rfl
  | free =>
    obtain ⟨io', hfree, h'⟩ := h.free true
    refine ⟨io', 0, ?_, h', rfl⟩
    rw [IobufCall.perform, hfree]
    rfl

theorem Stores.run (h : Stores io xs) (calls : List IobufCall) :
    ∃ io' rs ys, io.run calls = some (io', rs) ∧ rs.map Prod.fst = calls ∧ Leads xs rs ys ∧ Stores io' ys := by
  induction calls generalizing io xs with
  | nil => exact ⟨io, [], xs, rfl, rfl, rfl, h⟩
  | cons call calls ih =>
    obtain ⟨io', n, hperform, h', hanswer⟩ := h.perform call
    obtain ⟨io'', rs, ys, hrun, hcalls, hleads, h''⟩ := ih h'
    refine ⟨io'', (call, n) :: rs, ys, ?_, ?_, ⟨hanswer, hleads⟩, h''⟩
    · rw [MgIobuf.run, hperform]
      simp only [Option.bind_eq_bind, Option.bind_some, hrun]
      rfl
    · rw [List.map_cons, hcalls]

end MgIobuf

/-- Whatever is done with a buffer, and whether there is memory for it or not, all accesses are inside its block. It
has what a byte string has after the same calls with the same results; the rest of the block is zero, and so is each
block that has been given back. -/
theorem iobuf_refines (calls : List IobufCall) :
    ∃ io rs ys, MgIobuf.run {} calls = some (io, rs) ∧ rs.map Prod.fst = calls ∧ Leads [] rs ys ∧
      io.buf.take io.len = ys ∧ (∀ b ∈ io.buf.drop io.len, b = 0) ∧ ∀ block ∈ io.freed, ∀ b ∈ block, b = 0 := by
  have hempty : MgIobuf.Stores {} [] := ⟨rfl, ⟨0, rfl⟩, fun block hblock => nomatch hblock⟩
  obtain ⟨io, rs, ys, hrun, hcalls, hleads, h⟩ := hempty.run calls
  obtain ⟨room, hbuf⟩ := h.buf
  refine ⟨io, rs, ys, hrun, hcalls, hleads, ?_, ?_, h.wiped⟩
  · rw [h.len, hbuf, List.take_left]
  · rw [h.len, hbuf, List.drop_left]
    exact fun b hb => List.eq_of_mem_replicate hb

end RtcClient
