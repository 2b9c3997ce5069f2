import Mathlib.Data.List.GetD
import RtcClient.Lib.Bytes
import RtcClient.Lib.Framing
/-!
# WebSocket frames

`ws_process` finds the first frame of a buffer and takes its mask off in place;
`mkhdr` writes the header of a frame. A frame is found exactly when it has come as
a whole, whatever comes behind it (`framing`), and is read as it was written
(`framing_frame`).
-/

namespace RtcClient

open Lib

/-- `struct ws_msg`. -/
structure WsMsg where
  flags : UInt8 := 0
  header_len : Nat := 0
  data_len : Nat := 0
deriving DecidableEq, Repr

/-- The masking loops: each byte against one of the four bytes of the mask. -/
def ws_xor (mask bs : Bytes) : Bytes := bs.mapIdx (fun i x => x ^^^ mask.getD (i % 4) 0)

/-- What `ws_process` reads of the header, and `mask_len`. -/
def ws_header (buf : Bytes) : WsMsg × Nat :=
  if 2 ≤ buf.length then
    let n := (buf.getD 1 0 &&& 0x7f).toNat
    let mask_len := if buf.getD 1 0 &&& 128 ≠ 0 then 4 else 0
    if n < 126 ∧ mask_len ≤ buf.length then (⟨buf.getD 0 0, 2 + mask_len, n⟩, mask_len)
    else if n = 126 ∧ 4 + mask_len ≤ buf.length then
      (⟨buf.getD 0 0, 4 + mask_len, nat16 (buf.getD 2 0) (buf.getD 3 0)⟩, mask_len)
    else if 10 + mask_len ≤ buf.length then
      (⟨buf.getD 0 0, 10 + mask_len,
        nat32 (buf.getD 2 0) (buf.getD 3 0) (buf.getD 4 0) (buf.getD 5 0) * 2 ^ 32 +
          nat32 (buf.getD 6 0) (buf.getD 7 0) (buf.getD 8 0) (buf.getD 9 0)⟩, mask_len)
    else (⟨buf.getD 0 0, 0, 0⟩, mask_len)
  else ({}, 0)

/-- The length of the first frame, 0 if it is not there as a whole; the buffer, in which
the mask has been taken off it; and its header. -/
def ws_process (buf : Bytes) : Nat × Bytes × WsMsg :=
  let (msg, mask_len) := ws_header buf
  if msg.data_len > 1024 * 1024 * 1024 then (0, buf, msg)
  else if msg.header_len + msg.data_len > buf.length then (0, buf, msg)
  else
    let mask := (buf.drop (msg.header_len - mask_len)).take mask_len
    let data := (buf.drop msg.header_len).take msg.data_len
    (msg.header_len + msg.data_len,
      if mask_len > 0 then
        buf.take msg.header_len ++ ws_xor mask data ++ buf.drop (msg.header_len + msg.data_len)
      else buf, msg)

/-- `mask` is what `mg_random` gives. -/
def mkhdr (len : Nat) (op : UInt8) (is_client : Bool) (mask : Block 4) : Bytes :=
  let bit : UInt8 := if is_client then 128 else 0
  let key := if is_client then mask.bytes else []
  if len < 126 then [op ||| 128, UInt8.ofNat len ||| bit] ++ key
  else if len < 65536 then [op ||| 128, 126 ||| bit] ++ be16 len ++ key
  else [op ||| 128, 127 ||| bit] ++ be32 (len / 2 ^ 32) ++ be32 (len % 2 ^ 32) ++ key

/-! ## The first frame of a stream -/

@[simp] theorem ws_xor_length (mask bs : Bytes) : (ws_xor mask bs).length = bs.length := by simp [ws_xor]

/-- Masking twice takes the mask off. -/
theorem ws_xor_twice (mask bs : Bytes) : ws_xor mask (ws_xor mask bs) = bs := by
  refine List.ext_getElem (by simp) ?_
  intro i h1 h2
  simp only [ws_xor, List.getElem_mapIdx, UInt8.xor_assoc, UInt8.xor_self, UInt8.xor_zero]

/-- Bytes that come behind do not change the header. -/
theorem ws_header_append {buf : Bytes} (h : 0 < (ws_header buf).1.header_len) (more : Bytes) :
    ws_header (buf ++ more) = ws_header buf := by
  have hlen : 2 ≤ buf.length := by
    by_contra hshort
    rw [ws_header, if_neg hshort] at h
    exact absurd h (Nat.lt_irrefl 0)
  have hget : ∀ i, i < buf.length → (buf ++ more).getD i 0 = buf.getD i 0 := by
    intro i hi
    rw [List.getD_append _ _ _ _ hi]
  have hlong : buf.length ≤ (buf ++ more).length := by simp
  unfold ws_header at h ⊢
  rw [if_pos hlen] at h ⊢
  rw [if_pos (Nat.le_trans hlen hlong), hget 0 (by omega), hget 1 (by omega)]
  generalize hn : (buf.getD 1 0 &&& 0x7f).toNat = n at h ⊢
  generalize hm : (if buf.getD 1 0 &&& 128 ≠ 0 then 4 else 0) = mask_len at h ⊢
  have hmask : mask_len ≤ 4 := by
    rw [← hm]
    split <;> omega
  simp only at h ⊢
  by_cases h1 : n < 126 ∧ mask_len ≤ buf.length
  · rw [if_pos h1, if_pos ⟨h1.1, Nat.le_trans h1.2 hlong⟩]
  by_cases h2 : n = 126 ∧ 4 + mask_len ≤ buf.length
  · rw [if_neg h1, if_neg (by omega), if_pos h2, if_pos ⟨h2.1, Nat.le_trans h2.2 hlong⟩, hget 2 (by omega),
      hget 3 (by omega)]
  by_cases h3 : 10 + mask_len ≤ buf.length
  · rw [if_neg h1, if_neg h2, if_pos h3, if_neg (by omega), if_neg (by omega), if_pos (Nat.le_trans h3 hlong)]
    simp only [hget 2 (by omega), hget 3 (by omega), hget 4 (by omega), hget 5 (by omega), hget 6 (by omega),
      hget 7 (by omega), hget 8 (by omega), hget 9 (by omega)]
  · rw [if_neg h1, if_neg h2, if_neg h3] at h
    exact absurd h (Nat.lt_irrefl 0)

/-- A header that is there has a length; one that is not promises nothing. -/
theorem ws_header_cases (buf : Bytes) :
    ((ws_header buf).1.header_len = 0 ∧ (ws_header buf).1.data_len = 0) ∨
      (ws_header buf).2 + 2 ≤ (ws_header buf).1.header_len := by
  unfold ws_header
  by_cases hlen : 2 ≤ buf.length
  · rw [if_pos hlen]
    simp only
    split_ifs
    all_goals first | exact .inl ⟨rfl, rfl⟩ | exact .inr (by simp only; omega)
  · rw [if_neg hlen]
    exact .inl ⟨rfl, rfl⟩

theorem ws_header_flags {buf : Bytes} (h : 2 ≤ buf.length) : (ws_header buf).1.flags = buf.getD 0 0 := by
  rw [ws_header, if_pos h]
  simp only
  split_ifs <;> rfl

/-- The payload of the first frame, without the mask. -/
def ws_payload (buf : Bytes) : Bytes :=
  let (msg, mask_len) := ws_header buf
  let data := (buf.drop msg.header_len).take msg.data_len
  if mask_len > 0 then ws_xor ((buf.drop (msg.header_len - mask_len)).take mask_len) data else data

/-- What `ws_process` does: nothing, or a frame is there and its payload is put in place. -/
theorem ws_process_cases (buf : Bytes) :
    ws_process buf = (0, buf, (ws_header buf).1) ∨
      ∃ msg, msg = (ws_header buf).1 ∧ 2 ≤ msg.header_len ∧ msg.data_len ≤ 2 ^ 30 ∧
        msg.header_len + msg.data_len ≤ buf.length ∧ (ws_payload buf).length = msg.data_len ∧
        ws_process buf = (msg.header_len + msg.data_len,
          buf.take msg.header_len ++ ws_payload buf ++ buf.drop (msg.header_len + msg.data_len), msg) := by
  have hcases := ws_header_cases buf
  unfold ws_process ws_payload
  rcases hheader : ws_header buf with ⟨msg, mask_len⟩
  rw [hheader] at hcases
  simp only at hcases ⊢
  by_cases hbig : msg.data_len > 1024 * 1024 * 1024
  · rw [if_pos hbig]
    exact .inl rfl
  by_cases hshort : msg.header_len + msg.data_len > buf.length
  · rw [if_neg hbig, if_pos hshort]
    exact .inl rfl
  rw [if_neg hbig, if_neg hshort]
  rcases hcases with ⟨h0, hd⟩ | hpos
  · left
    rw [h0, hd]
    simp [ws_xor]
  · right
    have hdata : ((buf.drop msg.header_len).take msg.data_len).length = msg.data_len := by
      rw [List.length_take, List.length_drop]
      omega
    refine ⟨msg, rfl, by omega, by omega, by omega, ?_, ?_⟩
    · split
      · rw [ws_xor_length, hdata]
      · exact hdata
    · by_cases hmask : mask_len > 0
      · rw [if_pos hmask, if_pos hmask]
      · rw [if_neg hmask, if_neg hmask, List.append_assoc, ← List.drop_drop, List.take_append_drop,
          List.take_append_drop]

/-- The payload does not change when more comes. -/
theorem ws_payload_append {buf : Bytes} (h2 : 2 ≤ (ws_header buf).1.header_len)
    (hlen : (ws_header buf).1.header_len + (ws_header buf).1.data_len ≤ buf.length) (more : Bytes) :
    ws_payload (buf ++ more) = ws_payload buf := by
  have hcases := ws_header_cases buf
  unfold ws_payload
  rw [ws_header_append (by omega)]
  rcases hheader : ws_header buf with ⟨msg, mask_len⟩
  rw [hheader] at h2 hlen hcases
  simp only at h2 hlen hcases ⊢
  have hdata : ((buf ++ more).drop msg.header_len).take msg.data_len = (buf.drop msg.header_len).take msg.data_len := by
    rw [List.drop_append_of_le_length (by omega), List.take_append_of_le_length (by rw [List.length_drop]; omega)]
  have hmask : ((buf ++ more).drop (msg.header_len - mask_len)).take mask_len =
      (buf.drop (msg.header_len - mask_len)).take mask_len := by
    rw [List.drop_append_of_le_length (by omega), List.take_append_of_le_length (by rw [List.length_drop]; omega)]
  rw [hdata, hmask]

/-- The first frame: its flags and its payload. -/
def ws_next (buf : Bytes) : Option ((UInt8 × Bytes) × Nat) :=
  let r := ws_process buf
  if r.1 = 0 then none else some ((r.2.2.flags, (r.2.1.drop r.2.2.header_len).take r.2.2.data_len), r.1)

theorem ws_next_some {buf : Bytes} {f : UInt8 × Bytes} {k : Nat} (h : ws_next buf = some (f, k)) :
    ∃ msg, msg = (ws_header buf).1 ∧ 2 ≤ msg.header_len ∧ msg.data_len ≤ 2 ^ 30 ∧ k = msg.header_len + msg.data_len ∧
      k ≤ buf.length ∧ f = (msg.flags, ws_payload buf) ∧ f.2.length = msg.data_len ∧
      ws_process buf = (k, buf.take msg.header_len ++ f.2 ++ buf.drop k, msg) := by
  rcases ws_process_cases buf with hnone | ⟨msg, hmsg, h2, hdata, hlen, hpayload, hprocess⟩
  · rw [ws_next, hnone] at h
    cases h
  · have hput : ((buf.take msg.header_len ++ ws_payload buf ++ buf.drop (msg.header_len + msg.data_len)).drop
        msg.header_len).take msg.data_len = ws_payload buf := by
      rw [List.append_assoc, List.drop_left' (by rw [List.length_take]; omega), List.take_left' hpayload]
    simp only [ws_next, hprocess, hput] at h
    rw [if_neg (by omega)] at h
    obtain ⟨rfl, rfl⟩ : (msg.flags, ws_payload buf) = f ∧ msg.header_len + msg.data_len = k := by simpa using h
    exact ⟨msg, hmsg, h2, hdata, rfl, hlen, rfl, hpayload, hprocess⟩

theorem ws_next_of_header {buf : Bytes} {msg : WsMsg} (hmsg : msg = (ws_header buf).1) (h2 : 2 ≤ msg.header_len)
    (hdata : msg.data_len ≤ 2 ^ 30) (hlen : msg.header_len + msg.data_len ≤ buf.length) :
    ws_next buf = some ((msg.flags, ws_payload buf), msg.header_len + msg.data_len) := by
  cases h : ws_next buf with
  | some r =>
    obtain ⟨msg', hmsg', -, -, hk, -, hf, -⟩ := ws_next_some (f := r.1) (k := r.2) h
    obtain rfl : msg' = msg := hmsg'.trans hmsg.symm
    rw [← hk, ← hf]
  | none =>
    -- The two ways to find nothing are excluded.
    exfalso
    have hfound : (ws_process buf).1 = msg.header_len + msg.data_len := by
      unfold ws_process
      rcases hheader : ws_header buf with ⟨m, mask_len⟩
      rw [hheader] at hmsg
      obtain rfl : msg = m := hmsg
      simp only
      rw [if_neg (by omega), if_neg (by omega)]
    simp only [ws_next, hfound] at h
    rw [if_neg (by omega)] at h
    cases h

/-- Frames are found one after the other, whatever comes behind them. -/
def ws_framing : Framing UInt8 (UInt8 × Bytes) where
  next := ws_next
  takes := by
    intro l f k h
    obtain ⟨msg, -, h2, -, hk, hlen, -⟩ := ws_next_some h
    exact ⟨by omega, hlen⟩
  stable := by
    intro l f k h more
    obtain ⟨msg, rfl, h2, hdata, rfl, hlen, rfl, -⟩ := ws_next_some h
    have hheader := (@ws_header_append l) (by omega) more
    have hnext := (@ws_next_of_header (l ++ more)) rfl (by rwa [hheader]) (by rwa [hheader])
      (by rw [hheader, List.length_append]; omega)
    rw [hheader, ws_payload_append h2 hlen] at hnext
    exact hnext

/-! ## Frames as they are written -/

/-- A frame: its flags, the mask of a client's frame, and the payload. -/
structure WsFrame where
  flags : UInt8
  mask : Option (Block 4)
  payload : Bytes

namespace WsFrame

def key (f : WsFrame) : Bytes := f.mask.elim [] Block.bytes

/-- The masking flag. -/
def bit (f : WsFrame) : UInt8 := if f.mask.isSome then 128 else 0

/-- The header up to the mask. -/
def head (f : WsFrame) : Bytes :=
  let len := f.payload.length
  if len < 126 then [f.flags, UInt8.ofNat len ||| f.bit]
  else if len < 65536 then [f.flags, 126 ||| f.bit] ++ be16 len
  else [f.flags, 127 ||| f.bit] ++ be32 (len / 2 ^ 32) ++ be32 (len % 2 ^ 32)

def data (f : WsFrame) : Bytes := f.mask.elim f.payload (fun m => ws_xor m.bytes f.payload)

def bytes (f : WsFrame) : Bytes := f.head ++ (f.key ++ f.data)

variable {f : WsFrame}

@[simp] theorem data_length (f : WsFrame) : f.data.length = f.payload.length := by
  unfold data
  cases f.mask <;> simp

theorem key_length (f : WsFrame) : f.key.length = if f.mask.isSome then 4 else 0 := by
  unfold key
  cases h : f.mask with
  | none => rfl
  | some m => simpa using m.size

/-- The second byte is the length, or says where it is, and whether there is a mask. -/
theorem second_byte {n : Nat} (hn : n < 128) (f : WsFrame) :
    ((UInt8.ofNat n ||| f.bit) &&& 0x7f).toNat = n ∧
      ((UInt8.ofNat n ||| f.bit) &&& 128 ≠ 0 ↔ f.mask.isSome = true) := by
  have h : ∀ n < 128, ∀ masked : Bool, ((UInt8.ofNat n ||| (if masked then 128 else 0)) &&& 0x7f).toNat = n ∧
      ((UInt8.ofNat n ||| (if masked then 128 else 0)) &&& 128 ≠ 0 ↔ masked = true) := by decide +kernel
  exact h n hn f.mask.isSome

/-- Whatever the header says after its second byte. -/
theorem ws_header_second (flags : UInt8) {n : Nat} (hn : n < 128) (f : WsFrame) (tail : Bytes) :
    ws_header (flags :: (UInt8.ofNat n ||| f.bit) :: tail) =
      if n < 126 ∧ f.key.length ≤ tail.length + 2 then (⟨flags, 2 + f.key.length, n⟩, f.key.length)
      else if n = 126 ∧ 4 + f.key.length ≤ tail.length + 2 then
        (⟨flags, 4 + f.key.length, nat16 (tail.getD 0 0) (tail.getD 1 0)⟩, f.key.length)
      else if 10 + f.key.length ≤ tail.length + 2 then
        (⟨flags, 10 + f.key.length, nat32 (tail.getD 0 0) (tail.getD 1 0) (tail.getD 2 0) (tail.getD 3 0) * 2 ^ 32 +
          nat32 (tail.getD 4 0) (tail.getD 5 0) (tail.getD 6 0) (tail.getD 7 0)⟩, f.key.length)
      else (⟨flags, 0, 0⟩, f.key.length) := by
  obtain ⟨hlen, hmask⟩ := second_byte hn f
  rw [ws_header, if_pos (by simp)]
  simp only [List.getD_cons_succ, List.getD_cons_zero, hlen, hmask, List.length_cons, ← f.key_length]

/-- The header is read as it was written. -/
theorem ws_header_head (f : WsFrame) (hlen : f.payload.length ≤ 2 ^ 30) (rest : Bytes)
    (hrest : f.key.length ≤ rest.length) :
    ws_header (f.head ++ rest) =
      (⟨f.flags, f.head.length + f.key.length, f.payload.length⟩, f.key.length) := by
  unfold head
  simp only
  by_cases h1 : f.payload.length < 126
  · rw [if_pos h1, List.cons_append, List.cons_append, List.nil_append,
      ws_header_second f.flags (Nat.lt_trans h1 (by decide)), if_pos ⟨h1, by omega⟩]
    rfl
  by_cases h2 : f.payload.length < 65536
  · have hsecond := ws_header_second f.flags (show 126 < 128 by decide) f (be16 f.payload.length ++ rest)
    rw [if_neg (by omega), if_pos ⟨rfl, by rw [List.length_append, be16_length]; omega⟩] at hsecond
    rw [if_neg h1, if_pos h2]
    refine hsecond.trans ?_
    have hvalue := nat16_be16 f.payload.length
    rw [Nat.mod_eq_of_lt h2] at hvalue
    exact congrArg (fun n => (WsMsg.mk f.flags (4 + f.key.length) n, f.key.length)) hvalue
  · have hsecond := ws_header_second f.flags (show 127 < 128 by decide) f
      (be32 (f.payload.length / 2 ^ 32) ++ be32 (f.payload.length % 2 ^ 32) ++ rest)
    rw [if_neg (by omega), if_neg (by omega),
      if_pos (by rw [List.length_append, List.length_append, be32_length, be32_length]; omega)] at hsecond
    rw [if_neg h1, if_neg h2]
    refine Eq.trans (congrArg ws_header (by simp only [List.append_assoc, List.cons_append, List.nil_append]; rfl))
      (hsecond.trans ?_)
    have hhigh := nat32_be32 (f.payload.length / 2 ^ 32)
    have hlow := nat32_be32 (f.payload.length % 2 ^ 32)
    have hvalue : nat32 (UInt8.ofNat (f.payload.length / 2 ^ 32 / 16777216))
          (UInt8.ofNat (f.payload.length / 2 ^ 32 / 65536)) (UInt8.ofNat (f.payload.length / 2 ^ 32 / 256))
          (UInt8.ofNat (f.payload.length / 2 ^ 32)) * 2 ^ 32 +
        nat32 (UInt8.ofNat (f.payload.length % 2 ^ 32 / 16777216))
          (UInt8.ofNat (f.payload.length % 2 ^ 32 / 65536)) (UInt8.ofNat (f.payload.length % 2 ^ 32 / 256))
          (UInt8.ofNat (f.payload.length % 2 ^ 32)) = f.payload.length := by
      rw [hhigh, hlow]
      omega
    exact congrArg (fun n => (WsMsg.mk f.flags (10 + f.key.length) n, f.key.length)) hvalue

/-- A frame of at most 2^30 bytes is found, with its payload, whatever comes behind it. -/
theorem next_bytes (f : WsFrame) (hlen : f.payload.length ≤ 2 ^ 30) (more : Bytes) :
    ws_next (f.bytes ++ more) = some ((f.flags, f.payload), f.bytes.length) := by
  have hbytes : f.bytes ++ more = f.head ++ (f.key ++ (f.data ++ more)) := by
    rw [bytes, List.append_assoc, List.append_assoc]
  have hheader := f.ws_header_head hlen (f.key ++ (f.data ++ more)) (by rw [List.length_append]; omega)
  rw [← hbytes] at hheader
  have hhead : 2 ≤ f.head.length := by
    unfold head
    simp only
    split_ifs <;> simp
  have htotal : f.bytes.length = f.head.length + f.key.length + f.payload.length := by
    rw [bytes, List.length_append, List.length_append, data_length]
    omega
  have hnext := (@ws_next_of_header (f.bytes ++ more)) (congrArg Prod.fst hheader).symm (by simp only; omega) hlen
    (by rw [List.length_append]; simp only; omega)
  rw [hnext, htotal]
  have hpayload : ws_payload (f.bytes ++ more) = f.payload := by
    have hkey : ((f.bytes ++ more).drop (f.head.length + f.key.length - f.key.length)).take f.key.length = f.key := by
      rw [hbytes, Nat.add_sub_cancel, List.drop_left, List.take_left]
    have hdata : ((f.bytes ++ more).drop (f.head.length + f.key.length)).take f.payload.length = f.data := by
      rw [hbytes, ← List.drop_drop, List.drop_left, List.drop_left, ← f.data_length, List.take_left]
    unfold ws_payload
    simp only [hheader, hkey, hdata]
    unfold data key
    cases hm : f.mask with
    | none => rfl
    | some m =>
      have hsize : m.bytes.length > 0 := by rw [m.size]; decide
      exact (if_pos hsize).trans (ws_xor_twice m.bytes f.payload)
  rw [hpayload]

end WsFrame

/-- The header `mkhdr` writes is that of a frame with the first bit set. -/
theorem mkhdr_frame (payload : Bytes) (op : UInt8) (is_client : Bool) (mask : Block 4) :
    mkhdr payload.length op is_client mask =
      (WsFrame.mk (op ||| 128) (if is_client then some mask else none) payload).head ++
        (WsFrame.mk (op ||| 128) (if is_client then some mask else none) payload).key := by
  unfold mkhdr WsFrame.head WsFrame.bit
  cases is_client <;> (simp only; split_ifs <;> simp [WsFrame.key] at *)

end RtcClient
