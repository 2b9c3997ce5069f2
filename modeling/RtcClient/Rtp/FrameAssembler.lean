import RtcClient.Rtp.SessionReceiver
/-!
# Reassembling H.264 frames

`push_packet` writes the NAL units of a packet, each behind a start code, into
the assembler's buffer. A single NAL unit or a STAP-A packet replaces what the
buffer held; FU-A fragments are collected until the one with the end bit.
-/

namespace RtcClient

open Lib

def ASSEMBLER_BUFFER_SIZE : Nat := 1024 * 256

def START_CODE : Bytes := [0, 0, 0, 1]

def SHORT_START_CODE : Bytes := [0, 0, 1]

structure RTPH264FrameAssembler where
  m_initialize : Bool := false
  m_buffer : Bytes := []
  m_buffer_used_len : Nat := 0
  /-- Offset and length of every copy so far. The code keeps no such log. -/
  copies : List (Nat × Nat) := []
deriving DecidableEq, Repr

namespace RTPH264FrameAssembler

/-- `memory` is what the new buffer happens to hold. -/
def init (a : RTPH264FrameAssembler) (memory : Block ASSEMBLER_BUFFER_SIZE) : RTPH264FrameAssembler :=
  if a.m_initialize then a else { a with m_buffer := memory.bytes, m_initialize := true }

/-- `memcpy(m_buffer + off, bs, bs.length)`. -/
def copy (a : RTPH264FrameAssembler) (off : Nat) (bs : Bytes) : RTPH264FrameAssembler :=
  { a with m_buffer := splice a.m_buffer off bs, copies := a.copies ++ [(off, bs.length)] }

/-- Copy behind the used part, which then includes the copy. -/
def append (a : RTPH264FrameAssembler) (bs : Bytes) : RTPH264FrameAssembler :=
  { a.copy a.m_buffer_used_len bs with m_buffer_used_len := (a.m_buffer_used_len + bs.length) % 2 ^ 64 }

/-- The start code chosen for the bytes from offset `i` on. -/
def start_code (b : Buffer) (i : Nat) : Bytes :=
  if b.get i = 0x65 ∨ ((b.get i = 0x61 ∨ b.get i = 0x41) ∧ b.get (i + 1) &&& 0x80 = 0) then SHORT_START_CODE
  else START_CODE

/-- The branch of `push_packet` for a single NAL unit. -/
def single_nalu (a : RTPH264FrameAssembler) (payload : Buffer) (payloadLen : Nat) : RTPH264FrameAssembler × Bool :=
  let code := start_code payload 0
  if (payloadLen + code.length) % 2 ^ 64 > ASSEMBLER_BUFFER_SIZE then ({ a with m_buffer_used_len := 0 }, false)
  else
    let a := { a with m_buffer_used_len := (payloadLen + code.length) % 2 ^ 64 }
    ((a.copy 0 code).copy code.length (payload.read 0 payloadLen), true)

/-- The loop of `get_stapa_frame` and the check behind it. -/
def stapa_loop (a : RTPH264FrameAssembler) (data : Buffer) (src : Nat) (srcLen : Int) :
    RTPH264FrameAssembler × Bool :=
  if srcLen > 2 then
    let nalSize := data.get16 src
    if nalSize ≤ srcLen - 2 then
      stapa_loop ((a.append (start_code data (src + 2))).append (data.read (src + 2) nalSize)) data
        (src + 2 + nalSize) (srcLen - 2 - nalSize)
    else ({ a with m_buffer_used_len := 0 }, false)
  else if a.m_buffer_used_len > ASSEMBLER_BUFFER_SIZE then ({ a with m_buffer_used_len := 0 }, false)
  else (a, true)
termination_by srcLen.toNat

/-- The length is converted to `int`. -/
def get_stapa_frame (a : RTPH264FrameAssembler) (data : Buffer) (len : Nat) : RTPH264FrameAssembler × Bool :=
  stapa_loop { a with m_buffer_used_len := 0 } data 0 (int32 len)

def get_fua_frame (a : RTPH264FrameAssembler) (data : Buffer) (len : Nat) : RTPH264FrameAssembler × Bool :=
  if len < 3 ∨ len > ASSEMBLER_BUFFER_SIZE then ({ a with m_buffer_used_len := 0 }, false)
  else
    let fuIndicator := data.get 0
    let fuHeader := data.get 1
    let startbit := fuHeader >>> 7
    let endbit := fuHeader &&& 0x40
    let nalType := fuHeader &&& 0x1f
    let nal := (fuIndicator &&& 0xe0) ||| nalType
    let body := data.read 2 (len - 2)
    if startbit ≠ 0 then
      -- The start code depends on the first bytes of the body, not on `nal`.
      let code := start_code data 2
      let a := { a with m_buffer_used_len := code.length + 1 + (len - 2) }
      (((a.copy 0 code).copy code.length [nal]).copy (code.length + 1) body, false)
    else if endbit ≠ 0 then (a.append body, true)
    else (a.append body, false)

def push_packet (a : RTPH264FrameAssembler) (packet : RTPPacket) : RTPH264FrameAssembler × Bool :=
  if !a.m_initialize then (a, false)
  else
    let payload := packet.m_payload
    let payloadLen := packet.m_payload_len
    if payloadLen = 0 then (a, false)
    else
      let nal := payload.get 0
      let type := nal &&& 0x1F
      let type := if 1 ≤ type ∧ type ≤ 23 then 1 else type
      if type = 0 ∨ type = 1 then a.single_nalu payload payloadLen
      else if type = 24 then a.get_stapa_frame (payload.advance 1) (payloadLen - 1)
      else if type = 28 then a.get_fua_frame payload payloadLen
      else (a, false)

/-- The bytes `get_frame_data` and `get_frame_length` show. -/
def frame (a : RTPH264FrameAssembler) : Bytes := a.m_buffer.take a.m_buffer_used_len

end RTPH264FrameAssembler

/-! ## What a packet is to the assembler -/

namespace RTPPacket

/-- The branches of `push_packet`. -/
inductive Kind where
  | empty
  | single
  | stapA
  | malformed
  | first
  | middle
  | last
  | unknown
deriving DecidableEq, Repr

/-- The branch a packet takes. FU-A packets are fragments unless their length is out of range. -/
def kind (p : RTPPacket) : Kind :=
  let type := p.m_payload.get 0 &&& 0x1F
  if p.m_payload_len = 0 then .empty
  else if type ≤ 23 then .single
  else if type = 24 then .stapA
  else if type = 28 then
    if p.m_payload_len < 3 ∨ p.m_payload_len > ASSEMBLER_BUFFER_SIZE then .malformed
    else if p.m_payload.get 1 >>> 7 ≠ 0 then .first
    else if p.m_payload.get 1 &&& 0x40 ≠ 0 then .last
    else .middle
  else .unknown

/-- A fragment's part of its NAL unit. -/
def body (p : RTPPacket) : Bytes := p.m_payload.read 2 (p.m_payload_len - 2)

/-- The header of the NAL unit a fragment belongs to. -/
def nalHeader (p : RTPPacket) : UInt8 := (p.m_payload.get 0 &&& 0xe0) ||| (p.m_payload.get 1 &&& 0x1f)

/-- What the buffer holds after a first fragment: start code, header and body. -/
def opening (p : RTPPacket) : Bytes :=
  RTPH264FrameAssembler.start_code p.m_payload 2 ++ [p.nalHeader] ++ p.body

@[simp] theorem body_length (p : RTPPacket) : p.body.length = p.m_payload_len - 2 := by simp [body]

end RTPPacket

namespace RTPH264FrameAssembler

theorem start_code_length (b : Buffer) (i : Nat) : (start_code b i).length = 3 ∨ (start_code b i).length = 4 := by
  unfold start_code
  split
  · exact .inl rfl
  · exact .inr rfl

/-- Where a first fragment is copied to. -/
def openAt (a : RTPH264FrameAssembler) (p : RTPPacket) : RTPH264FrameAssembler :=
  let code := start_code p.m_payload 2
  ((({ a with m_buffer_used_len := code.length + 1 + (p.m_payload_len - 2) }).copy 0 code).copy
    code.length [p.nalHeader]).copy (code.length + 1) p.body

/-- What a push does, by the kind of the packet. -/
theorem push_eq {a : RTPH264FrameAssembler} (ha : a.m_initialize = true) (p : RTPPacket) :
    a.push_packet p =
      match p.kind with
      | .empty => (a, false)
      | .single => a.single_nalu p.m_payload p.m_payload_len
      | .stapA => a.get_stapa_frame (p.m_payload.advance 1) (p.m_payload_len - 1)
      | .malformed => ({ a with m_buffer_used_len := 0 }, false)
      | .first => (a.openAt p, false)
      | .middle => (a.append p.body, false)
      | .last => (a.append p.body, true)
      | .unknown => (a, false) := by
  simp only [push_packet, RTPPacket.kind, ha]
  generalize p.m_payload.get 0 &&& 0x1F = type
  by_cases h0 : p.m_payload_len = 0
  · simp [h0]
  simp only [h0, if_false, Bool.not_true, Bool.false_eq_true]
  by_cases hs : type ≤ 23
  · have h1 : (if 1 ≤ type ∧ type ≤ 23 then 1 else type) = 0 ∨ (if 1 ≤ type ∧ type ≤ 23 then 1 else type) = 1 := by
      by_cases h : 1 ≤ type
      · exact .inr (if_pos ⟨h, hs⟩)
      · have : type = 0 := by rw [← UInt8.toNat_inj]; simp only [UInt8.le_iff_toNat_le] at h; simp at h ⊢; omega
        simp [this]
    simp only [if_pos h1, if_pos hs]
  · have h1 : (if 1 ≤ type ∧ type ≤ 23 then 1 else type) = type := if_neg (fun h => hs h.2)
    have h2 : ¬ (type = 0 ∨ type = 1) := by
      rintro (rfl | rfl)
      · exact hs (by decide)
      · exact hs (by decide)
    rw [h1]
    simp only [h2, hs, if_false]
    by_cases h24 : type = 24
    · simp [h24]
    by_cases h28 : type = 28
    · simp only [h28, get_fua_frame, openAt, RTPPacket.nalHeader, RTPPacket.body]
      split_ifs <;> first | rfl | simp_all
    · simp [h24, h28]

/-! ## Runs -/

/-- An assembler `initialize` has set up. -/
def started (memory : Block ASSEMBLER_BUFFER_SIZE) : RTPH264FrameAssembler := init {} memory

/-- The assembler after the packets. -/
def after (memory : Block ASSEMBLER_BUFFER_SIZE) (packets : List RTPPacket) : RTPH264FrameAssembler :=
  final push_packet (started memory) packets

/-- What every push keeps: the buffer is there and keeps its size. -/
structure Ready (a : RTPH264FrameAssembler) : Prop where
  init : a.m_initialize = true
  size : a.m_buffer.length = ASSEMBLER_BUFFER_SIZE

theorem started_ready (memory : Block ASSEMBLER_BUFFER_SIZE) : Ready (started memory) := ⟨rfl, memory.size⟩

section
variable {a : RTPH264FrameAssembler}

theorem Ready.copy (h : Ready a) (off : Nat) (bs : Bytes) : Ready (a.copy off bs) :=
  ⟨h.init, by simp [RTPH264FrameAssembler.copy, h.size]⟩

theorem Ready.used (h : Ready a) (n : Nat) : Ready { a with m_buffer_used_len := n } := ⟨h.init, h.size⟩

theorem Ready.append (h : Ready a) (bs : Bytes) : Ready (a.append bs) := (h.copy _ bs).used _

theorem stapa_loop_ready (data : Buffer) (src : Nat) (srcLen : Int) :
    ∀ a : RTPH264FrameAssembler, Ready a → Ready (a.stapa_loop data src srcLen).1 := by
  intro a h
  fun_induction stapa_loop a data src srcLen with
  | case1 a src srcLen hgt nalSize hle ih => exact ih ((h.append _).append _)
  | case2 => exact h.used 0
  | case3 => exact h.used 0
  | case4 => exact h

theorem push_ready (h : Ready a) (p : RTPPacket) : Ready (a.push_packet p).1 := by
  rw [push_eq h.init]
  cases p.kind with
  | empty => exact h
  | single =>
    simp only [single_nalu]
    split
    · exact h.used 0
    · exact ((h.used _).copy _ _).copy _ _
  | stapA => exact stapa_loop_ready _ _ _ _ (h.used 0)
  | malformed => exact h.used 0
  | first => exact (((h.used _).copy _ _).copy _ _).copy _ _
  | middle => exact h.append _
  | last => exact h.append _
  | unknown => exact h

theorem after_ready (memory : Block ASSEMBLER_BUFFER_SIZE) (packets : List RTPPacket) : Ready (after memory packets) :=
  final_rule push_packet Ready (fun _ p h => push_ready h p) (started_ready memory) packets

end

end RTPH264FrameAssembler

end RtcClient
