import RtcClient.Rtp.Packet
/-!
# What `parse` reads

`parse_reads` lists the offsets of the bytes `RTPPacket::parse` looks at; its result
depends on no others (`parse_congr`). The code trusts the datagram to be as long as its
header says. When it is, and only then, the reads and the payload lie inside it
(`inside_iff`).
-/

namespace RtcClient

open Lib

namespace RTPPacket

/-! ## Reads -/

/-- The padding count: the last byte, if the header announces padding. -/
def padding_count (buffer : Buffer) (bufferLen : Nat) : Nat :=
  if (RTPHeader.cast buffer).padding ≠ 0 then (buffer.get (bufferLen - 1)).toNat else 0

/-- Where the extension header is read. -/
def extension_offset (buffer : Buffer) : Nat := sizeofRTPHeader + (RTPHeader.cast buffer).csrcCount * 4

/-- Where the payload begins. -/
def payload_offset (buffer : Buffer) : Nat := extension_offset buffer + sizeofRTPExtensionHeader

/-- The checks `parse` makes before it reads the extension header. -/
def Reaches (buffer : Buffer) (bufferLen : Nat) : Prop :=
  sizeofRTPHeader < bufferLen ∧ (RTPHeader.cast buffer).version = 2 ∧
    ((RTPHeader.cast buffer).padding ≠ 0 → padding_count buffer bufferLen ≠ 0) ∧
    (RTPHeader.cast buffer).extension ≠ 0

instance (buffer : Buffer) (bufferLen : Nat) : Decidable (Reaches buffer bufferLen) := by
  unfold Reaches
  infer_instance

/-- The extension header at its offset. -/
def extension_header (buffer : Buffer) : RTPExtensionHeader :=
  RTPExtensionHeader.cast (buffer.advance (extension_offset buffer))

/-- The offsets `parse` reads: the header, the padding count, the identifier and the length of the extension, and
the rest of it when that length is right. -/
def parse_reads (buffer : Buffer) (bufferLen : Nat) : List Nat :=
  if bufferLen ≤ sizeofRTPHeader then []
  else if (RTPHeader.cast buffer).version ≠ 2 then [0]
  else
    List.range sizeofRTPHeader ++ (if (RTPHeader.cast buffer).padding ≠ 0 then [bufferLen - 1] else []) ++
      if Reaches buffer bufferLen then
        List.range' (extension_offset buffer) 4 ++
          if (extension_header buffer).length = 3 then List.range' (extension_offset buffer + 4) 12 else []
      else []

/-! ## Outcomes -/

/-- The packet with the fields of the fixed header. -/
def with_header (p : RTPPacket) (buffer : Buffer) (bufferLen : Nat) : RTPPacket :=
  let h := RTPHeader.cast buffer
  { p with
    m_packet := buffer, m_packet_len := bufferLen, m_padding := h.padding != 0, m_extension := h.extension != 0,
    m_csrc_count := h.csrcCount, m_marker := h.marker != 0, m_payload_type := h.payloadType,
    m_sequence := h.sequence, m_timestamp := h.timestamp, m_ssrc := h.ssrc }

/-- The accepted packet. The length of its payload is a difference of unsigned numbers. -/
def with_extension (p : RTPPacket) (buffer : Buffer) (bufferLen : Nat) : RTPPacket :=
  let e := extension_header buffer
  { with_header p buffer bufferLen with
    m_extension_id := e.id, m_extension_len := e.length,
    m_sequence := e.seqHigh16 <<< 16 ||| (RTPHeader.cast buffer).sequence, m_reserved := e.reserved, m_msw := e.msw,
    m_lsw := e.lsw, m_payload := buffer.advance (payload_offset buffer),
    m_payload_len := (bufferLen + 2 ^ 64 - (padding_count buffer bufferLen + payload_offset buffer)) % 2 ^ 64 }

section
variable (p : RTPPacket) {buffer : Buffer} {bufferLen : Nat}

theorem parse_stopped (hlen : ¬ bufferLen ≤ sizeofRTPHeader) (hversion : (RTPHeader.cast buffer).version = 2)
    (h : ¬ Reaches buffer bufferLen) : p.parse buffer bufferLen = (with_header p buffer bufferLen, false) := by
  unfold Reaches padding_count at h
  unfold parse
  dsimp only
  rw [if_neg hlen, if_neg (not_not.2 hversion)]
  split_ifs <;> simp_all [with_header]

/-- Nothing is checked behind the length of the extension. -/
theorem parse_reached (h : Reaches buffer bufferLen) :
    p.parse buffer bufferLen =
      if (extension_header buffer).length = 3 then (with_extension p buffer bufferLen, true)
      else ({ with_header p buffer bufferLen with
        m_extension_id := (extension_header buffer).id,
        m_extension_len := (extension_header buffer).length }, false) := by
  obtain ⟨hlen, hversion, hpad, hext⟩ := h
  unfold parse
  dsimp only
  rw [if_neg (Nat.not_le.2 hlen), if_neg (not_not.2 hversion), if_neg (fun hp => hpad hp.1 hp.2),
    if_pos (bne_iff_ne.2 hext)]
  by_cases hthree : (extension_header buffer).length = 3
  · rw [if_pos hthree]
    refine (if_neg (not_not.2 hthree)).trans ?_
    simp [with_extension, with_header, extension_header, payload_offset, extension_offset, padding_count, Nat.add_assoc]
  · rw [if_neg hthree]
    exact if_pos hthree

theorem parse_accepts :
    (p.parse buffer bufferLen).2 = true ↔ Reaches buffer bufferLen ∧ (extension_header buffer).length = 3 := by
  by_cases h : Reaches buffer bufferLen
  · rw [parse_reached p h]
    split <;> simp_all
  · by_cases hlen : bufferLen ≤ sizeofRTPHeader
    · simp [parse, hlen, h]
    by_cases hversion : (RTPHeader.cast buffer).version = 2
    · simp [parse_stopped p hlen hversion h, h]
    · simp [parse, hlen, hversion, h]

end

/-! ## No other reads -/

section
variable {b b' : Buffer}

theorem get16_congr {i : Nat} (h : ∀ k < 2, b'.get (i + k) = b.get (i + k)) : b'.get16 i = b.get16 i := by
  unfold Buffer.get16
  rw [h 1 (by decide), show b'.get i = b.get i from h 0 (by decide)]

theorem get32_congr {i : Nat} (h : ∀ k < 4, b'.get (i + k) = b.get (i + k)) : b'.get32 i = b.get32 i := by
  unfold Buffer.get32
  rw [h 1 (by decide), h 2 (by decide), h 3 (by decide), show b'.get i = b.get i from h 0 (by decide)]

theorem header_congr (h : ∀ i < 12, b'.get i = b.get i) : RTPHeader.cast b' = RTPHeader.cast b := by
  unfold RTPHeader.cast
  rw [h 0 (by decide), h 1 (by decide), get16_congr (fun k hk => h (2 + k) (by omega)),
    get32_congr (fun k hk => h (4 + k) (by omega)), get32_congr (fun k hk => h (8 + k) (by omega))]

theorem extension_congr (h : ∀ i < 16, b'.get i = b.get i) :
    RTPExtensionHeader.cast b' = RTPExtensionHeader.cast b := by
  unfold RTPExtensionHeader.cast
  rw [get16_congr (i := 0) (fun k hk => h (0 + k) (by omega)), get16_congr (i := 2) (fun k hk => h (2 + k) (by omega)),
    get16_congr (i := 4) (fun k hk => h (4 + k) (by omega)), get16_congr (i := 6) (fun k hk => h (6 + k) (by omega)),
    get32_congr (i := 8) (fun k hk => h (8 + k) (by omega)), get32_congr (i := 12) (fun k hk => h (12 + k) (by omega))]

/-- What `parse` leaves, but for the pointers into the buffer. -/
def outcome (r : RTPPacket × Bool) : RTPPacket × Bool := ({ r.1 with m_packet := .null, m_payload := .null }, r.2)

/-- Two buffers that agree on the bytes `parse` reads are parsed alike. -/
theorem parse_congr (p : RTPPacket) {bufferLen : Nat} (h : ∀ i ∈ parse_reads b bufferLen, b'.get i = b.get i) :
    outcome (p.parse b' bufferLen) = outcome (p.parse b bufferLen) := by
  by_cases hlen : bufferLen ≤ sizeofRTPHeader
  · simp [parse, hlen, outcome]
  rw [parse_reads, if_neg hlen] at h
  by_cases hversion : (RTPHeader.cast b).version = 2
  · rw [if_neg (not_not.2 hversion)] at h
    have hheader : RTPHeader.cast b' = RTPHeader.cast b := header_congr fun i hi => h i (by simp [sizeofRTPHeader, hi])
    have hpad : padding_count b' bufferLen = padding_count b bufferLen := by
      unfold padding_count
      rw [hheader]
      split
      · rw [h (bufferLen - 1) (by simp_all)]
      · rfl
    have hreaches : Reaches b' bufferLen ↔ Reaches b bufferLen := by simp only [Reaches, hheader, hpad]
    have hoffset : extension_offset b' = extension_offset b := by simp only [extension_offset, hheader]
    by_cases hreach : Reaches b bufferLen
    · rw [if_pos hreach] at h
      rw [parse_reached p hreach, parse_reached p (hreaches.2 hreach)]
      -- the extension headers agree as far as they are read
      have hstart : ∀ k < 4, (b'.advance (extension_offset b')).get k = (b.advance (extension_offset b)).get k := by
        intro k hk
        rw [hoffset, Buffer.get_advance, Buffer.get_advance]
        exact h _ (by simp [hk])
      have hid : (extension_header b').id = (extension_header b).id :=
        get16_congr (fun k hk => hstart (0 + k) (by omega))
      have hthree : (extension_header b').length = (extension_header b).length :=
        get16_congr (fun k hk => hstart (2 + k) (by omega))
      by_cases hl : (extension_header b).length = 3
      · rw [if_pos hl] at h
        have hext : extension_header b' = extension_header b := by
          refine extension_congr fun k hk => ?_
          by_cases hk4 : k < 4
          · exact hstart k hk4
          · rw [hoffset, Buffer.get_advance, Buffer.get_advance]
            refine h _ (List.mem_append_right _ (List.mem_append_right _ ?_))
            rw [List.mem_range'_1]
            omega
        rw [if_pos hl, if_pos (hthree.trans hl)]
        simp only [outcome, with_extension, with_header, hheader, hext, hpad, payload_offset, hoffset]
      · rw [if_neg hl, if_neg (fun hl' => hl (hthree.symm.trans hl'))]
        simp only [outcome, with_header, hheader, hid, hthree]
    · rw [parse_stopped p hlen hversion hreach,
        parse_stopped p hlen (hheader ▸ hversion) (fun hr => hreach (hreaches.1 hr))]
      simp only [outcome, with_header, hheader]
  · have hzero : b'.get 0 = b.get 0 := h 0 (by simp [hversion])
    have hversion' : (RTPHeader.cast b').version ≠ 2 := by
      unfold RTPHeader.cast at hversion ⊢
      rwa [hzero]
    simp [parse, hlen, hversion, hversion', outcome]

end

/-! ## Inside the datagram -/

/-- What `parse` reads and hands on lies inside a datagram: every byte it reads, and the payload, which is the bytes
between the headers and the padding. -/
structure Inside (p : RTPPacket) (bytes beyond : Bytes) : Prop where
  reads : ∀ i ∈ parse_reads ⟨bytes, beyond⟩ bytes.length, i < bytes.length
  room : (p.parse ⟨bytes, beyond⟩ bytes.length).2 = true →
    28 + 4 * (RTPHeader.cast ⟨bytes, beyond⟩).csrcCount + padding_count ⟨bytes, beyond⟩ bytes.length ≤ bytes.length
  padding : (p.parse ⟨bytes, beyond⟩ bytes.length).2 = true → (RTPHeader.cast ⟨bytes, beyond⟩).padding ≠ 0 →
    padding_count ⟨bytes, beyond⟩ bytes.length ≠ 0
  payload : (p.parse ⟨bytes, beyond⟩ bytes.length).2 = true →
    let r := (p.parse ⟨bytes, beyond⟩ bytes.length).1
    let first := 28 + 4 * (RTPHeader.cast ⟨bytes, beyond⟩).csrcCount
    let stop := bytes.length - padding_count ⟨bytes, beyond⟩ bytes.length
    r.m_payload.bytes = bytes.drop first ∧ r.m_payload_len = stop - first ∧
      r.m_payload.read 0 r.m_payload_len = (bytes.take stop).drop first

/-- The datagram is as long as its header says, as far as `parse` follows it: up to the length of the extension, and
to the end of the padding if that length is right. -/
def LongEnough (bytes beyond : Bytes) : Prop :=
  Reaches ⟨bytes, beyond⟩ bytes.length →
    16 + 4 * (RTPHeader.cast ⟨bytes, beyond⟩).csrcCount ≤ bytes.length ∧
      ((extension_header ⟨bytes, beyond⟩).length = 3 →
        28 + 4 * (RTPHeader.cast ⟨bytes, beyond⟩).csrcCount + padding_count ⟨bytes, beyond⟩ bytes.length ≤ bytes.length)

section
variable {bytes beyond : Bytes}

theorem extension_offset_eq (b : Buffer) : extension_offset b = 12 + 4 * (RTPHeader.cast b).csrcCount := by
  unfold extension_offset sizeofRTPHeader
  omega

theorem payload_offset_eq (b : Buffer) : payload_offset b = 28 + 4 * (RTPHeader.cast b).csrcCount := by
  rw [payload_offset, extension_offset_eq, sizeofRTPExtensionHeader]
  omega

theorem reads_inside (h : LongEnough bytes beyond) :
    ∀ i ∈ parse_reads ⟨bytes, beyond⟩ bytes.length, i < bytes.length := by
  intro i hi
  unfold parse_reads at hi
  split at hi
  · cases hi
  rename_i hlen
  rw [Nat.not_le, sizeofRTPHeader] at hlen
  split at hi
  · rw [List.mem_singleton] at hi
    omega
  rw [List.mem_append, List.mem_append] at hi
  rcases hi with (hi | hi) | hi
  · rw [List.mem_range, sizeofRTPHeader] at hi
    omega
  · split at hi
    · rw [List.mem_singleton] at hi
      omega
    · cases hi
  · split at hi
    · rename_i hreach
      obtain ⟨hstart, hrest⟩ := h hreach
      have he := extension_offset_eq ⟨bytes, beyond⟩
      rcases List.mem_append.1 hi with hi | hi
      · rw [List.mem_range'_1] at hi
        omega
      · split at hi
        · rename_i hthree
          have := hrest hthree
          rw [List.mem_range'_1] at hi
          omega
        · cases hi
    · cases hi

/-- The payload of an accepted packet that has room for it. -/
theorem payload_inside (p : RTPPacket) (hlen : bytes.length < 2 ^ 64)
    (hroom : 28 + 4 * (RTPHeader.cast ⟨bytes, beyond⟩).csrcCount + padding_count ⟨bytes, beyond⟩ bytes.length ≤
      bytes.length) :
    let r := with_extension p ⟨bytes, beyond⟩ bytes.length
    let first := 28 + 4 * (RTPHeader.cast ⟨bytes, beyond⟩).csrcCount
    let stop := bytes.length - padding_count ⟨bytes, beyond⟩ bytes.length
    r.m_payload.bytes = bytes.drop first ∧ r.m_payload_len = stop - first ∧
      r.m_payload.read 0 r.m_payload_len = (bytes.take stop).drop first := by
  intro r first stop
  have hbytes : r.m_payload.bytes = bytes.drop first := congrArg (bytes.drop ·) (payload_offset_eq _)
  have hpayload : r.m_payload_len = stop - first := by
    change (bytes.length + 2 ^ 64 - (padding_count ⟨bytes, beyond⟩ bytes.length + payload_offset ⟨bytes, beyond⟩)) %
      2 ^ 64 = stop - first
    rw [payload_offset_eq]
    omega
  refine ⟨hbytes, hpayload, ?_⟩
  rw [hpayload, Buffer.read_eq, hbytes, List.drop_zero, List.drop_take]
  rw [hbytes, List.length_drop]
  omega

/-- `parse` stays inside the datagrams that are as long as their header says, and no others. -/
theorem inside_iff (p : RTPPacket) (bytes beyond : Bytes) (hlen : bytes.length < 2 ^ 64) :
    Inside p bytes beyond ↔ LongEnough bytes beyond := by
  constructor
  · intro h hreach
    have hmem : extension_offset ⟨bytes, beyond⟩ + 3 ∈ parse_reads ⟨bytes, beyond⟩ bytes.length := by
      unfold parse_reads
      rw [if_neg (Nat.not_le.2 hreach.1), if_neg (not_not.2 hreach.2.1), if_pos hreach]
      simp
    have hread := h.reads _ hmem
    rw [extension_offset_eq] at hread
    refine ⟨by omega, fun hthree => h.room ?_⟩
    exact (parse_accepts p).2 ⟨hreach, hthree⟩
  · intro h
    refine ⟨reads_inside h, ?_, ?_, ?_⟩
    · intro hparse
      obtain ⟨hreach, hthree⟩ := (parse_accepts p).1 hparse
      exact (h hreach).2 hthree
    · intro hparse
      exact ((parse_accepts p).1 hparse).1.2.2.1
    · intro hparse
      obtain ⟨hreach, hthree⟩ := (parse_accepts p).1 hparse
      rw [parse_reached p hreach, if_pos hthree]
      exact payload_inside p hlen ((h hreach).2 hthree)

end

/-- Sixteen bytes that announce an extension: the rest of it is read behind them, and the payload has
nearly `2 ^ 64` bytes. -/
def truncated : Bytes := [0x90, 96, 0, 1, 0, 0, 0, 0, 0, 0, 0, 0, 0, 0, 0, 3]

theorem not_inside_truncated : ¬ Inside reset truncated [] ∧
    (reset.parse ⟨truncated, []⟩ truncated.length).1.m_payload_len = 2 ^ 64 - 12 := by
  refine ⟨fun h => ?_, by decide +kernel⟩
  exact absurd (h.room (by decide +kernel)) (by decide +kernel)

/-- The same with its extension header and a payload of two bytes behind it. -/
theorem inside_complete : Inside reset (truncated ++ [0, 0, 0, 0, 0, 0, 0, 0, 0, 0, 0, 0, 65, 66]) [7] := by
  refine (inside_iff reset _ _ (by decide)).2 ?_
  unfold LongEnough
  decide +kernel

end RTPPacket

end RtcClient
