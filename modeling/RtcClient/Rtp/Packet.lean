import RtcClient.Lib.Bytes
/-!
# RTP packets

The two headers in front of every payload, as the sender writes them and the
receiver reads them, and `RTPPacket::parse`. Header fields hold host-order
values; `bytes` and `cast` convert to and from what is in memory. Getters that only
read a field are that field.
-/

namespace RtcClient

open Lib

/-! ## Headers -/

/-- The fixed RTP header. -/
structure RTPHeader where
  csrcCount : Nat
  extension : Nat
  padding : Nat
  version : Nat
  payloadType : Nat
  marker : Nat
  sequence : Nat
  timestamp : Nat
  ssrc : Nat
deriving DecidableEq, Repr

/-- The extension header every packet of this client carries. -/
structure RTPExtensionHeader where
  id : Nat
  length : Nat
  reserved : Nat
  seqHigh16 : Nat
  msw : Nat
  lsw : Nat
deriving DecidableEq, Repr

def sizeofRTPHeader : Nat := 12

def sizeofRTPExtensionHeader : Nat := 16

namespace RTPHeader

/-- The header in memory. Bit fields are laid out from the low bit up. -/
def bytes (h : RTPHeader) : Bytes :=
  [UInt8.ofNat (h.csrcCount + h.extension * 16 + h.padding * 32 + h.version * 64),
    UInt8.ofNat (h.payloadType + h.marker * 128)] ++ be16 h.sequence ++ be32 h.timestamp ++ be32 h.ssrc

/-- The header a pointer cast to `RTPHeader*` shows. -/
def cast (b : Buffer) : RTPHeader where
  csrcCount := (b.get 0).toNat % 16
  extension := (b.get 0).toNat / 16 % 2
  padding := (b.get 0).toNat / 32 % 2
  version := (b.get 0).toNat / 64
  payloadType := (b.get 1).toNat % 128
  marker := (b.get 1).toNat / 128
  sequence := b.get16 2
  timestamp := b.get32 4
  ssrc := b.get32 8

/-- Every field fits its width. -/
structure Fits (h : RTPHeader) : Prop where
  csrcCount : h.csrcCount < 16
  extension : h.extension < 2
  padding : h.padding < 2
  version : h.version < 4
  payloadType : h.payloadType < 128
  marker : h.marker < 2
  sequence : h.sequence < 2 ^ 16
  timestamp : h.timestamp < 2 ^ 32
  ssrc : h.ssrc < 2 ^ 32

@[simp] theorem bytes_length (h : RTPHeader) : h.bytes.length = 12 := rfl

/-- A header is read back as it was written. -/
theorem cast_bytes (h : RTPHeader) (hf : h.Fits) (rest beyond : Bytes) : cast ⟨h.bytes ++ rest, beyond⟩ = h := by
  obtain ⟨h1, h2, h3, h4, h5, h6, h7, h8, h9⟩ := hf
  cases h with
  | mk cc x p v pt m sq ts ss =>
    simp only at h1 h2 h3 h4 h5 h6 h7 h8 h9
    simp only [cast, bytes, Buffer.get16, Buffer.get32, Buffer.get, be16, be32, List.cons_append, List.nil_append,
      List.getD_cons_zero, List.getD_cons_succ, nat16_be16, nat32_be32, UInt8.toNat_ofNat', RTPHeader.mk.injEq]
    omega

end RTPHeader

namespace RTPExtensionHeader

/-- The extension header in memory. -/
def bytes (e : RTPExtensionHeader) : Bytes :=
  be16 e.id ++ be16 e.length ++ be16 e.reserved ++ be16 e.seqHigh16 ++ be32 e.msw ++ be32 e.lsw

/-- The header a pointer cast to `RTPExtensionHeader*` shows. -/
def cast (b : Buffer) : RTPExtensionHeader where
  id := b.get16 0
  length := b.get16 2
  reserved := b.get16 4
  seqHigh16 := b.get16 6
  msw := b.get32 8
  lsw := b.get32 12

/-- Every field fits its width. -/
structure Fits (e : RTPExtensionHeader) : Prop where
  id : e.id < 2 ^ 16
  length : e.length < 2 ^ 16
  reserved : e.reserved < 2 ^ 16
  seqHigh16 : e.seqHigh16 < 2 ^ 16
  msw : e.msw < 2 ^ 32
  lsw : e.lsw < 2 ^ 32

@[simp] theorem bytes_length (e : RTPExtensionHeader) : e.bytes.length = 16 := rfl

theorem cast_bytes (e : RTPExtensionHeader) (hf : e.Fits) (rest beyond : Bytes) :
    cast ⟨e.bytes ++ rest, beyond⟩ = e := by
  obtain ⟨h1, h2, h3, h4, h5, h6⟩ := hf
  cases e with
  | mk i l r s m w =>
    simp only at h1 h2 h3 h4 h5 h6
    simp only [cast, bytes, Buffer.get16, Buffer.get32, Buffer.get, be16, be32, List.cons_append, List.nil_append,
      List.getD_cons_zero, List.getD_cons_succ, nat16_be16, nat32_be32, RTPExtensionHeader.mk.injEq]
    omega

end RTPExtensionHeader

/-! ## Packets -/

/-- A received packet. `m_packet` is the datagram it was parsed from and
`m_payload` the memory from the payload on; both are null until `parse` succeeds
or gets far enough. -/
structure RTPPacket where
  m_padding : Bool
  m_extension : Bool
  m_csrc_count : Nat
  m_marker : Bool
  m_payload_type : Nat
  m_sequence : Nat
  m_timestamp : Nat
  m_ssrc : Nat
  m_extension_id : Nat
  m_extension_len : Nat
  m_reserved : Nat
  m_msw : Nat
  m_lsw : Nat
  m_payload : Buffer
  m_payload_len : Nat
  m_packet : Buffer
  m_packet_len : Nat
deriving DecidableEq, Repr

namespace RTPPacket

/-- `RTPPacket::reset`, which the constructor calls. -/
def reset : RTPPacket where
  m_padding := false
  m_extension := false
  m_csrc_count := 0
  m_marker := false
  m_payload_type := 0
  m_sequence := 0
  m_timestamp := 0
  m_ssrc := 0
  m_extension_id := 0
  m_extension_len := 0
  m_reserved := 0
  m_msw := 0
  m_lsw := 0
  m_payload := .null
  m_payload_len := 0
  m_packet := .null
  m_packet_len := 0

/-- `RTPPacket::parse`. A failed parse keeps the fields it had set. -/
def parse (p : RTPPacket) (buffer : Buffer) (bufferLen : Nat) : RTPPacket × Bool :=
  if bufferLen ≤ sizeofRTPHeader then (p, false)
  else
    let p := { p with m_packet := buffer, m_packet_len := bufferLen }
    let rtpHeader := RTPHeader.cast buffer
    if rtpHeader.version ≠ 2 then (p, false)
    else
      let p := { p with
        m_padding := rtpHeader.padding != 0, m_extension := rtpHeader.extension != 0,
        m_csrc_count := rtpHeader.csrcCount, m_marker := rtpHeader.marker != 0,
        m_payload_type := rtpHeader.payloadType, m_sequence := rtpHeader.sequence,
        m_timestamp := rtpHeader.timestamp, m_ssrc := rtpHeader.ssrc }
      let paddingBytes := if rtpHeader.padding ≠ 0 then (buffer.get (bufferLen - 1)).toNat else 0
      if rtpHeader.padding ≠ 0 ∧ paddingBytes = 0 then (p, false)
      else if p.m_extension then
        let rtpExtHeader := RTPExtensionHeader.cast (buffer.advance (sizeofRTPHeader + p.m_csrc_count * 4))
        let p := { p with m_extension_id := rtpExtHeader.id, m_extension_len := rtpExtHeader.length }
        if rtpExtHeader.length ≠ 3 then (p, false)
        else
          let p := { p with
            m_sequence := rtpExtHeader.seqHigh16 <<< 16 ||| p.m_sequence, m_reserved := rtpExtHeader.reserved,
            m_msw := rtpExtHeader.msw, m_lsw := rtpExtHeader.lsw }
          -- `size_t` wraps, so the source's test for a negative length never fires.
          let p := { p with
            m_payload_len :=
              (bufferLen + 2 ^ 64 -
                (paddingBytes + sizeofRTPHeader + p.m_csrc_count * 4 + sizeofRTPExtensionHeader)) % 2 ^ 64 }
          ({ p with
              m_payload := buffer.advance (sizeofRTPHeader + p.m_csrc_count * 4 + sizeofRTPExtensionHeader) },
            true)
      else (p, false)

/-- Only packets with the extension are accepted. -/
theorem parse_extension (p : RTPPacket) (b : Buffer) (len : Nat) (h : (p.parse b len).2 = true) :
    (p.parse b len).1.m_extension = true := by
  revert h
  simp only [parse]
  generalize (if (RTPHeader.cast b).padding ≠ 0 then (b.get (len - 1)).toNat else 0) = paddingBytes
  by_cases he : ((RTPHeader.cast b).extension != 0) = true
  · simp only [he, if_true]
    split_ifs <;> simp
  · rw [Bool.not_eq_true] at he
    simp only [he, Bool.false_eq_true, if_false]
    split_ifs <;> simp

/-- The packet `parse` makes of a datagram without padding or CSRCs. -/
def parsed (h : RTPHeader) (e : RTPExtensionHeader) (payload beyond : Bytes) : RTPPacket where
  m_padding := false
  m_extension := true
  m_csrc_count := 0
  m_marker := h.marker != 0
  m_payload_type := h.payloadType
  m_sequence := e.seqHigh16 * 65536 + h.sequence
  m_timestamp := h.timestamp
  m_ssrc := h.ssrc
  m_extension_id := e.id
  m_extension_len := 3
  m_reserved := e.reserved
  m_msw := e.msw
  m_lsw := e.lsw
  m_payload := ⟨payload, beyond⟩
  m_payload_len := payload.length
  m_packet := ⟨h.bytes ++ e.bytes ++ payload, beyond⟩
  m_packet_len := 28 + payload.length

/-- A header as the packet builders write it: version 2, an extension, no
padding and no CSRCs. -/
structure Plain (h : RTPHeader) (e : RTPExtensionHeader) : Prop where
  fits : h.Fits
  extFits : e.Fits
  version : h.version = 2
  padding : h.padding = 0
  extension : h.extension = 1
  csrcCount : h.csrcCount = 0
  length : e.length = 3

/-- The headers of the builders, if the values fit their fields. -/
theorem plain_of_fits {payloadType marker sequence timestamp ssrc num seqHigh16 : Nat} (h1 : payloadType < 128)
    (h2 : marker < 2) (h3 : sequence < 2 ^ 16) (h4 : timestamp < 2 ^ 32) (h5 : ssrc < 2 ^ 32) (h6 : num < 2 ^ 16)
    (h7 : seqHigh16 < 2 ^ 16) :
    Plain ⟨0, 1, 0, 2, payloadType, marker, sequence, timestamp, ssrc⟩ ⟨0, 3, num, seqHigh16, 0, 0⟩ where
  fits := ⟨show 0 < 16 by decide, show 1 < 2 by decide, show 0 < 2 by decide, show 2 < 4 by decide, h1, h2, h3, h4, h5⟩
  extFits := ⟨show 0 < 2 ^ 16 by decide, show 3 < 2 ^ 16 by decide, h6, h7, show 0 < 2 ^ 32 by decide,
    show 0 < 2 ^ 32 by decide⟩
  version := rfl
  padding := rfl
  extension := rfl
  csrcCount := rfl
  length := rfl

/-- What the builders write is what `parse` reads. The payload is the first `k` bytes of what follows the headers. -/
theorem parse_plain_at (p : RTPPacket) {h : RTPHeader} {e : RTPExtensionHeader} (hp : Plain h e)
    (memory beyond : Bytes) {k : Nat} (hk : k < 2 ^ 64) :
    p.parse ⟨h.bytes ++ e.bytes ++ memory, beyond⟩ (28 + k) =
      ({ parsed h e memory beyond with m_payload_len := k, m_packet_len := 28 + k }, true) := by
  have hh : RTPHeader.cast ⟨h.bytes ++ e.bytes ++ memory, beyond⟩ = h := by
    rw [List.append_assoc]; exact RTPHeader.cast_bytes h hp.fits _ _
  have hadv : Buffer.advance ⟨h.bytes ++ e.bytes ++ memory, beyond⟩ 12 = ⟨e.bytes ++ memory, beyond⟩ := by
    rw [List.append_assoc]; exact Buffer.advance_append h.bytes _ _
  have hadv' : Buffer.advance ⟨h.bytes ++ e.bytes ++ memory, beyond⟩ 28 = ⟨memory, beyond⟩ :=
    Buffer.advance_append (h.bytes ++ e.bytes) _ _
  have hseq : e.seqHigh16 <<< 16 ||| h.sequence = e.seqHigh16 * 65536 + h.sequence := by
    rw [← Nat.shiftLeft_add_eq_or_of_lt hp.fits.sequence, Nat.shiftLeft_eq]
  have hl : (28 + k + 2 ^ 64 - 28) % 2 ^ 64 = k := by omega
  have hpos : ¬ 28 + k ≤ 12 := by omega
  unfold parse
  simp only [sizeofRTPHeader, sizeofRTPExtensionHeader, hh, hp.version, hp.padding, hp.extension, hp.csrcCount, hpos,
    if_false, ne_eq, not_true_eq_false, false_and, Nat.zero_mul, Nat.add_zero, Nat.zero_add, hadv, hadv', hseq, hl,
    RTPExtensionHeader.cast_bytes e hp.extFits, hp.length, bne_self_eq_false, parsed]
  rfl

/-- Where the datagram ends with its payload. -/
theorem parse_plain (p : RTPPacket) {h : RTPHeader} {e : RTPExtensionHeader} (hp : Plain h e)
    (payload beyond : Bytes) (hlen : payload.length < 2 ^ 64) :
    p.parse ⟨h.bytes ++ e.bytes ++ payload, beyond⟩ (28 + payload.length) = (parsed h e payload beyond, true) :=
  parse_plain_at p hp payload beyond hlen

end RTPPacket

end RtcClient
