import RtcClient.Codec.AnnexB
import RtcClient.Rtp.PacketBuilder
/-!
# What the packet builder emits

`send_data` gives back the NAL units of an Annex-B stream (`send_data_annexB`).
`receive_rtp_packets`, when it returns true, has cut the NAL units into `chunks` and
emitted the payloads of each, with consecutive sequence numbers
(`receive_rtp_packets_built`).
-/

namespace RtcClient

open Lib

namespace RTPH264PacketBuilder

/-! ## Splitting -/

/-- A NAL unit as the splitter keeps it: its length goes through an `int`. -/
def clip (n : Bytes) : Option Bytes :=
  if int32 n.length > 0 then some (n.take (int32 n.length).toNat) else none

theorem clip_eq {n : Bytes} (h0 : n ≠ []) (h : n.length < 2 ^ 31) : clip n = some n := by
  have hpos := List.length_pos_iff.2 h0
  rw [clip, int32_of_lt h, if_pos (by omega), Int.toNat_natCast, List.take_length]

/-- NAL units whose lengths fit an `int` are kept as they are. -/
theorem filterMap_clip {ns : List Bytes} (hn : ∀ n ∈ ns, n ≠ [] ∧ n.length < 2 ^ 31) : ns.filterMap clip = ns := by
  induction ns with
  | nil => rfl
  | cons n ns ih =>
    obtain ⟨h1, h2⟩ := hn n (by simp)
    rw [List.filterMap_cons_some (clip_eq h1 h2), ih (fun m hm => hn m (by simp [hm]))]

theorem skip_zeros_code (long : Bool) (pre rest beyond : Bytes) :
    skip_zeros ⟨pre ++ (startCode long ++ rest), beyond⟩ pre.length = pre.length + (startCode long).length := by
  have hget : ∀ i, Buffer.get ⟨pre ++ (startCode long ++ rest), beyond⟩ (pre.length + i) =
      Buffer.get ⟨startCode long ++ rest, beyond⟩ i := get_append_right pre _ beyond
  have hzero : ∀ i < (startCode long).length - 1,
      Buffer.get ⟨startCode long ++ rest, beyond⟩ i = 0 := by
    intro i hi
    cases long
    · rcases (by simp [startCode] at hi; omega : i = 0 ∨ i = 1) with rfl | rfl <;> rfl
    · rcases (by simp [startCode] at hi; omega : i = 0 ∨ i = 1 ∨ i = 2) with rfl | rfl | rfl <;> rfl
  have hone : Buffer.get ⟨startCode long ++ rest, beyond⟩ ((startCode long).length - 1) ≠ 0 := by
    cases long <;> exact fun h => absurd (show (1 : UInt8) = 0 from h) (by decide)
  have hlen := startCode_length long
  -- Skipping from the `i`-th byte of the code on.
  have key : ∀ k i, i + k + 1 = (startCode long).length →
      skip_zeros ⟨pre ++ (startCode long ++ rest), beyond⟩ (pre.length + i) = pre.length + (startCode long).length := by
    intro k
    induction k with
    | zero =>
      intro i hi
      obtain rfl : i = (startCode long).length - 1 := by omega
      unfold skip_zeros
      rw [if_neg (fun h => hone (by rw [← hget]; exact h.1))]
      omega
    | succ k ih =>
      intro i hi
      unfold skip_zeros
      rw [if_pos ⟨by rw [hget]; exact hzero i (by omega), by simp only [List.length_append]; omega⟩]
      exact ih (i + 1) (by omega)
  exact key ((startCode long).length - 1) 0 (by split at hlen <;> omega)

/-- The splitter gives back the NAL units of a stream. -/
theorem split_loop_annexB (addr : Nat) (beyond : Bytes) (us : List (Bool × Bytes)) :
    ∀ pre : Bytes, (∀ u ∈ us, Separable u.2) →
      split_loop ⟨pre ++ annexB us, beyond⟩ addr pre.length (pre ++ annexB us).length =
        (us.map (·.2)).filterMap clip := by
  induction us with
  | nil =>
    intro pre _
    unfold split_loop
    simp
  | cons u us ih =>
    intro pre h
    obtain ⟨long, n⟩ := u
    have hn : Separable n := h (long, n) (by simp)
    have hus : ∀ u ∈ us, Separable u.2 := fun u hu => h u (by simp [hu])
    have hlen : pre.length < (pre ++ annexB ((long, n) :: us)).length := by
      have := startCode_length long
      simp only [annexB_cons, List.length_append]
      split at this <;> omega
    have hfind := avc_find_start_code_eq addr hn.noCode hn.last (pre ++ startCode long) beyond us
      (fun u hu => (hus u hu).ne_nil)
    have hrest := ih (pre ++ startCode long ++ n) hus
    have hn0 := List.length_pos_iff.2 hn.ne_nil
    simp only [List.append_assoc] at hfind hrest
    rw [annexB_cons] at hlen ⊢
    unfold split_loop
    simp only [if_pos hlen, skip_zeros_code]
    rw [← List.length_append, hfind, ← List.length_append, List.append_assoc, hrest]
    have hsub : (((pre ++ (startCode long ++ n)).length : Nat) : Int) - ((pre ++ startCode long).length : Nat) =
        n.length := by
      simp only [List.length_append]; omega
    rw [hsub]
    by_cases hpos : int32 n.length > 0
    · have hle := int32_le n.length
      have hclip : clip n = some (n.take (int32 n.length).toNat) := if_pos hpos
      rw [if_pos hpos, List.map_cons, List.filterMap_cons_some hclip, Buffer.read_eq]
      · rw [← List.append_assoc, List.drop_left, List.take_append_of_le_length (by omega)]
      · simp only [List.length_append]; omega
    · have hclip : clip n = none := if_neg hpos
      rw [if_neg hpos, List.map_cons, List.filterMap_cons_none hclip]

/-- `send_data` on a stream, at any address. -/
theorem send_data_separable (b : RTPH264PacketBuilder) (addr : Nat) (beyond : Bytes) {us : List (Bool × Bytes)}
    (h : ∀ u ∈ us, Separable u.2) :
    b.send_data ⟨annexB us, beyond⟩ addr (annexB us).length =
      ({ b with m_nalu_vec := (us.map (·.2)).filterMap clip }, true) := by
  have hfind := avc_find_start_code_eq addr (n := []) (by simp) (by simp) [] beyond us
    (fun u hu => (h u hu).ne_nil)
  have hsplit := split_loop_annexB addr beyond us [] h
  simp only [List.nil_append, List.length_nil, Nat.add_zero] at hfind hsplit
  rw [send_data, hfind, hsplit]

theorem send_data_annexB (b : RTPH264PacketBuilder) (addr : Nat) (beyond : Bytes) {us : List (Bool × Bytes)}
    (h : ∀ u ∈ us, IsNalu u.2) :
    b.send_data ⟨annexB us, beyond⟩ addr (annexB us).length =
      ({ b with m_nalu_vec := (us.map (·.2)).filterMap clip }, true) :=
  b.send_data_separable addr beyond (fun u hu => (h u hu).separable)

end RTPH264PacketBuilder

/-! ## Payloads -/

/-- What one packet or one series of fragments carries. -/
inductive Chunk where
  | packet (ns : List Bytes)
  | fua (n : Bytes)

/-- The payloads of a series of fragments. -/
def fragments (fnri type : UInt8) (isStart : Bool) (body : Bytes) : List Bytes :=
  ([fnri ||| 0x1c, if isStart then 0x80 ||| type else if body.length ≤ 1370 then 0x40 ||| type else 0x00 ||| type] ++
      body.take 1370) ::
    if body.length ≤ 1370 then [] else fragments fnri type false (body.drop 1370)
termination_by body.length
decreasing_by simp only [List.length_drop]; omega

theorem fragments_length (fnri type : UInt8) (isStart : Bool) (body : Bytes) (h : body ≠ []) :
    (fragments fnri type isStart body).length = (body.length + 1369) / 1370 := by
  fun_induction fragments fnri type isStart body with
  | case1 isStart body ih =>
    have := List.length_pos_iff.2 h
    by_cases hl : body.length ≤ 1370
    · simp only [hl, if_true, List.length_cons, List.length_nil]
      omega
    · simp only [hl, if_false, List.length_cons]
      rw [ih hl (by rw [← List.length_pos_iff, List.length_drop]; omega), List.length_drop]
      omega

def Chunk.payloads : Chunk → List Bytes
  | .packet [n] => [n]
  | .packet ns => [0x18 :: ns.flatMap (fun n => be16 n.length ++ n)]
  | .fua n => fragments (n.headD 0 &&& 0xE0) (n.headD 0 &&& 0x1F) true n.tail

theorem Chunk.payloads_ne_nil (c : Chunk) : c.payloads ≠ [] := by
  match c with
  | .packet [] => simp [payloads]
  | .packet [_] => simp [payloads]
  | .packet (_ :: _ :: _) => simp [payloads]
  | .fua n => rw [payloads, fragments]; simp

/-- The NAL units a chunk carries. -/
def Chunk.nalus : Chunk → List Bytes
  | .packet ns => ns
  | .fua n => [n]

/-- The chunk of the NAL units collected so far, if any. -/
def pending (tmp : List Bytes) : List Chunk := if tmp.length > 0 then [.packet tmp] else []

/-- How the NAL units are cut into chunks. -/
def chunks (tmp : List Bytes) (totalLen : Nat) : List Bytes → List Chunk
  | [] => pending tmp
  | nalu :: rest =>
    if nalu.length > RTP_PAYLOAD_SIZE then pending tmp ++ .fua nalu :: chunks [] 0 rest
    else if totalLen < RTP_PAYLOAD_SIZE ∧ RTP_PAYLOAD_SIZE < totalLen + nalu.length then
      pending tmp ++ chunks [nalu] nalu.length rest
    else chunks (tmp ++ [nalu]) (totalLen + nalu.length) rest

theorem pending_nalus (tmp : List Bytes) : (pending tmp).flatMap Chunk.nalus = tmp := by
  cases tmp <;> simp [pending, Chunk.nalus]

/-- The chunks carry the NAL units in order. -/
theorem chunks_nalus (nalus : List Bytes) :
    ∀ tmp totalLen, (chunks tmp totalLen nalus).flatMap Chunk.nalus = tmp ++ nalus := by
  induction nalus with
  | nil => intro tmp _; simp [chunks, pending_nalus]
  | cons nalu rest ih =>
    intro tmp totalLen
    rw [chunks]
    split_ifs
    · simp [pending_nalus, Chunk.nalus, ih]
    · simp [pending_nalus, ih]
    · simp [ih]

/-- A chunk as the loop makes it: NAL units that may share a packet, or a longer one. -/
def Chunk.Sized : Chunk → Prop
  | .packet ns => ns ≠ [] ∧ ∀ n ∈ ns, n.length ≤ RTP_PAYLOAD_SIZE
  | .fua n => RTP_PAYLOAD_SIZE < n.length

theorem pending_sized {tmp : List Bytes} (ht : ∀ n ∈ tmp, n.length ≤ RTP_PAYLOAD_SIZE) :
    ∀ c ∈ pending tmp, c.Sized := by
  intro c hc
  unfold pending at hc
  split at hc
  · rename_i hpos
    rw [List.mem_singleton] at hc
    subst hc
    exact ⟨List.length_pos_iff.1 hpos, ht⟩
  · simp at hc

theorem chunks_sized (nalus : List Bytes) :
    ∀ tmp totalLen, (∀ n ∈ tmp, n.length ≤ RTP_PAYLOAD_SIZE) → ∀ c ∈ chunks tmp totalLen nalus, c.Sized := by
  induction nalus with
  | nil => intro tmp _ ht; exact pending_sized ht
  | cons nalu rest ih =>
    intro tmp totalLen ht c hc
    rw [chunks] at hc
    split_ifs at hc with h1 h2
    · rcases List.mem_append.1 hc with hc | hc
      · exact pending_sized ht c hc
      · rcases List.mem_cons.1 hc with rfl | hc
        · exact h1
        · exact ih [] 0 (by simp) c hc
    · rcases List.mem_append.1 hc with hc | hc
      · exact pending_sized ht c hc
      · exact ih [nalu] _ (by simpa using Nat.not_lt.1 h1) c hc
    · refine ih _ _ ?_ c hc
      intro n hn
      rcases List.mem_append.1 hn with hn | hn
      · exact ht n hn
      · rw [List.mem_singleton] at hn
        subst hn
        exact Nat.not_lt.1 h1

/-- Counting with wrap. -/
theorem toNat_add_ofNat (sequence : UInt32) (i : Nat) :
    (sequence + UInt32.ofNat i).toNat = (sequence.toNat + i) % 2 ^ 32 := by
  rw [UInt32.toNat_add, UInt32.toNat_ofNat']
  omega

/-- Packets with consecutive sequence numbers. -/
def stamp (ssrc timestamp sequence : UInt32) : List Bytes → List Bytes
  | [] => []
  | p :: ps => (packetHeader ssrc timestamp sequence ++ p) :: stamp ssrc timestamp (sequence + 1) ps

@[simp] theorem packetHeader_length (ssrc timestamp sequence : UInt32) :
    (packetHeader ssrc timestamp sequence).length = 28 := rfl

theorem stamp_append (ssrc timestamp : UInt32) (ps qs : List Bytes) :
    ∀ sequence, stamp ssrc timestamp sequence (ps ++ qs) =
      stamp ssrc timestamp sequence ps ++ stamp ssrc timestamp (sequence + UInt32.ofNat ps.length) qs := by
  induction ps with
  | nil => intro sequence; simp [stamp]
  | cons p ps ih =>
    intro sequence
    have e : sequence + 1 + UInt32.ofNat ps.length = sequence + UInt32.ofNat (ps.length + 1) := by
      rw [UInt32.ofNat_add, UInt32.add_assoc, UInt32.add_comm 1]
      rfl
    simp only [List.cons_append, stamp, ih, List.length_cons, e]

theorem stamp_eq_mapIdx (ssrc timestamp : UInt32) (ps : List Bytes) :
    ∀ sequence, stamp ssrc timestamp sequence ps =
      ps.mapIdx (fun i p => packetHeader ssrc timestamp (sequence + UInt32.ofNat i) ++ p) := by
  induction ps with
  | nil => intro sequence; rfl
  | cons p ps ih =>
    intro sequence
    rw [stamp, ih, List.mapIdx_cons]
    have h0 : sequence + UInt32.ofNat 0 = sequence := UInt32.add_zero _
    have hs : ∀ i, sequence + 1 + UInt32.ofNat i = sequence + UInt32.ofNat (i + 1) := by
      intro i
      rw [UInt32.ofNat_add, UInt32.add_assoc, UInt32.add_comm 1]
      rfl
    simp only [h0, hs]

/-- The bytes the packets take in the builder's buffer. -/
def packetBytes (payloads : List Bytes) : Nat := (payloads.map (fun p => 28 + p.length)).sum

@[simp] theorem packetBytes_nil : packetBytes [] = 0 := rfl

@[simp] theorem packetBytes_cons (p : Bytes) (ps : List Bytes) :
    packetBytes (p :: ps) = 28 + p.length + packetBytes ps := rfl

theorem packetBytes_append (ps qs : List Bytes) : packetBytes (ps ++ qs) = packetBytes ps + packetBytes qs := by
  simp [packetBytes]

theorem le_packetBytes {p : Bytes} {ps : List Bytes} (h : p ∈ ps) : p.length ≤ packetBytes ps := by
  induction ps with
  | nil => simp at h
  | cons q ps ih =>
    rw [packetBytes_cons]
    rcases List.mem_cons.1 h with rfl | h
    · omega
    · have := ih h
      omega

theorem packetBytes_chunk {c : Chunk} {cs : List Chunk} (h : c ∈ cs) :
    packetBytes c.payloads ≤ packetBytes (cs.flatMap Chunk.payloads) := by
  induction cs with
  | nil => simp at h
  | cons c' cs ih =>
    rw [List.flatMap_cons, packetBytes_append]
    rcases List.mem_cons.1 h with rfl | h
    · omega
    · have := ih h
      omega

/-- A payload's packet is 28 bytes longer. -/
theorem stamp_mem {p : Bytes} {ps : List Bytes} (h : p ∈ ps) (ssrc timestamp : UInt32) :
    ∀ sequence, ∃ q ∈ stamp ssrc timestamp sequence ps, q.length = 28 + p.length := by
  induction ps with
  | nil => simp at h
  | cons p' ps ih =>
    intro sequence
    rcases List.mem_cons.1 h with rfl | h
    · exact ⟨_, List.mem_cons_self, by simp⟩
    · obtain ⟨q, hq, hl⟩ := ih h (sequence + 1)
      exact ⟨q, List.mem_cons_of_mem _ hq, hl⟩

/-! ## Building -/

namespace RTPH264PacketBuilder

/-- A successful step from `b` has emitted the payloads behind `vec`. -/
structure Built (b : RTPH264PacketBuilder) (vec payloads : List Bytes) (b' : RTPH264PacketBuilder)
    (vec' : List Bytes) : Prop where
  packets : vec' = vec ++ stamp b.m_ssrc b.m_timestamp b.m_sequence payloads
  sequence : b'.m_sequence = b.m_sequence + UInt32.ofNat payloads.length
  ssrc : b'.m_ssrc = b.m_ssrc
  timestamp : b'.m_timestamp = b.m_timestamp
  init : b'.m_initialize = b.m_initialize
  nalus : b'.m_nalu_vec = b.m_nalu_vec
  pos : b'.m_current_pos = b.m_current_pos + packetBytes payloads
  room : b.m_current_pos ≤ RTP_PACKETS_BUFFER_SIZE + 2 → b'.m_current_pos ≤ RTP_PACKETS_BUFFER_SIZE + 2

theorem Built.refl (b : RTPH264PacketBuilder) (vec : List Bytes) : Built b vec [] b vec where
  packets := by simp [stamp]
  sequence := by simp
  ssrc := rfl
  timestamp := rfl
  init := rfl
  nalus := rfl
  pos := rfl
  room := id

theorem Built.trans {b b' b'' : RTPH264PacketBuilder} {vec vec' vec'' ps qs : List Bytes}
    (h : Built b vec ps b' vec') (h' : Built b' vec' qs b'' vec'') : Built b vec (ps ++ qs) b'' vec'' where
  packets := by
    rw [h'.packets, h.packets, h.ssrc, h.timestamp, h.sequence, stamp_append, List.append_assoc]
  sequence := by rw [h'.sequence, h.sequence, List.length_append, UInt32.ofNat_add, UInt32.add_assoc]
  ssrc := h'.ssrc.trans h.ssrc
  timestamp := h'.timestamp.trans h.timestamp
  init := h'.init.trans h.init
  nalus := h'.nalus.trans h.nalus
  pos := by rw [h'.pos, h.pos, packetBytes_append, Nat.add_assoc]
  room := fun hr => h'.room (h.room hr)

/-- One packet: headers and payload, then the next sequence number. -/
theorem Built.single (b : RTPH264PacketBuilder) (vec : List Bytes) (p : Bytes) {b' : RTPH264PacketBuilder}
    (hseq : b'.m_sequence = b.m_sequence + 1) (hssrc : b'.m_ssrc = b.m_ssrc) (hts : b'.m_timestamp = b.m_timestamp)
    (hinit : b'.m_initialize = b.m_initialize) (hnalus : b'.m_nalu_vec = b.m_nalu_vec)
    (hpos : b'.m_current_pos = b.m_current_pos + (28 + p.length))
    (hroom : b'.m_current_pos ≤ RTP_PACKETS_BUFFER_SIZE + 2) : Built b vec [p] b' (vec ++ [b.header ++ p]) where
  packets := rfl
  sequence := hseq
  ssrc := hssrc
  timestamp := hts
  init := hinit
  nalus := hnalus
  pos := hpos
  room := fun _ => hroom

theorem header_length (b : RTPH264PacketBuilder) : b.header.length = 28 := rfl

/-- The fragments of what is left, in the loop's terms. -/
theorem fragments_loop (fnri type : UInt8) (isStart : Bool) {data : Bytes} {leftLen : Nat}
    (hl : leftLen ≤ data.length) :
    fragments fnri type isStart (data.drop (data.length - leftLen)) =
      ([fnri ||| 0x1c, if isStart then 0x80 ||| type
          else if copy_len leftLen = leftLen then 0x40 ||| type else 0x00 ||| type] ++
        (data.drop (data.length - leftLen)).take (copy_len leftLen)) ::
      if leftLen - copy_len leftLen ≤ 0 then []
      else fragments fnri type false (data.drop (data.length - (leftLen - copy_len leftLen))) := by
  have hc := copy_len_eq leftLen
  have hlen : (data.drop (data.length - leftLen)).length = leftLen := by rw [List.length_drop]; omega
  rw [fragments, hlen]
  by_cases h : leftLen ≤ 1370
  · have he : copy_len leftLen = leftLen := by omega
    simp only [he, h, if_true, Nat.sub_self, Nat.le_refl]
    rw [List.take_of_length_le (by omega), List.take_of_length_le (by omega)]
  · have he : copy_len leftLen = 1370 := by omega
    have hd : data.length - (leftLen - 1370) = data.length - leftLen + 1370 := by omega
    have h1 : ¬ 1370 = leftLen := by omega
    have h2 : ¬ leftLen - 1370 ≤ 0 := by omega
    simp only [he, h, h1, h2, if_false, List.drop_drop, hd]

theorem fua_loop_built (fnri type : UInt8) (data : Bytes) {b' : RTPH264PacketBuilder} {vec' : List Bytes} :
    ∀ (b : RTPH264PacketBuilder) (leftLen : Nat) (isStart : Bool) (vec : List Bytes), leftLen ≤ data.length →
      b.fua_loop fnri type data leftLen isStart vec = (b', vec', true) →
      Built b vec (fragments fnri type isStart (data.drop (data.length - leftLen))) b' vec' := by
  intro b leftLen isStart vec hl h
  -- One round emits one fragment.
  have round : ∀ (b : RTPH264PacketBuilder) (vec : List Bytes) (fu body : Bytes) (k : Nat), fu.length = 2 →
      body.length ≤ k → ¬ ((b.put b.header).put fu).m_current_pos + k ≥ RTP_PACKETS_BUFFER_SIZE →
      Built b vec [fu ++ body] (((b.put b.header).put fu).put body).next (vec ++ [b.header ++ fu ++ body]) := by
    intro b vec fu body k hfu hb hk
    rw [List.append_assoc]
    refine .single b vec _ rfl rfl rfl rfl rfl ?_ ?_ <;>
      simp only [put, next, header_length, List.length_append] at hk ⊢ <;> omega
  fun_induction fua_loop b fnri type data leftLen isStart vec with
  | case1 => simp at h
  | case2 => simp at h
  | case3 => simp at h
  | case4 b leftLen isStart vec h1 hd b1 h2 copyLen fu b2 h3 body b3 vec1 hdone =>
    obtain ⟨rfl, rfl, -⟩ : b3 = b' ∧ vec1 = vec' ∧ True := by simpa using h
    rw [fragments_loop fnri type isStart hl, if_pos hdone]
    exact round b vec fu body copyLen rfl (List.length_take_le _ _) h3
  | case5 b leftLen isStart vec h1 hd b1 h2 copyLen fu b2 h3 body b3 vec1 hmore ih =>
    rw [fragments_loop fnri type isStart hl, if_neg hmore]
    exact (round b vec fu body copyLen rfl (List.length_take_le _ _) h3).trans (ih (by omega) h)

theorem build_fua_packet_built {b b' : RTPH264PacketBuilder} {n : Bytes} {vec vec' : List Bytes}
    (h : b.build_fua_packet n vec = (b', vec', true)) : Built b vec (Chunk.fua n).payloads b' vec' := by
  have hb := fua_loop_built _ _ _ b n.tail.length true vec (le_refl _) h
  rwa [Nat.sub_self, List.drop_zero] at hb

/-- What the STAP-A loop changes. -/
theorem stapa_loop_eq {b' : RTPH264PacketBuilder} {packet' : Bytes} (ns : List Bytes) :
    ∀ (b : RTPH264PacketBuilder) (packet : Bytes) (isBegin : Bool),
      b.m_current_pos ≤ RTP_PACKETS_BUFFER_SIZE + 2 →
      b.stapa_loop packet isBegin ns = (b', packet', true) →
      ∃ bs writes, bs = (if isBegin ∧ ns ≠ [] then [0x18] else []) ++ ns.flatMap (fun n => be16 n.length ++ n) ∧
        packet' = packet ++ bs ∧
        b' = { b with m_current_pos := b.m_current_pos + bs.length, writes := writes } ∧
        b'.m_current_pos ≤ RTP_PACKETS_BUFFER_SIZE + 2 := by
  induction ns with
  | nil =>
    intro b packet isBegin hr h
    simp only [stapa_loop, Prod.mk.injEq, and_true] at h
    obtain ⟨rfl, rfl⟩ := h
    exact ⟨[], b.writes, by simp, by simp, rfl, hr⟩
  | cons n ns ih =>
    intro b packet isBegin hr h
    rw [stapa_loop] at h
    split at h
    · rename_i hlt
      have hmark : (if isBegin then [0x18] else [] : Bytes).length ≤ 1 := by cases isBegin <;> simp
      obtain ⟨bs, writes, hbs, hpacket, hb, hroom⟩ := ih _ _ _
        (by simp only [put, List.length_append, be16_length]; omega) h
      refine ⟨(if isBegin then [0x18] else []) ++ be16 n.length ++ n ++ bs, writes, ?_, ?_, ?_, hroom⟩
      · rw [hbs]; cases isBegin <;> simp
      · rw [hpacket]; simp
      · rw [hb]
        simp only [put, List.length_append]
        congr 1
        omega
    · simp at h

theorem build_packet_built {b b' : RTPH264PacketBuilder} {ns vec vec' : List Bytes} (hne : ns ≠ [])
    (h : b.build_packet ns vec = (b', vec', true)) : Built b vec (Chunk.packet ns).payloads b' vec' := by
  simp only [build_packet] at h
  split at h
  · simp at h
  · rename_i hpos
    simp only [sizeofRTPHeader, sizeofRTPExtensionHeader] at hpos
    split at h
    · rename_i n
      split at h
      · rename_i hlt
        obtain ⟨rfl, rfl, -⟩ : _ ∧ _ ∧ True := by simpa using h
        refine .single b vec n rfl rfl rfl rfl rfl ?_ ?_ <;> simp only [put, next, header_length] at hlt ⊢ <;> omega
      · simp at h
    · rename_i hns
      split at h
      · rename_i b1 packet hloop
        obtain ⟨rfl, rfl, -⟩ : _ ∧ _ ∧ True := by simpa using h
        obtain ⟨bs, writes, hbs, rfl, rfl, hroom⟩ := stapa_loop_eq ns _ _ _
          (by simp only [put, header_length]; omega) hloop
        have hp : (Chunk.packet ns).payloads = [bs] := by
          rw [hbs, if_pos ⟨rfl, hne⟩]
          cases ns with
          | nil => exact absurd rfl hne
          | cons n ns =>
            cases ns with
            | nil => exact absurd rfl (hns n)
            | cons m ns => rfl
        rw [hp]
        refine .single b vec bs rfl rfl rfl rfl rfl ?_ hroom
        simp only [put, next, header_length]
        omega
      · simp at h

theorem flush_built {b b' : RTPH264PacketBuilder} {tmp vec vec' : List Bytes}
    (h : b.flush tmp vec = (b', vec', true)) : Built b vec ((pending tmp).flatMap Chunk.payloads) b' vec' := by
  unfold flush at h
  unfold pending
  split at h
  · rename_i hlt
    rw [if_pos hlt, List.flatMap_singleton]
    exact build_packet_built (List.length_pos_iff.1 hlt) h
  · rename_i hlt
    obtain ⟨rfl, rfl, -⟩ : _ ∧ _ ∧ True := by simpa using h
    rw [if_neg hlt]
    exact .refl b vec

theorem receive_loop_built {b' : RTPH264PacketBuilder} {vec' : List Bytes} (nalus : List Bytes) :
    ∀ (b : RTPH264PacketBuilder) (vec tmp : List Bytes) (totalLen : Nat), (tmp = [] → totalLen = 0) →
      b.receive_loop vec tmp totalLen nalus = (b', vec', true) →
      Built b vec ((chunks tmp totalLen nalus).flatMap Chunk.payloads) b' vec' := by
  induction nalus with
  | nil => intro b vec tmp totalLen _ h; exact flush_built h
  | cons nalu rest ih =>
    intro b vec tmp totalLen ht h
    rw [receive_loop] at h
    rw [chunks]
    split at h
    · rename_i hlong
      rw [if_pos hlong]
      split at h
      · simp at h
      · rename_i b1 vec1 hflush
        split at h
        · simp at h
        · rename_i b2 vec2 hfua
          have hz : (if tmp.length > 0 then 0 else totalLen) = 0 := by
            cases tmp with
            | nil => simpa using ht rfl
            | cons _ _ => simp
          rw [hz] at h
          have := (build_fua_packet_built hfua).trans (ih b2 vec2 [] 0 (fun _ => rfl) h)
          simpa using (flush_built hflush).trans this
    · rename_i hlong
      rw [if_neg hlong]
      split at h
      · rename_i hfull
        rw [if_pos hfull]
        split at h
        · simp at h
        · rename_i b1 vec1 hflush
          rw [List.flatMap_append]
          exact (flush_built hflush).trans (ih b1 vec1 [nalu] _ (by simp) h)
      · rename_i hfull
        rw [if_neg hfull]
        exact ih b vec _ _ (by simp) h

/-- A successful call emits the payloads of the chunks. -/
theorem receive_rtp_packets_built {b b' : RTPH264PacketBuilder} {vec packets : List Bytes}
    (h : b.receive_rtp_packets vec = (b', packets, true)) :
    Built { b with m_current_pos := 0 } vec ((chunks [] 0 b.m_nalu_vec).flatMap Chunk.payloads) b' packets :=
  receive_loop_built _ _ _ _ _ (fun _ => rfl) h

/-- All packets of a call fit the buffer, but for two bytes. -/
theorem receive_rtp_packets_bytes {b b' : RTPH264PacketBuilder} {vec packets : List Bytes}
    (h : b.receive_rtp_packets vec = (b', packets, true)) :
    packetBytes ((chunks [] 0 b.m_nalu_vec).flatMap Chunk.payloads) ≤ RTP_PACKETS_BUFFER_SIZE + 2 := by
  have hb := receive_rtp_packets_built h
  have hr := hb.room (Nat.zero_le _)
  have hp := hb.pos
  simp only [Nat.zero_add] at hp
  omega

end RTPH264PacketBuilder

end RtcClient
