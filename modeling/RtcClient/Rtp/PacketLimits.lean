import RtcClient.Rtp.Packing
/-!
# How large packets get, and where they are written

Packets are meant to have at most `RTP_PACKET_SIZE` bytes and to be written into a
buffer of `RTP_PACKETS_BUFFER_SIZE`. Neither the grouping of NAL units nor the check in
front of each of them counts the bytes a STAP-A packet puts before a NAL unit. The
conditions under which both limits hold anyway are on the lengths of the NAL units
(`packets_le_iff`, `stays_inside_iff`). The builder has the buffer `init` gave it.
-/

namespace RtcClient

open Lib

/-! ## Sizes -/

/-- The bytes before a NAL unit in a STAP-A packet: its length, and for the first one the mark of the packet. -/
def stapa_overhead (isBegin : Bool) : Nat := if isBegin then 3 else 2

/-- The payload of a STAP-A packet. -/
def stapa_bytes (ns : List Bytes) : Nat := 1 + (ns.map (fun n => 2 + n.length)).sum

theorem length_flatMap_units (ns : List Bytes) :
    (ns.flatMap (fun n => be16 n.length ++ n)).length = (ns.map (fun n => 2 + n.length)).sum := by
  rw [List.length_flatMap]
  simp

theorem stapa_payload {ns : List Bytes} (h : 2 ≤ ns.length) :
    ∃ p, (Chunk.packet ns).payloads = [p] ∧ p.length = stapa_bytes ns := by
  match ns, h with
  | n :: m :: ns, _ =>
    refine ⟨_, rfl, ?_⟩
    rw [List.length_cons, length_flatMap_units, stapa_bytes, Nat.add_comm]

theorem fragments_le (fnri type : UInt8) (isStart : Bool) (body : Bytes) :
    ∀ p ∈ fragments fnri type isStart body, p.length ≤ RTP_PAYLOAD_SIZE := by
  have hsize : RTP_PAYLOAD_SIZE = 1372 := rfl
  fun_induction fragments fnri type isStart body with
  | case1 isStart body ih =>
    intro p hp
    rcases List.mem_cons.1 hp with rfl | hp
    · simp only [List.length_append, List.length_cons, List.length_nil, List.length_take]
      omega
    · split at hp
      · cases hp
      · exact ih ‹_› p hp

theorem le_stamp {ps : List Bytes} (ssrc timestamp : UInt32) (k : Nat) (sequence : UInt32) :
    (∀ q ∈ stamp ssrc timestamp sequence ps, q.length ≤ 28 + k) ↔ ∀ p ∈ ps, p.length ≤ k := by
  induction ps generalizing sequence with
  | nil => simp [stamp]
  | cons p ps ih =>
    simp only [stamp, List.forall_mem_cons, ih, List.length_append, packetHeader_length, Nat.add_le_add_iff_left]

/-- The NAL units that are grouped together fit one packet. -/
def GroupsFit (nalus : List Bytes) : Prop :=
  ∀ ns, Chunk.packet ns ∈ chunks [] 0 nalus → 2 ≤ ns.length → stapa_bytes ns ≤ RTP_PAYLOAD_SIZE

/-- A chunk's payloads are small but for groups of two and more. -/
theorem payloads_le {c : Chunk} (hc : c.Sized) :
    (∀ p ∈ c.payloads, p.length ≤ RTP_PAYLOAD_SIZE) ↔
      ∀ ns, c = .packet ns → 2 ≤ ns.length → stapa_bytes ns ≤ RTP_PAYLOAD_SIZE := by
  match c, hc with
  | .fua n, _ => exact ⟨fun _ ns h => (nomatch h), fun _ => fragments_le _ _ _ _⟩
  | .packet [], hc => exact absurd rfl hc.1
  | .packet [n], hc =>
    refine ⟨fun _ ns h hlen => ?_, fun _ p hp => ?_⟩
    · cases h
      simp at hlen
    · rw [Chunk.payloads, List.mem_singleton] at hp
      subst hp
      exact hc.2 p (by simp)
  | .packet (n :: m :: ns), _ =>
    obtain ⟨p, hp, hlen⟩ := stapa_payload (show 2 ≤ (n :: m :: ns).length by simp)
    rw [hp, List.forall_mem_singleton, hlen]
    refine ⟨fun h ns' he _ => ?_, fun h => h _ rfl (by simp)⟩
    cases he
    exact h

namespace RTPH264PacketBuilder

/-- The packets of a successful call keep to the packet size if and only if the groups fit. -/
theorem packets_le_iff {b b' : RTPH264PacketBuilder} {packets : List Bytes}
    (h : b.receive_rtp_packets [] = (b', packets, true)) :
    (∀ q ∈ packets, q.length ≤ RTP_PACKET_SIZE) ↔ GroupsFit b.m_nalu_vec := by
  have hb := receive_rtp_packets_built h
  have hsized := chunks_sized b.m_nalu_vec [] 0 (by simp)
  rw [hb.packets, List.nil_append, show RTP_PACKET_SIZE = 28 + RTP_PAYLOAD_SIZE from rfl, le_stamp]
  simp only [List.mem_flatMap]
  constructor
  · intro hle ns hns
    exact (payloads_le (hsized _ hns)).1 (fun p hp => hle p ⟨_, hns, hp⟩) ns rfl
  · rintro hfit p ⟨c, hc, hp⟩
    refine (payloads_le (hsized c hc)).2 ?_ p hp
    rintro ns rfl
    exact hfit ns hc

/-- Two NAL units of 700 and 672 bytes: together they are as long as a payload may be. -/
def two_units : RTPH264PacketBuilder :=
  { m_initialize := true, m_nalu_vec := [.replicate 700 65, .replicate 672 66] }

theorem two_units_too_long : (two_units.receive_rtp_packets []).2.2 = true ∧
    ¬ ∀ q ∈ (two_units.receive_rtp_packets []).2.1, q.length ≤ RTP_PACKET_SIZE := by
  decide +kernel

/-- Two short ones, which are sent in one packet of 35 bytes. -/
def short_units : RTPH264PacketBuilder := { m_initialize := true, m_nalu_vec := [[65], [66]] }

theorem short_units_le : (∀ q ∈ (short_units.receive_rtp_packets []).2.1, q.length ≤ RTP_PACKET_SIZE) ↔
    GroupsFit [[65], [66]] := by
  have h : short_units.receive_rtp_packets [] =
      ((short_units.receive_rtp_packets []).1, (short_units.receive_rtp_packets []).2.1, true) :=
    Prod.ext rfl (Prod.ext rfl (by decide +kernel))
  exact packets_le_iff h

/-! ## The run over the chunks -/

def build_chunk (b : RTPH264PacketBuilder) (packets : List Bytes) : Chunk → RTPH264PacketBuilder × List Bytes × Bool
  | .packet ns => b.build_packet ns packets
  | .fua n => b.build_fua_packet n packets

def run_chunks (b : RTPH264PacketBuilder) (packets : List Bytes) :
    List Chunk → RTPH264PacketBuilder × List Bytes × Bool
  | [] => (b, packets, true)
  | c :: cs =>
    match b.build_chunk packets c with
    | (b, packets, false) => (b, packets, false)
    | (b, packets, true) => run_chunks b packets cs

/-- The loop builds one chunk after the other. -/
theorem receive_loop_chunks (nalus : List Bytes) :
    ∀ (b : RTPH264PacketBuilder) (packets tmp : List Bytes) (totalLen : Nat), (tmp = [] → totalLen = 0) →
      b.receive_loop packets tmp totalLen nalus = b.run_chunks packets (chunks tmp totalLen nalus) := by
  -- what is pending comes first
  have hflush : ∀ (b : RTPH264PacketBuilder) (packets tmp : List Bytes) (cs : List Chunk),
      b.run_chunks packets (pending tmp ++ cs) =
        match b.flush tmp packets with
        | (b, packets, false) => (b, packets, false)
        | (b, packets, true) => run_chunks b packets cs := by
    intro b packets tmp cs
    unfold pending flush
    split <;> rfl
  induction nalus with
  | nil =>
    intro b packets tmp totalLen _
    have h := hflush b packets tmp []
    rw [List.append_nil] at h
    rw [chunks, h, receive_loop]
    generalize b.flush tmp packets = r
    obtain ⟨b1, packets1, ok⟩ := r
    cases ok <;> rfl
  | cons nalu rest ih =>
    intro b packets tmp totalLen ht
    rw [receive_loop, chunks]
    split
    · rw [hflush]
      generalize b.flush tmp packets = r
      obtain ⟨b1, packets1, ok⟩ := r
      cases ok with
      | false => rfl
      | true =>
        have hz : (if tmp.length > 0 then 0 else totalLen) = 0 := by
          cases tmp with
          | nil => simpa using ht rfl
          | cons _ _ => simp
        rw [hz]
        dsimp only
        rw [run_chunks, build_chunk]
        generalize b1.build_fua_packet nalu packets1 = r
        obtain ⟨b2, packets2, ok⟩ := r
        cases ok with
        | false => rfl
        | true => exact ih b2 packets2 [] 0 (fun _ => rfl)
    · split
      · rw [hflush]
        generalize b.flush tmp packets = r
        obtain ⟨b1, packets1, ok⟩ := r
        cases ok with
        | false => rfl
        | true => exact ih b1 packets1 [nalu] _ (by simp)
      · exact ih b packets _ _ (by simp)

/-! ## Where a run writes -/

/-- The position and all writes so far are inside the buffer. A position is where a write ended. -/
structure Inside (b : RTPH264PacketBuilder) : Prop where
  pos : b.m_current_pos ≤ RTP_PACKETS_BUFFER_SIZE
  writes : ∀ w ∈ b.writes, w.1 + w.2 ≤ RTP_PACKETS_BUFFER_SIZE

theorem inside_put {b : RTPH264PacketBuilder} {bs : Bytes} :
    Inside (b.put bs) ↔ Inside b ∧ b.m_current_pos + bs.length ≤ RTP_PACKETS_BUFFER_SIZE := by
  constructor
  · rintro ⟨hpos, hwrites⟩
    simp only [put] at hpos hwrites
    refine ⟨⟨by omega, fun w hw => hwrites w (by simp [hw])⟩, hpos⟩
  · rintro ⟨⟨hpos, hwrites⟩, h⟩
    refine ⟨h, fun w hw => ?_⟩
    rcases List.mem_append.1 hw with hw | hw
    · exact hwrites w hw
    · rw [List.mem_singleton] at hw
      subst hw
      exact h

theorem inside_next {b : RTPH264PacketBuilder} : Inside b.next ↔ Inside b :=
  ⟨fun h => ⟨h.pos, h.writes⟩, fun h => ⟨h.pos, h.writes⟩⟩

/-- A write that was checked keeps the run inside. -/
theorem inside_put_iff {b : RTPH264PacketBuilder} {bs : Bytes}
    (h : b.m_current_pos + bs.length ≤ RTP_PACKETS_BUFFER_SIZE) : Inside (b.put bs) ↔ Inside b :=
  inside_put.trans (and_iff_left h)

@[simp] theorem put_pos (b : RTPH264PacketBuilder) (bs : Bytes) :
    (b.put bs).m_current_pos = b.m_current_pos + bs.length := rfl

@[simp] theorem next_pos (b : RTPH264PacketBuilder) : b.next.m_current_pos = b.m_current_pos := rfl

/-- Writes one behind the other, of which the last was checked. -/
theorem inside_round {b : RTPH264PacketBuilder} {fu body : Bytes}
    (h : b.m_current_pos + 28 + fu.length + body.length ≤ RTP_PACKETS_BUFFER_SIZE) :
    Inside (((b.put b.header).put fu).put body).next ↔ Inside b := by
  rw [inside_next, inside_put_iff, inside_put_iff, inside_put_iff] <;> simp only [put_pos, header_length] <;> omega

/-- Fragments are written inside the buffer, and are given up only when they do not fit. -/
theorem fua_loop_inside (fnri type : UInt8) (data : Bytes) :
    ∀ (b : RTPH264PacketBuilder) (leftLen : Nat) (isStart : Bool) (packets : List Bytes), leftLen ≤ data.length →
      (Inside (b.fua_loop fnri type data leftLen isStart packets).1 ↔ Inside b) ∧
        ((b.fua_loop fnri type data leftLen isStart packets).2.2 = false →
          RTP_PACKETS_BUFFER_SIZE ≤
            b.m_current_pos + packetBytes (fragments fnri type isStart (data.drop (data.length - leftLen)))) := by
  intro b leftLen isStart packets hl
  have hbody : ∀ leftLen ≤ data.length,
      ((data.drop (data.length - leftLen)).take (copy_len leftLen)).length = copy_len leftLen := by
    intro leftLen hl
    have := copy_len_eq leftLen
    rw [List.length_take, List.length_drop]
    omega
  fun_induction fua_loop b fnri type data leftLen isStart packets with
  | case1 b leftLen isStart packets h1 =>
    -- no room for the headers
    refine ⟨Iff.rfl, fun _ => ?_⟩
    rw [fragments_loop fnri type isStart hl, packetBytes_cons]
    simp only [sizeofRTPHeader, sizeofRTPExtensionHeader] at h1
    omega
  | case2 b leftLen isStart packets h1 hd b1 h2 =>
    simp only [sizeofRTPHeader, sizeofRTPExtensionHeader, b1, put_pos, hd, header_length] at h1 h2
    -- room for the headers only
    refine ⟨inside_put_iff (by rw [header_length]; omega), fun _ => ?_⟩
    rw [fragments_loop fnri type isStart hl, packetBytes_cons]
    simp only [List.length_append, List.length_cons]
    omega
  | case3 b leftLen isStart packets h1 hd b1 h2 copyLen fu b2 h3 =>
    simp only [sizeofRTPHeader, sizeofRTPExtensionHeader, b1, b2, put_pos, hd, header_length, fu, List.length_cons,
      List.length_nil] at h1 h2 h3
    -- room for the fragment header, but not for its bytes
    refine ⟨?_, fun _ => ?_⟩
    · refine (inside_put_iff ?_).trans (inside_put_iff ?_)
      · simp only [b1, put_pos, hd, header_length, fu, List.length_cons, List.length_nil]
        omega
      · rw [header_length]
        omega
    · rw [fragments_loop fnri type isStart hl, packetBytes_cons]
      simp only [List.length_append, List.length_cons, hbody leftLen hl]
      omega
  | case4 b leftLen isStart packets h1 hd b1 h2 copyLen fu b2 h3 body b3 packets1 hdone =>
    simp only [b1, b2, put_pos, hd, header_length] at h3
    refine ⟨inside_round ?_, fun h => by cases h⟩
    rw [hbody leftLen hl]
    omega
  | case5 b leftLen isStart packets h1 hd b1 h2 copyLen fu b2 h3 body b3 packets1 hmore ih =>
    simp only [b1, b2, put_pos, hd, header_length] at h3
    have hlen := hbody leftLen hl
    obtain ⟨hinside, hfull⟩ := ih (by omega)
    refine ⟨hinside.trans (inside_round ?_), fun h => ?_⟩
    · rw [hlen]
      omega
    · have hend := hfull h
      have hpos : b3.m_current_pos = b.m_current_pos + 28 + fu.length + copyLen := by
        simp only [b3, b2, b1, next_pos, put_pos, hd, header_length, body]
        rw [hlen]
      rw [fragments_loop fnri type isStart hl, if_neg hmore, packetBytes_cons, List.length_append, hlen]
      simp only [fu, copyLen, List.length_cons, List.length_nil] at hpos hend ⊢
      omega

/-! ## STAP-A packets -/

/-- Written from `pos` on, no NAL unit that passes its check runs over the end of the buffer. -/
def stapa_clear (pos : Nat) (isBegin : Bool) : List Bytes → Prop
  | [] => True
  | n :: ns =>
    (pos + n.length < RTP_PACKETS_BUFFER_SIZE → pos + stapa_overhead isBegin + n.length ≤ RTP_PACKETS_BUFFER_SIZE) ∧
      stapa_clear (pos + stapa_overhead isBegin + n.length) false ns

/-- No NAL unit passes the check at the end of the buffer. -/
theorem stapa_clear_end {pos : Nat} (h : RTP_PACKETS_BUFFER_SIZE ≤ pos) (isBegin : Bool) (ns : List Bytes) :
    stapa_clear pos isBegin ns := by
  induction ns generalizing pos isBegin with
  | nil => trivial
  | cons n ns ih => exact ⟨fun hlt => by omega, ih (by omega) false⟩

theorem length_stapa_unit (isBegin : Bool) (n : Bytes) :
    ((if isBegin then [0x18] else [] : Bytes) ++ be16 n.length ++ n).length = stapa_overhead isBegin + n.length := by
  cases isBegin
  · simp [stapa_overhead]
  · simp [stapa_overhead]
    omega

theorem inside_of_stapa_loop (ns : List Bytes) :
    ∀ (b : RTPH264PacketBuilder) (packet : Bytes) (isBegin : Bool),
      Inside (b.stapa_loop packet isBegin ns).1 → Inside b := by
  induction ns with
  | nil => intro b packet isBegin h; exact h
  | cons n ns ih =>
    intro b packet isBegin h
    rw [stapa_loop] at h
    split at h
    · exact (inside_put.1 (ih _ _ _ h)).1
    · exact h

/-- A STAP-A packet is given up only when it does not fit. -/
theorem stapa_loop_inside (ns : List Bytes) :
    ∀ (b : RTPH264PacketBuilder) (packet : Bytes) (isBegin : Bool), Inside b →
      (Inside (b.stapa_loop packet isBegin ns).1 ↔ stapa_clear b.m_current_pos isBegin ns) ∧
        ((b.stapa_loop packet isBegin ns).2.2 = false →
          RTP_PACKETS_BUFFER_SIZE ≤
            b.m_current_pos + (stapa_overhead isBegin - 2) + (ns.map (fun n => 2 + n.length)).sum) := by
  induction ns with
  | nil => intro b packet isBegin hb; exact ⟨iff_of_true hb trivial, fun h => by cases h⟩
  | cons n ns ih =>
    intro b packet isBegin hb
    have hunit := length_stapa_unit isBegin n
    have htwo : 2 ≤ stapa_overhead isBegin := by cases isBegin <;> decide
    rw [stapa_loop, List.map_cons, List.sum_cons]
    dsimp only
    generalize hbs : (if isBegin then [0x18] else [] : Bytes) ++ be16 n.length ++ n = bs at hunit
    have hput := put_pos b bs
    split
    · rename_i hlt
      -- the check passed, and it counts the bytes of the unit but not those in front of them
      by_cases hfit : b.m_current_pos + stapa_overhead isBegin + n.length ≤ RTP_PACKETS_BUFFER_SIZE
      · obtain ⟨hinside, hfull⟩ := ih (b.put bs) (packet ++ bs) false (inside_put.2 ⟨hb, by omega⟩)
        refine ⟨?_, fun h => ?_⟩
        · rw [hinside, hput, hunit, ← Nat.add_assoc]
          exact (and_iff_right fun _ => hfit).symm
        · have hend := hfull h
          have hlater : stapa_overhead false = 2 := rfl
          omega
      · refine ⟨iff_of_false ?_ ?_, fun h => ?_⟩
        · intro h
          have := (inside_put.1 (inside_of_stapa_loop _ _ _ _ h)).2
          omega
        · exact fun h => hfit (h.1 hlt)
        · omega
    · rename_i hlt
      -- the check failed: nothing is written here or later
      refine ⟨iff_of_true hb ⟨fun h => absurd h hlt, stapa_clear_end (by omega) _ _⟩, fun _ => ?_⟩
      omega

/-! ## Whole runs -/

/-- Written from `pos` on, the chunk does not run over the end of the buffer: a STAP-A packet might, behind its
headers. -/
def chunk_clear (pos : Nat) : Chunk → Prop
  | .packet ns => 2 ≤ ns.length → stapa_clear (pos + 28) true ns
  | .fua _ => True

/-- No chunk runs over the end of the buffer where the bytes of those before it put it. -/
def run_clear (pos : Nat) : List Chunk → Prop
  | [] => True
  | c :: cs => chunk_clear pos c ∧ run_clear (pos + packetBytes c.payloads) cs

theorem run_clear_end {pos : Nat} (h : RTP_PACKETS_BUFFER_SIZE ≤ pos) (cs : List Chunk) : run_clear pos cs := by
  induction cs generalizing pos with
  | nil => trivial
  | cons c cs ih =>
    refine ⟨?_, ih (by omega)⟩
    match c with
    | .packet ns => exact fun _ => stapa_clear_end (by omega) true ns
    | .fua _ => trivial

theorem payloads_room {c : Chunk} : 28 ≤ packetBytes c.payloads := by
  have hne := c.payloads_ne_nil
  generalize c.payloads = ps at hne
  cases ps with
  | nil => exact absurd rfl hne
  | cons p ps =>
    rw [packetBytes_cons]
    omega

/-- What building `c` does to a run inside the buffer: it stays inside exactly if `c` is clear, and `c` is given up only
when it does not fit. -/
structure Keeps (b : RTPH264PacketBuilder) (c : Chunk) (r : RTPH264PacketBuilder × List Bytes × Bool) : Prop where
  before : Inside r.1 → Inside b
  clear : Inside b → (Inside r.1 ↔ chunk_clear b.m_current_pos c)
  full : Inside b → r.2.2 = false → RTP_PACKETS_BUFFER_SIZE ≤ b.m_current_pos + packetBytes c.payloads

theorem build_fua_packet_keeps (b : RTPH264PacketBuilder) (packets : List Bytes) (n : Bytes) :
    Keeps b (.fua n) (b.build_fua_packet n packets) := by
  obtain ⟨hinside, hfull⟩ := fua_loop_inside (n.headD 0 &&& 0xE0) (n.headD 0 &&& 0x1F) n.tail b n.tail.length true
    packets (le_refl _)
  rw [Nat.sub_self, List.drop_zero] at hfull
  exact ⟨hinside.1, fun hb => hinside.trans (iff_of_true hb trivial), fun _ => hfull⟩

/-- A packet whose headers do not fit is not begun. -/
theorem build_packet_headers {b : RTPH264PacketBuilder} (packets ns : List Bytes)
    (h : RTP_PACKETS_BUFFER_SIZE ≤ b.m_current_pos + 28) : Keeps b (.packet ns) (b.build_packet ns packets) := by
  have hrun : b.build_packet ns packets = (b, packets, false) := by
    unfold build_packet
    exact if_pos h
  rw [hrun]
  have hroom := payloads_room (c := .packet ns)
  exact ⟨id, fun hb => iff_of_true hb (fun _ => stapa_clear_end h true ns), fun _ _ => by omega⟩

theorem build_packet_single {b : RTPH264PacketBuilder} (packets : List Bytes) (n : Bytes)
    (h : b.m_current_pos + 28 < RTP_PACKETS_BUFFER_SIZE) : Keeps b (.packet [n]) (b.build_packet [n] packets) := by
  have hcheck : ¬ b.m_current_pos + (sizeofRTPHeader + sizeofRTPExtensionHeader) ≥ RTP_PACKETS_BUFFER_SIZE :=
    Nat.not_le.2 h
  have hheader : Inside (b.put b.header) ↔ Inside b := inside_put_iff (by rw [header_length]; omega)
  have hclear : chunk_clear b.m_current_pos (.packet [n]) := fun h => absurd h (by simp)
  unfold build_packet
  rw [if_neg hcheck]
  dsimp only
  split
  · rename_i hlt
    rw [put_pos, header_length] at hlt
    have hinside : Inside ((b.put b.header).put n).next ↔ Inside b := by
      rw [inside_next, inside_put_iff, hheader]
      rw [put_pos, header_length]
      omega
    exact ⟨hinside.1, fun hb => hinside.trans (iff_of_true hb hclear), fun _ h => by cases h⟩
  · rename_i hlt
    rw [put_pos, header_length] at hlt
    refine ⟨hheader.1, fun hb => hheader.trans (iff_of_true hb hclear), fun _ _ => ?_⟩
    rw [Chunk.payloads, packetBytes_cons]
    omega

theorem build_packet_stapa {b : RTPH264PacketBuilder} (packets : List Bytes) {ns : List Bytes} (hns : 2 ≤ ns.length)
    (h : b.m_current_pos + 28 < RTP_PACKETS_BUFFER_SIZE) : Keeps b (.packet ns) (b.build_packet ns packets) := by
  have hcheck : ¬ b.m_current_pos + (sizeofRTPHeader + sizeofRTPExtensionHeader) ≥ RTP_PACKETS_BUFFER_SIZE :=
    Nat.not_le.2 h
  have hheader : Inside (b.put b.header) ↔ Inside b := inside_put_iff (by rw [header_length]; omega)
  have hpos : (b.put b.header).m_current_pos = b.m_current_pos + 28 := rfl
  have hbefore := inside_of_stapa_loop ns (b.put b.header) b.header true
  have hloop := stapa_loop_inside ns (b.put b.header) b.header true
  obtain ⟨p, hpayloads, hlen⟩ := stapa_payload hns
  have hbytes : packetBytes (Chunk.packet ns).payloads = 28 + stapa_bytes ns := by
    rw [hpayloads, packetBytes_cons, hlen, packetBytes_nil]
    rfl
  unfold build_packet
  rw [if_neg hcheck]
  dsimp only
  split
  · simp at hns
  · generalize (b.put b.header).stapa_loop b.header true ns = r at hbefore hloop
    obtain ⟨b1, packet, ok⟩ := r
    dsimp only at hbefore hloop
    -- the headers are inside as the run was, so only the loop can leave the buffer
    have hkeeps : ∀ b2 : RTPH264PacketBuilder, (Inside b2 ↔ Inside b1) → Inside b →
        (Inside b2 ↔ chunk_clear b.m_current_pos (.packet ns)) := by
      intro b2 h2 hb
      rw [h2, (hloop (hheader.2 hb)).1, hpos]
      exact (imp_iff_right hns).symm
    cases ok with
    | true =>
      exact ⟨fun h => hheader.1 (hbefore (inside_next.1 h)), hkeeps _ inside_next, fun _ h => by cases h⟩
    | false =>
      refine ⟨fun h => hheader.1 (hbefore h), hkeeps _ Iff.rfl, fun hb _ => ?_⟩
      have hend := (hloop (hheader.2 hb)).2 rfl
      rw [hbytes, stapa_bytes]
      simp only [hpos, stapa_overhead, if_true] at hend
      omega

theorem build_chunk_keeps (b : RTPH264PacketBuilder) (packets : List Bytes) {c : Chunk} (hc : c.Sized) :
    Keeps b c (b.build_chunk packets c) := by
  match c, hc with
  | .fua n, _ => exact build_fua_packet_keeps b packets n
  | .packet ns, hc =>
    by_cases h : b.m_current_pos + 28 < RTP_PACKETS_BUFFER_SIZE
    · by_cases hns : 2 ≤ ns.length
      · exact build_packet_stapa packets hns h
      · have hpos := List.length_pos_iff.2 hc.1
        obtain ⟨n, rfl⟩ : ∃ n, ns = [n] := List.length_eq_one_iff.1 (by omega)
        exact build_packet_single packets n h
    · exact build_packet_headers packets ns (Nat.not_lt.1 h)

theorem build_chunk_built {b b' : RTPH264PacketBuilder} {packets packets' : List Bytes} {c : Chunk} (hc : c.Sized)
    (h : b.build_chunk packets c = (b', packets', true)) : Built b packets c.payloads b' packets' := by
  match c, hc with
  | .fua n, _ => exact build_fua_packet_built h
  | .packet ns, hc => exact build_packet_built hc.1 h

theorem inside_of_run_chunks {cs : List Chunk} (hcs : ∀ c ∈ cs, c.Sized) {b : RTPH264PacketBuilder}
    {packets : List Bytes} (h : Inside (b.run_chunks packets cs).1) : Inside b := by
  induction cs generalizing b packets with
  | nil => exact h
  | cons c cs ih =>
    have hkeeps := build_chunk_keeps b packets (hcs c (by simp))
    rw [run_chunks] at h
    generalize b.build_chunk packets c = r at h hkeeps
    obtain ⟨b1, packets1, ok⟩ := r
    cases ok with
    | false => exact hkeeps.before h
    | true => exact hkeeps.before (ih (fun c hc => hcs c (by simp [hc])) h)

/-- A run over chunks stays inside the buffer if and only if its chunks are clear. -/
theorem run_chunks_inside {cs : List Chunk} (hcs : ∀ c ∈ cs, c.Sized) {b : RTPH264PacketBuilder}
    {packets : List Bytes} (hb : Inside b) :
    Inside (b.run_chunks packets cs).1 ↔ run_clear b.m_current_pos cs := by
  induction cs generalizing b packets with
  | nil => exact iff_of_true hb trivial
  | cons c cs ih =>
    have hlater : ∀ c ∈ cs, c.Sized := fun c hc => hcs c (by simp [hc])
    have hkeeps := build_chunk_keeps b packets (hcs c (by simp))
    have hbuilt : ∀ b' packets', b.build_chunk packets c = (b', packets', true) →
        b'.m_current_pos = b.m_current_pos + packetBytes c.payloads :=
      fun b' packets' h => (build_chunk_built (hcs c (by simp)) h).pos
    rw [run_chunks, run_clear]
    generalize b.build_chunk packets c = r at hkeeps hbuilt
    obtain ⟨b1, packets1, ok⟩ := r
    cases ok with
    | false => exact (hkeeps.clear hb).trans (iff_self_and.2 fun _ => run_clear_end (hkeeps.full hb rfl) cs)
    | true =>
      rw [← hbuilt b1 packets1 rfl, ← hkeeps.clear hb]
      constructor
      · intro h
        have hb1 : Inside b1 := inside_of_run_chunks hlater h
        exact ⟨hb1, (ih hlater hb1).1 h⟩
      · rintro ⟨hb1, h⟩
        exact (ih hlater hb1).2 h

/-- Every byte a call writes is a byte of the buffer, and its position does not pass the buffer's end. -/
def StaysInside (b : RTPH264PacketBuilder) : Prop :=
  let r := ({ b with writes := [] }.receive_rtp_packets []).1
  (∀ w ∈ r.writes, (∀ k < w.2, w.1 + k < RTP_PACKETS_BUFFER_SIZE) ∧ w.1 + w.2 ≤ RTP_PACKETS_BUFFER_SIZE) ∧
    r.m_current_pos ≤ RTP_PACKETS_BUFFER_SIZE

theorem stays_inside_run (b : RTPH264PacketBuilder) :
    StaysInside b ↔
      Inside (run_chunks { b with m_current_pos := 0, writes := [] } [] (chunks [] 0 b.m_nalu_vec)).1 := by
  rw [← receive_loop_chunks _ _ _ _ _ (fun _ => rfl)]
  constructor
  · rintro ⟨hwrites, hpos⟩
    exact ⟨hpos, fun w hw => (hwrites w hw).2⟩
  · rintro ⟨hpos, hwrites⟩
    exact ⟨fun w hw => ⟨fun k hk => by have := hwrites w hw; omega, hwrites w hw⟩, hpos⟩

theorem inside_start (b : RTPH264PacketBuilder) : Inside { b with m_current_pos := 0, writes := [] } :=
  ⟨Nat.zero_le _, by simp⟩

/-- A call stays inside the buffer if and only if no STAP-A packet passes its checks at the end of it. -/
theorem stays_inside_iff (b : RTPH264PacketBuilder) :
    StaysInside b ↔ run_clear 0 (chunks [] 0 b.m_nalu_vec) :=
  (stays_inside_run b).trans (run_chunks_inside (chunks_sized _ _ _ (by simp)) (inside_start b))

/-! ## Calls that succeed -/

/-- NAL units that fit do not run over the end. -/
theorem stapa_clear_of_fits {pos : Nat} (isBegin : Bool) {ns : List Bytes}
    (h : pos + (stapa_overhead isBegin - 2) + (ns.map (fun n => 2 + n.length)).sum ≤ RTP_PACKETS_BUFFER_SIZE) :
    stapa_clear pos isBegin ns := by
  induction ns generalizing pos isBegin with
  | nil => trivial
  | cons n ns ih =>
    rw [List.map_cons, List.sum_cons] at h
    have htwo : 2 ≤ stapa_overhead isBegin := by cases isBegin <;> decide
    have hlater : stapa_overhead false = 2 := rfl
    exact ⟨fun _ => by omega, ih false (by omega)⟩

theorem chunk_clear_of_fits {pos : Nat} {c : Chunk} (h : pos + packetBytes c.payloads ≤ RTP_PACKETS_BUFFER_SIZE) :
    chunk_clear pos c := by
  cases c with
  | fua n => trivial
  | packet ns =>
    intro hns
    obtain ⟨p, hpayloads, hlen⟩ := stapa_payload hns
    rw [hpayloads, packetBytes_cons, hlen, packetBytes_nil, stapa_bytes] at h
    apply stapa_clear_of_fits
    have hfirst : stapa_overhead true = 3 := rfl
    omega

/-- Chunks that fit the buffer are all built. -/
theorem run_chunks_true {cs : List Chunk} (hcs : ∀ c ∈ cs, c.Sized) {b : RTPH264PacketBuilder} {packets : List Bytes}
    (hb : Inside b) (h : b.m_current_pos + packetBytes (cs.flatMap Chunk.payloads) < RTP_PACKETS_BUFFER_SIZE) :
    (b.run_chunks packets cs).2.2 = true := by
  induction cs generalizing b packets with
  | nil => rfl
  | cons c cs ih =>
    rw [List.flatMap_cons, packetBytes_append] at h
    have hkeeps := build_chunk_keeps b packets (hcs c (by simp))
    have hbuilt : ∀ b' packets', b.build_chunk packets c = (b', packets', true) →
        b'.m_current_pos = b.m_current_pos + packetBytes c.payloads :=
      fun b' packets' h => (build_chunk_built (hcs c (by simp)) h).pos
    rw [run_chunks]
    generalize b.build_chunk packets c = r at hkeeps hbuilt
    obtain ⟨b1, packets1, ok⟩ := r
    cases ok with
    | false =>
      have hfull := hkeeps.full hb rfl
      omega
    | true =>
      have hb1 : Inside b1 := (hkeeps.clear hb).2 (chunk_clear_of_fits (by omega))
      have hpos := hbuilt b1 packets1 rfl
      exact ih (fun c hc => hcs c (by simp [hc])) hb1 (by omega)

/-- A call succeeds if its packets fit the buffer. -/
theorem receive_rtp_packets_true {b : RTPH264PacketBuilder} (packets : List Bytes)
    (hb : Inside { b with m_current_pos := 0 })
    (h : packetBytes ((chunks [] 0 b.m_nalu_vec).flatMap Chunk.payloads) < RTP_PACKETS_BUFFER_SIZE) :
    (b.receive_rtp_packets packets).2.2 = true := by
  rw [receive_rtp_packets, receive_loop_chunks _ _ _ _ _ (fun _ => rfl)]
  apply run_chunks_true (chunks_sized _ _ _ (by simp)) hb
  rwa [Nat.zero_add]

/-! ## A buffer that is left -/

/-- The bytes a series of fragments takes. -/
theorem packetBytes_fragments (fnri type : UInt8) (isStart : Bool) (body : Bytes) (h : body ≠ []) :
    packetBytes (fragments fnri type isStart body) = body.length + 30 * ((body.length + 1369) / 1370) := by
  have hpos := List.length_pos_iff.2 h
  fun_induction fragments fnri type isStart body with
  | case1 isStart body ih =>
    rw [packetBytes_cons, List.length_append, List.length_take]
    simp only [List.length_cons, List.length_nil]
    split
    · rw [packetBytes_nil]
      omega
    · rename_i hlong
      have hrest : 0 < (body.drop 1370).length := by rw [List.length_drop]; omega
      rw [ih hlong (List.length_pos_iff.1 hrest) hrest, List.length_drop]
      omega

/-- A key frame whose fragments leave 30 bytes of the buffer, and two more NAL units. -/
def full_buffer : RTPH264PacketBuilder :=
  { m_initialize := true, m_nalu_vec := [.replicate 256475 101, [65], [66]] }

/-- The first of the two small NAL units is written two bytes over the end. -/
theorem full_buffer_leaves : ¬ StaysInside full_buffer := by
  rw [stays_inside_run, run_chunks_inside (chunks_sized _ _ _ (by simp)) (inside_start _)]
  have hlong : (List.replicate 256475 101 : Bytes).length > RTP_PAYLOAD_SIZE := by
    rw [List.length_replicate]
    decide
  have hchunks : chunks [] 0 full_buffer.m_nalu_vec = [.fua (.replicate 256475 101), .packet [[65], [66]]] := by
    rw [full_buffer, chunks, if_pos hlong]
    rfl
  have hbody : (List.replicate 256475 101 : Bytes).tail.length = 256474 := by
    rw [List.length_tail, List.length_replicate]
  have hbytes : packetBytes (Chunk.fua (.replicate 256475 101)).payloads = 262114 := by
    rw [Chunk.payloads, packetBytes_fragments _ _ _ _ (List.length_pos_iff.1 (by rw [hbody]; decide)), hbody]
  rw [hchunks, run_clear, run_clear, hbytes]
  rintro ⟨-, hpacket, -⟩
  exact absurd ((hpacket (by decide)).1 (by decide)) (by decide)

end RTPH264PacketBuilder

end RtcClient
