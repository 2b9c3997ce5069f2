import Mathlib.Data.List.Forall2
import RtcClient.Rtp.Packing
import RtcClient.Rtp.Reassembly
/-!
# The assembler undoes the builder

Pushing the packets of one chunk gives the chunk's NAL units, each behind a start
code, after the last packet and not before: `chunk_delivered`.
-/

namespace RtcClient

open Lib

namespace RTPH264FrameAssembler

/-- The packet's payload is `p`. -/
structure Carries (q : RTPPacket) (p : Bytes) : Prop where
  bytes : q.m_payload.bytes = p
  len : q.m_payload_len = p.length

theorem Carries.get {q : RTPPacket} {p : Bytes} (h : Carries q p) {i : Nat} (hi : i < p.length) :
    q.m_payload.get i = p[i] := by
  obtain ⟨rfl, -⟩ := h
  exact Buffer.get_of_lt _ hi

theorem Carries.read {q : RTPPacket} {p : Bytes} (h : Carries q p) (off : Nat) :
    q.m_payload.read off (q.m_payload_len - off) = p.drop off := by
  obtain ⟨hb, hl⟩ := h
  by_cases ho : off ≤ p.length
  · rw [Buffer.read_eq _ (by rw [hb, hl]; omega), hb, hl]
    exact List.take_of_length_le (by rw [List.length_drop])
  · rw [hl, List.drop_of_length_le (by omega), Nat.sub_eq_zero_of_le (by omega)]
    rfl

theorem single_kind_iff {q : RTPPacket} {h : UInt8} {t : Bytes} (hq : Carries q (h :: t)) :
    q.kind = .single ↔ h &&& 0x1F ≤ 23 := by
  have hget : q.m_payload.get 0 = h := hq.get (by simp)
  simp only [RTPPacket.kind, hget, hq.len, List.length_cons]
  rw [if_neg (by omega)]
  split_ifs with ht <;> simp [ht]

theorem stapA_kind {q : RTPPacket} {t : Bytes} (hq : Carries q (0x18 :: t)) : q.kind = .stapA := by
  have hget : q.m_payload.get 0 = 0x18 := hq.get (by simp)
  simp only [RTPPacket.kind, hget, hq.len, List.length_cons]
  rw [if_neg (by omega)]
  rfl

/-- Both start codes are start codes of the stream. -/
theorem start_code_eq (b : Buffer) (i : Nat) : ∃ long, start_code b i = startCode long := by
  unfold start_code
  split
  · exact ⟨false, rfl⟩
  · exact ⟨true, rfl⟩

/-- Only two bytes decide on the start code. -/
theorem start_code_congr {b b' : Buffer} {i j : Nat} (h : ∀ k < 2, b.get (i + k) = b'.get (j + k)) :
    start_code b i = start_code b' j := by
  have h0 := h 0 (by decide)
  rw [Nat.add_zero, Nat.add_zero] at h0
  unfold start_code
  rw [h0, h 1 (by decide)]

/-- The assembler shows `bs` after the last of the packets, and nothing before. -/
structure Delivered (a : RTPH264FrameAssembler) (qs : List RTPPacket) (bs : Bytes) (a' : RTPH264FrameAssembler) :
    Prop where
  split : ∃ first last, qs = first ++ [last] ∧ (∀ r ∈ trace push_packet a first, r.2 = false) ∧
    push_packet (final push_packet a first) last = (a', true)
  ready : Ready a'
  shown : a'.frame = bs
  used : a'.m_buffer_used_len = bs.length

section
variable {a : RTPH264FrameAssembler}

theorem Delivered.single {q : RTPPacket} {bs : Bytes} {a' : RTPH264FrameAssembler} (hr : Ready a)
    (h : a.push_packet q = (a', true)) (hf : a'.frame = bs) (hu : a'.m_buffer_used_len = bs.length) :
    Delivered a [q] bs a' where
  split := ⟨[], q, rfl, by simp, h⟩
  ready := by have := push_ready hr q; rwa [h] at this
  shown := hf
  used := hu

/-- A packet that completes nothing may come first. -/
theorem Delivered.cons {q : RTPPacket} {qs : List RTPPacket} {bs : Bytes} {a1 a' : RTPH264FrameAssembler}
    (hq : a.push_packet q = (a1, false)) (h : Delivered a1 qs bs a') : Delivered a (q :: qs) bs a' where
  split := by
    obtain ⟨first, last, rfl, hf, hl⟩ := h.split
    refine ⟨q :: first, last, rfl, ?_, by rw [final_cons, hq]; exact hl⟩
    intro r hr
    rw [trace_cons, hq] at hr
    rcases List.mem_cons.1 hr with rfl | hr
    · rfl
    · exact hf r hr
  ready := h.ready
  shown := h.shown
  used := h.used

/-! ## Single NAL units -/

theorem single_nalu_frame (hr : Ready a) {q : RTPPacket} {n : Bytes} (hq : Carries q n)
    (hl : (start_code q.m_payload 0 ++ n).length ≤ ASSEMBLER_BUFFER_SIZE) :
    ∃ a', a.single_nalu q.m_payload q.m_payload_len = (a', true) ∧ a'.frame = start_code q.m_payload 0 ++ n ∧
      a'.m_buffer_used_len = (start_code q.m_payload 0 ++ n).length := by
  have hread : q.m_payload.read 0 q.m_payload_len = n := by simpa using hq.read 0
  have hmod : (q.m_payload_len + (start_code q.m_payload 0).length) % 2 ^ 64 =
      (start_code q.m_payload 0 ++ n).length := by
    rw [hq.len, Nat.add_comm, ← List.length_append]
    simp only [ASSEMBLER_BUFFER_SIZE] at hl
    omega
  generalize hcode : start_code q.m_payload 0 = code at hl hmod
  refine ⟨_, by simp only [single_nalu, hcode, hmod, hread]; rw [if_neg (by omega)], ?_, rfl⟩
  have h0 := hr.used (code ++ n).length
  have h1 := h0.copy 0 code
  have e1 := copy_take h0 0 code (by rw [List.length_append] at hl; omega)
  have e2 := copy_take h1 code.length n (by rwa [List.length_append] at hl)
  rw [Nat.zero_add, List.take_zero, List.nil_append] at e1
  rw [e1, ← List.length_append] at e2
  exact e2

/-- A NAL unit alone in a packet. -/
theorem single_delivered (hr : Ready a) {q : RTPPacket} {n : Bytes} (hq : Carries q n) (hn : IsNalu n)
    (hl : n.length + 4 ≤ ASSEMBLER_BUFFER_SIZE) : ∃ a' long, Delivered a [q] (startCode long ++ n) a' := by
  obtain ⟨h, t, rfl, -, ht⟩ := hn.type
  have hk := (single_kind_iff hq).2 ht
  have hcode := start_code_length q.m_payload 0
  obtain ⟨a', hpush, hframe, hused⟩ := single_nalu_frame hr hq (by rw [List.length_append]; omega)
  obtain ⟨long, hlong⟩ := start_code_eq q.m_payload 0
  rw [hlong] at hframe hused
  exact ⟨a', long, .single hr (by rw [push_eq hr.init, hk]; exact hpush) hframe hused⟩

/-! ## STAP-A -/

/-- NAL units with their lengths, as a STAP-A packet has them. -/
def lengthPrefixed (ns : List Bytes) : Bytes := ns.flatMap (fun n => be16 n.length ++ n)

@[simp] theorem lengthPrefixed_cons (n : Bytes) (ns : List Bytes) :
    lengthPrefixed (n :: ns) = be16 n.length ++ (n ++ lengthPrefixed ns) := by
  simp [lengthPrefixed]

/-- What the loop does with one NAL unit: its start code, then its bytes. -/
def append_unit (a : RTPH264FrameAssembler) (u : Bool × Bytes) : RTPH264FrameAssembler :=
  (a.append (startCode u.1)).append u.2

/-- The loop appends the NAL units `ns` one by one, then checks the length. The start code of a NAL unit
of two or more bytes depends on no byte behind it. -/
theorem stapa_loop_units (beyond : Bytes) (ns : List Bytes) :
    ∀ (a : RTPH264FrameAssembler) (pre : Bytes), (∀ n ∈ ns, n ≠ [] ∧ n.length < 65536) →
      ∃ us : List (Bool × Bytes), us.map (·.2) = ns ∧
        (∀ u ∈ us, 2 ≤ u.2.length → startCode u.1 = start_code ⟨u.2, []⟩ 0) ∧
        a.stapa_loop ⟨pre ++ lengthPrefixed ns, beyond⟩ pre.length (lengthPrefixed ns).length =
          if (us.foldl append_unit a).m_buffer_used_len > ASSEMBLER_BUFFER_SIZE then
            ({ us.foldl append_unit a with m_buffer_used_len := 0 }, false)
          else (us.foldl append_unit a, true) := by
  induction ns with
  | nil =>
    intro a pre _
    refine ⟨[], rfl, by simp, ?_⟩
    unfold stapa_loop
    rw [if_neg (by simp [lengthPrefixed])]
    rfl
  | cons n ns ih =>
    intro a pre hns
    obtain ⟨hn0, hn⟩ := hns n (by simp)
    have hpos := List.length_pos_iff.2 hn0
    obtain ⟨long, hcode⟩ := start_code_eq ⟨pre ++ lengthPrefixed (n :: ns), beyond⟩ (pre.length + 2)
    have hlen : (lengthPrefixed (n :: ns)).length = 2 + (n.length + (lengthPrefixed ns).length) := by
      rw [lengthPrefixed_cons, List.length_append, List.length_append, be16_length]
    have hget : Buffer.get16 ⟨pre ++ lengthPrefixed (n :: ns), beyond⟩ pre.length = n.length := by
      have h0 := get_append_right pre (lengthPrefixed (n :: ns)) beyond 0
      have h1 := get_append_right pre (lengthPrefixed (n :: ns)) beyond 1
      rw [Nat.add_zero] at h0
      rw [Buffer.get16, h0, h1, lengthPrefixed_cons]
      exact (nat16_be16 n.length).trans (Nat.mod_eq_of_lt hn)
    have hread : Buffer.read ⟨pre ++ lengthPrefixed (n :: ns), beyond⟩ (pre.length + 2) n.length = n := by
      rw [Buffer.read_eq _ (by simp only [List.length_append, hlen]; omega), lengthPrefixed_cons, ← List.append_assoc]
      have e : pre.length + 2 = (pre ++ be16 n.length).length := by simp
      rw [e, List.drop_left, List.take_left]
    have hown : 2 ≤ n.length → startCode long = start_code ⟨n, []⟩ 0 := by
      intro h2
      rw [← hcode]
      refine start_code_congr (fun i hi => ?_)
      have hright := get_append_right (pre ++ be16 n.length) (n ++ lengthPrefixed ns) beyond i
      rw [List.append_assoc, ← lengthPrefixed_cons, List.length_append, be16_length] at hright
      rw [Nat.zero_add, hright, get_append_left n _ _ (by omega), Buffer.get_of_lt _ (by exact Nat.lt_of_lt_of_le hi h2)]
    obtain ⟨us, hus, hcodes, hloop⟩ := ih ((a.append (startCode long)).append n) (pre ++ be16 n.length ++ n)
      (fun m hm => hns m (by simp [hm]))
    refine ⟨(long, n) :: us, by rw [List.map_cons, hus], List.forall_mem_cons.2 ⟨hown, hcodes⟩, ?_⟩
    have e1 : pre ++ be16 n.length ++ n ++ lengthPrefixed ns = pre ++ lengthPrefixed (n :: ns) := by simp
    have e2 : (pre ++ be16 n.length ++ n).length = pre.length + 2 + n.length := by simp; omega
    have e3 : ((lengthPrefixed (n :: ns)).length : Int) - 2 - n.length = (lengthPrefixed ns).length := by omega
    rw [e1, e2] at hloop
    unfold stapa_loop
    rw [if_pos (by omega)]
    simp only [hget, hcode, hread]
    rw [if_pos (by omega), e3]
    exact hloop

theorem units_used (us : List (Bool × Bytes)) (a : RTPH264FrameAssembler)
    (h : a.m_buffer_used_len + (annexB us).length < 2 ^ 64) :
    (us.foldl append_unit a).m_buffer_used_len = a.m_buffer_used_len + (annexB us).length := by
  induction us generalizing a with
  | nil => rfl
  | cons u us ih =>
    obtain ⟨long, n⟩ := u
    rw [annexB_cons, List.length_append, List.length_append] at h ⊢
    have hu : (a.append_unit (long, n)).m_buffer_used_len =
        a.m_buffer_used_len + (startCode long).length + n.length := by
      simp only [append_unit, append]
      omega
    rw [List.foldl_cons, ih _ (by rw [hu]; omega), hu]
    omega

/-- NAL units that fit are shown behind what was shown before. -/
theorem units_frame (us : List (Bool × Bytes)) {a : RTPH264FrameAssembler} (hr : Ready a)
    (h : a.m_buffer_used_len + (annexB us).length ≤ ASSEMBLER_BUFFER_SIZE) :
    Ready (us.foldl append_unit a) ∧ (us.foldl append_unit a).frame = a.frame ++ annexB us := by
  induction us generalizing a with
  | nil => exact ⟨hr, (List.append_nil _).symm⟩
  | cons u us ih =>
    obtain ⟨long, n⟩ := u
    rw [annexB_cons, List.length_append, List.length_append] at h
    have h1 : a.m_buffer_used_len + (startCode long).length ≤ ASSEMBLER_BUFFER_SIZE := by omega
    have hu1 := append_used a h1
    have h2 : (a.append (startCode long)).m_buffer_used_len + n.length ≤ ASSEMBLER_BUFFER_SIZE := by omega
    have hu2 := append_used _ h2
    have hr1 := hr.append (startCode long)
    have hrest : (a.append_unit (long, n)).m_buffer_used_len + (annexB us).length ≤ ASSEMBLER_BUFFER_SIZE := by
      rw [append_unit, hu2, hu1]
      omega
    obtain ⟨hr', hframe⟩ := ih (hr1.append n) hrest
    refine ⟨hr', ?_⟩
    rw [frame_append hr1 h2, frame_append hr h1, List.append_assoc, List.append_assoc] at hframe
    rw [annexB_cons]
    exact hframe

theorem annexB_length_le (us : List (Bool × Bytes)) :
    (annexB us).length ≤ 2 * (lengthPrefixed (us.map (·.2))).length := by
  induction us with
  | nil => simp [lengthPrefixed]
  | cons u us ih =>
    obtain ⟨long, n⟩ := u
    have hlen := startCode_length long
    simp only [List.map_cons, annexB_cons, lengthPrefixed_cons, List.length_append, be16_length]
    split at hlen <;> omega

/-- A STAP-A packet completes a frame if it fits, and the frame is its NAL units. -/
theorem push_stapa (hr : Ready a) {q : RTPPacket} {header : UInt8} {ns : List Bytes} (hk : q.kind = .stapA)
    (hq : Carries q (header :: lengthPrefixed ns)) (hns : ∀ n ∈ ns, n ≠ [] ∧ n.length < 65536)
    (hlen : (lengthPrefixed ns).length < 2 ^ 31) :
    ∃ us : List (Bool × Bytes), us.map (·.2) = ns ∧
      (∀ u ∈ us, 2 ≤ u.2.length → startCode u.1 = start_code ⟨u.2, []⟩ 0) ∧
      ((annexB us).length ≤ ASSEMBLER_BUFFER_SIZE →
        ∃ a', a.push_packet q = (a', true) ∧ a'.frame = annexB us ∧ a'.m_buffer_used_len = (annexB us).length) ∧
      (ASSEMBLER_BUFFER_SIZE < (annexB us).length → (a.push_packet q).2 = false) := by
  have hadv : q.m_payload.advance 1 = ⟨[] ++ lengthPrefixed ns, q.m_payload.beyond⟩ := by
    rw [Buffer.advance, hq.bytes]
    simp
  have hlen' : q.m_payload_len - 1 = (lengthPrefixed ns).length := by rw [hq.len, List.length_cons]; rfl
  obtain ⟨us, hus, hcodes, hloop⟩ := stapa_loop_units q.m_payload.beyond ns { a with m_buffer_used_len := 0 } [] hns
  have hle := annexB_length_le us
  rw [hus] at hle
  have hused := units_used us { a with m_buffer_used_len := 0 } (by dsimp only; omega)
  rw [Nat.zero_add] at hused
  rw [hused] at hloop
  have hpush : a.push_packet q = stapa_loop { a with m_buffer_used_len := 0 }
      ⟨[] ++ lengthPrefixed ns, q.m_payload.beyond⟩ 0 (lengthPrefixed ns).length := by
    rw [push_eq hr.init, hk]
    simp only [get_stapa_frame, hadv, hlen']
    rw [int32_of_lt hlen]
  rw [List.length_nil] at hloop
  refine ⟨us, hus, hcodes, fun hfit => ?_, fun hover => ?_⟩
  · obtain ⟨-, hframe⟩ := units_frame us (hr.used 0) (by dsimp only; omega)
    refine ⟨_, hpush.trans (hloop.trans (if_neg (Nat.not_lt.2 hfit))), ?_, hused⟩
    rw [hframe]
    simp [frame]
  · rw [hpush, hloop, if_pos hover]

/-- A STAP-A packet. -/
theorem stapa_delivered (hr : Ready a) {q : RTPPacket} {ns : List Bytes} (hq : Carries q (0x18 :: lengthPrefixed ns))
    (hns : ∀ n ∈ ns, n ≠ [] ∧ n.length < 65536) (hl : 2 * (lengthPrefixed ns).length ≤ ASSEMBLER_BUFFER_SIZE) :
    ∃ a' us, us.map (·.2) = ns ∧ Delivered a [q] (annexB us) a' := by
  have hk := stapA_kind hq
  obtain ⟨us, hus, -, hfits, -⟩ := push_stapa hr hk hq hns (by simp only [ASSEMBLER_BUFFER_SIZE] at hl; omega)
  have hle := annexB_length_le us
  rw [hus] at hle
  obtain ⟨a', hpush, hframe, hused⟩ := hfits (Nat.le_trans hle hl)
  exact ⟨a', us, hus, .single hr hpush hframe hused⟩

/-! ## FU-A -/

theorem indicator_type : ∀ h : UInt8, ((h &&& 0xE0) ||| 0x1c) &&& 0x1F = 28 := forall_byte (by decide +kernel)

theorem start_bits : ∀ h : UInt8, (0x80 ||| (h &&& 0x1F)) >>> 7 ≠ 0 := forall_byte (by decide +kernel)

theorem end_bits : ∀ h : UInt8, (0x40 ||| (h &&& 0x1F)) >>> 7 = 0 ∧ (0x40 ||| (h &&& 0x1F)) &&& 0x40 ≠ 0 :=
  forall_byte (by decide +kernel)

theorem middle_bits : ∀ h : UInt8, (0x00 ||| (h &&& 0x1F)) >>> 7 = 0 ∧ (0x00 ||| (h &&& 0x1F)) &&& 0x40 = 0 :=
  forall_byte (by decide +kernel)

/-- Indicator and start header together give the NAL unit's header back. -/
theorem header_bits : ∀ h : UInt8,
    (((h &&& 0xE0) ||| 0x1c) &&& 0xe0) ||| ((0x80 ||| (h &&& 0x1F)) &&& 0x1f) = h :=
  forall_byte (by decide +kernel)

/-- What the assembler sees in a fragment of the builder. -/
theorem fragment_kind {q : RTPPacket} {h fu : UInt8} {piece : Bytes}
    (hq : Carries q ([(h &&& 0xE0) ||| 0x1c, fu] ++ piece)) (hp : piece ≠ [])
    (hl : piece.length + 2 ≤ ASSEMBLER_BUFFER_SIZE) :
    (q.kind = if fu >>> 7 ≠ 0 then .first else if fu &&& 0x40 ≠ 0 then .last else .middle) ∧ q.body = piece := by
  have hpos := List.length_pos_iff.2 hp
  have h0 : q.m_payload.get 0 = (h &&& 0xE0) ||| 0x1c := hq.get (by simp)
  have h1 : q.m_payload.get 1 = fu := hq.get (by simp)
  have hlen : q.m_payload_len = piece.length + 2 := by rw [hq.len]; simp
  refine ⟨?_, hq.read 2⟩
  have hs : ¬ (28 : UInt8) ≤ 23 := by decide
  have h24 : ¬ (28 : UInt8) = 24 := by decide
  have hne : ¬ q.m_payload_len = 0 := by omega
  have hok : ¬ (q.m_payload_len < 3 ∨ q.m_payload_len > ASSEMBLER_BUFFER_SIZE) := by omega
  simp only [RTPPacket.kind, h0, h1, indicator_type, hne, hs, h24, hok, if_false, if_true]

/-- The fragments after the first. -/
theorem rest_delivered (h : UInt8) (body : Bytes) :
    ∀ (a : RTPH264FrameAssembler) (qs : List RTPPacket), Ready a → body ≠ [] →
      a.m_buffer_used_len = a.frame.length → a.m_buffer_used_len + body.length ≤ ASSEMBLER_BUFFER_SIZE →
      List.Forall₂ Carries qs (fragments (h &&& 0xE0) (h &&& 0x1F) false body) →
      ∃ a', Delivered a qs (a.frame ++ body) a' := by
  induction hk : body.length using Nat.strongRecOn generalizing body with
  | ind k ih =>
    intro a qs hr hb hu hl hqs
    rw [fragments] at hqs
    have hpos := List.length_pos_iff.2 hb
    by_cases hlast : body.length ≤ 1370
    · -- The last fragment.
      simp only [hlast, if_true, Bool.false_eq_true, if_false] at hqs
      rw [List.take_of_length_le hlast] at hqs
      obtain ⟨q, rest, hq, hrest, rfl⟩ := List.forall₂_cons_right_iff.1 hqs
      obtain rfl := List.forall₂_nil_right_iff.1 hrest
      obtain ⟨hkind, hbody⟩ := fragment_kind hq hb (by simp only [ASSEMBLER_BUFFER_SIZE]; omega)
      obtain ⟨e1, e2⟩ := end_bits h
      rw [if_neg (fun hc => hc e1), if_pos e2] at hkind
      refine ⟨a.append body, .single hr ?_ (frame_append hr (by omega)) ?_⟩
      · rw [push_eq hr.init, hkind, hbody]
      · rw [append_used a (by omega), List.length_append]; omega
    · simp only [hlast, if_false, Bool.false_eq_true] at hqs
      obtain ⟨q, rest, hq, hrest, rfl⟩ := List.forall₂_cons_right_iff.1 hqs
      have hpiece : (body.take 1370).length = 1370 := by rw [List.length_take]; omega
      have hdrop : (body.drop 1370).length = body.length - 1370 := List.length_drop
      obtain ⟨hkind, hbody⟩ := fragment_kind hq (by rw [← List.length_pos_iff]; omega)
        (by simp only [ASSEMBLER_BUFFER_SIZE]; omega)
      obtain ⟨e1, e2⟩ := middle_bits h
      rw [if_neg (fun hc => hc e1), if_neg (fun hc => hc e2)] at hkind
      have hfit : a.m_buffer_used_len + (body.take 1370).length ≤ ASSEMBLER_BUFFER_SIZE := by omega
      have hframe := frame_append hr hfit
      have hused := append_used a hfit
      obtain ⟨a', hd⟩ := ih (body.drop 1370).length (by omega) (body.drop 1370) rfl (a.append (body.take 1370)) rest
        (hr.append _) (by rw [← List.length_pos_iff]; omega) (by rw [hused, hframe, List.length_append]; omega)
        (by omega) hrest
      refine ⟨a', .cons (by rw [push_eq hr.init, hkind, hbody]) ?_⟩
      rwa [hframe, List.append_assoc, List.take_append_drop] at hd

/-- A NAL unit in fragments. -/
theorem fua_delivered (hr : Ready a) {qs : List RTPPacket} {n : Bytes} (hlong : RTP_PAYLOAD_SIZE < n.length)
    (hl : n.length + 4 ≤ ASSEMBLER_BUFFER_SIZE) (hqs : List.Forall₂ Carries qs (Chunk.fua n).payloads) :
    ∃ a' long, Delivered a qs (startCode long ++ n) a' := by
  have hbig : 1372 < n.length := hlong
  obtain ⟨h, t, rfl⟩ : ∃ h t, n = h :: t := List.exists_cons_of_ne_nil (by rw [← List.length_pos_iff]; omega)
  rw [List.length_cons] at hbig hl
  have hmore : ¬ t.length ≤ 1370 := by omega
  simp only [Chunk.payloads, List.headD_cons, List.tail_cons] at hqs
  rw [fragments] at hqs
  simp only [if_true, if_neg hmore] at hqs
  obtain ⟨q, rest, hq, hrest, rfl⟩ := List.forall₂_cons_right_iff.1 hqs
  have hpiece : (t.take 1370).length = 1370 := by rw [List.length_take]; omega
  have hdrop : (t.drop 1370).length = t.length - 1370 := List.length_drop
  obtain ⟨hkind, hbody⟩ := fragment_kind hq (by rw [← List.length_pos_iff]; omega)
    (by simp only [ASSEMBLER_BUFFER_SIZE]; omega)
  rw [if_pos (start_bits h)] at hkind
  obtain ⟨long, hcode⟩ := start_code_eq q.m_payload 2
  have hclen := startCode_length long
  have hc4 : (startCode long).length ≤ 4 := by split at hclen <;> omega
  have hheader : q.nalHeader = h := by
    have h0 : q.m_payload.get 0 = (h &&& 0xE0) ||| 0x1c := hq.get (by simp)
    have h1 : q.m_payload.get 1 = 0x80 ||| (h &&& 0x1F) := hq.get (by simp)
    rw [RTPPacket.nalHeader, h0, h1]
    exact header_bits h
  have hopen : q.opening = startCode long ++ h :: t.take 1370 := by
    rw [RTPPacket.opening, hcode, hheader, hbody]; simp
  have holen : q.opening.length = (startCode long).length + 1371 := by
    rw [hopen, List.length_append, List.length_cons, hpiece]
  have hframe := frame_openAt hr (p := q) (by omega)
  have hused := openAt_used a q
  have hr1 : Ready (a.openAt q) := by
    have := push_ready hr q
    rwa [push_eq hr.init, hkind] at this
  obtain ⟨a', hd⟩ := rest_delivered h (t.drop 1370) (a.openAt q) rest hr1 (by rw [← List.length_pos_iff]; omega)
    (by rw [hused, hframe]) (by omega) hrest
  refine ⟨a', long, .cons (by rw [push_eq hr.init, hkind]) ?_⟩
  rwa [hframe, hopen, List.append_assoc, List.cons_append, List.take_append_drop] at hd

/-! ## A chunk -/

theorem fragments_bytes (fnri type : UInt8) (isStart : Bool) (body : Bytes) :
    body.length + 30 ≤ packetBytes (fragments fnri type isStart body) := by
  fun_induction fragments fnri type isStart body with
  | case1 isStart body ih =>
    simp only [packetBytes_cons, List.length_append, List.length_cons, List.length_nil, List.length_take]
    by_cases hl : body.length ≤ 1370
    · omega
    · have := ih hl
      rw [if_neg hl]
      rw [List.length_drop] at this
      omega

/-- A chunk as the builder makes it, small enough for the receiver. -/
def ChunkFits : Chunk → Prop
  | .packet ns => ns ≠ [] ∧ (∀ n ∈ ns, IsNalu n ∧ n.length ≤ RTP_PAYLOAD_SIZE) ∧
      packetBytes (Chunk.packet ns).payloads ≤ RTP_RECV_BUFFER_SIZE
  | .fua n => RTP_PAYLOAD_SIZE < n.length ∧ packetBytes (Chunk.fua n).payloads ≤ RTP_PACKETS_BUFFER_SIZE + 2

/-- The packets of a chunk deliver its NAL units. -/
theorem chunk_delivered (hr : Ready a) {c : Chunk} (hc : ChunkFits c) {qs : List RTPPacket}
    (hqs : List.Forall₂ Carries qs c.payloads) :
    ∃ a' us, us.map (·.2) = c.nalus ∧ (annexB us).length ≤ 2 * packetBytes c.payloads ∧
      Delivered a qs (annexB us) a' := by
  cases c with
  | fua n =>
    obtain ⟨hlong, hbytes⟩ := hc
    have hbig : 1372 < n.length := hlong
    have hfrag := fragments_bytes (n.headD 0 &&& 0xE0) (n.headD 0 &&& 0x1F) true n.tail
    rw [List.length_tail] at hfrag
    simp only [Chunk.payloads, RTP_PACKETS_BUFFER_SIZE] at hbytes hfrag
    obtain ⟨a', long, hd⟩ := fua_delivered hr hlong (by simp only [ASSEMBLER_BUFFER_SIZE]; omega) hqs
    have hclen := startCode_length long
    refine ⟨a', [(long, n)], rfl, ?_, by simpa using hd⟩
    simp only [Chunk.payloads, annexB_cons, annexB_nil, List.append_nil, List.length_append]
    split at hclen <;> omega
  | packet ns =>
    obtain ⟨hne, hns, hbytes⟩ := hc
    cases ns with
    | nil => exact absurd rfl hne
    | cons n ns =>
      cases ns with
      | nil =>
        obtain ⟨hn, hsmall⟩ := hns n (by simp)
        have hsmall' : n.length ≤ 1372 := hsmall
        obtain ⟨q, rest, hq, hrest, rfl⟩ := List.forall₂_cons_right_iff.1 hqs
        obtain rfl := List.forall₂_nil_right_iff.1 hrest
        obtain ⟨a', long, hd⟩ := single_delivered hr hq hn (by simp only [ASSEMBLER_BUFFER_SIZE]; omega)
        have hclen := startCode_length long
        refine ⟨a', [(long, n)], rfl, ?_, by simpa using hd⟩
        simp only [Chunk.payloads, annexB_cons, annexB_nil, List.append_nil, List.length_append, packetBytes_cons]
        split at hclen <;> omega
      | cons m ns =>
        have hp : (Chunk.packet (n :: m :: ns)).payloads = [0x18 :: lengthPrefixed (n :: m :: ns)] := rfl
        rw [hp] at hqs hbytes ⊢
        rw [packetBytes_cons, List.length_cons, packetBytes_nil] at hbytes
        simp only [RTP_RECV_BUFFER_SIZE] at hbytes
        obtain ⟨q, rest, hq, hrest, rfl⟩ := List.forall₂_cons_right_iff.1 hqs
        obtain rfl := List.forall₂_nil_right_iff.1 hrest
        have hsmall : ∀ k ∈ n :: m :: ns, k ≠ [] ∧ k.length < 65536 := by
          intro k hk
          obtain ⟨hk1, hk2⟩ := hns k hk
          have : k.length ≤ 1372 := hk2
          exact ⟨hk1.ne_nil, by omega⟩
        obtain ⟨a', us, hus, hd⟩ := stapa_delivered hr hq hsmall (by simp only [ASSEMBLER_BUFFER_SIZE]; omega)
        have hle := annexB_length_le us
        refine ⟨a', us, hus, ?_, hd⟩
        rw [hus] at hle
        rw [packetBytes_cons, List.length_cons]
        omega

end

end RTPH264FrameAssembler

end RtcClient
