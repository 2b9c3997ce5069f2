import RtcClient.Rtp.FrameAssembler
/-!
# The assembler over whole runs

Two properties of every run of `push_packet`: how far the copies reach, and what
the frame is when the last fragment of a NAL unit has come.
-/

namespace RtcClient

open Lib

namespace RTPH264FrameAssembler

/-! ## Copies stay inside the buffer -/

/-- The used part and every copy so far are inside the buffer. -/
structure Bounded (a : RTPH264FrameAssembler) : Prop where
  used : a.m_buffer_used_len ≤ ASSEMBLER_BUFFER_SIZE
  copies : ∀ c ∈ a.copies, ∀ i < c.2, c.1 + i < ASSEMBLER_BUFFER_SIZE

/-- A fragment that is not the first fits behind the used part. -/
def Fits (a : RTPH264FrameAssembler) (p : RTPPacket) : Prop :=
  p.kind = .middle ∨ p.kind = .last → a.m_buffer_used_len + (p.m_payload_len - 2) ≤ ASSEMBLER_BUFFER_SIZE

section
variable {a : RTPH264FrameAssembler}

theorem Bounded.copy (h : Bounded a) {off : Nat} {bs : Bytes} (hl : off + bs.length ≤ ASSEMBLER_BUFFER_SIZE) :
    Bounded (a.copy off bs) := by
  refine ⟨h.used, ?_⟩
  intro c hc i hi
  rcases List.mem_append.1 hc with hc | hc
  · exact h.copies c hc i hi
  · rw [List.mem_singleton] at hc
    subst hc
    simp only at hi ⊢
    omega

theorem Bounded.setUsed (h : Bounded a) {n : Nat} (hn : n ≤ ASSEMBLER_BUFFER_SIZE) :
    Bounded { a with m_buffer_used_len := n } := ⟨hn, h.copies⟩

theorem append_used (a : RTPH264FrameAssembler) {bs : Bytes}
    (h : a.m_buffer_used_len + bs.length ≤ ASSEMBLER_BUFFER_SIZE) :
    (a.append bs).m_buffer_used_len = a.m_buffer_used_len + bs.length := by
  simp only [append, ASSEMBLER_BUFFER_SIZE] at *
  omega

theorem Bounded.append (h : Bounded a) {bs : Bytes}
    (hl : a.m_buffer_used_len + bs.length ≤ ASSEMBLER_BUFFER_SIZE) : Bounded (a.append bs) :=
  ⟨by rw [append_used a hl]; exact hl, (h.copy hl).copies⟩

/-- Each NAL unit takes at most twice its part of the packet. -/
theorem stapa_loop_bounded (data : Buffer) (src : Nat) (srcLen : Int) :
    ∀ a : RTPH264FrameAssembler, Bounded a → a.m_buffer_used_len + 2 * srcLen.toNat ≤ ASSEMBLER_BUFFER_SIZE →
      Bounded (a.stapa_loop data src srcLen).1 := by
  intro a h hl
  fun_induction stapa_loop a data src srcLen with
  | case1 a src srcLen hgt nalSize hle ih =>
    have hc := start_code_length data (src + 2)
    have h1 : a.m_buffer_used_len + (start_code data (src + 2)).length ≤ ASSEMBLER_BUFFER_SIZE := by omega
    have hu := append_used a h1
    have h2 : (a.append (start_code data (src + 2))).m_buffer_used_len + (data.read (src + 2) nalSize).length ≤
        ASSEMBLER_BUFFER_SIZE := by
      rw [hu, Buffer.read_length]; omega
    refine ih ((h.append h1).append h2) ?_
    rw [append_used _ h2, hu, Buffer.read_length]
    omega
  | case2 => exact h.setUsed (Nat.zero_le _)
  | case3 => exact h.setUsed (Nat.zero_le _)
  | case4 => exact h

theorem append_bounded_iff (h : Bounded a) (bs : Bytes) (hl : bs.length ≤ 2048) :
    Bounded (a.append bs) ↔ a.m_buffer_used_len + bs.length ≤ ASSEMBLER_BUFFER_SIZE := by
  refine ⟨fun hb => ?_, h.append⟩
  have hu := hb.used
  have hu' := h.used
  simp only [append, ASSEMBLER_BUFFER_SIZE] at *
  omega

/-- A push keeps the bound exactly if it `Fits`. -/
theorem push_bounded_iff (hr : Ready a) {p : RTPPacket} (hp : p.m_payload_len ≤ RTP_RECV_BUFFER_SIZE) (h : Bounded a) :
    Bounded (a.push_packet p).1 ↔ Fits a p := by
  rw [push_eq hr.init, Fits]
  have hp' : p.m_payload_len ≤ 2048 := hp
  have happend := append_bounded_iff h p.body (by simp; omega)
  rw [RTPPacket.body_length] at happend
  cases p.kind with
  | empty => simp [h]
  | single =>
    simp only [reduceCtorEq, or_self, false_implies, iff_true, single_nalu]
    have hc := start_code_length p.m_payload 0
    split
    · exact h.setUsed (Nat.zero_le _)
    · refine ((h.setUsed (by omega)).copy ?_).copy ?_
      · simp only [ASSEMBLER_BUFFER_SIZE]; omega
      · simp only [Buffer.read_length, ASSEMBLER_BUFFER_SIZE]; omega
  | stapA =>
    simp only [reduceCtorEq, or_self, false_implies, iff_true, get_stapa_frame]
    refine stapa_loop_bounded _ _ _ _ (h.setUsed (Nat.zero_le _)) ?_
    rw [int32_of_lt (by omega)]
    simp only [ASSEMBLER_BUFFER_SIZE]
    omega
  | malformed => simpa using h.setUsed (Nat.zero_le _)
  | first =>
    simp only [reduceCtorEq, or_self, false_implies, iff_true]
    have hc := start_code_length p.m_payload 2
    refine (((h.setUsed ?_).copy ?_).copy ?_).copy ?_ <;>
      simp only [RTPPacket.body_length, List.length_singleton, ASSEMBLER_BUFFER_SIZE] <;> omega
  | middle => simpa using happend
  | last => simpa using happend
  | unknown => simp [h]

end

/-- For packets no longer than the receiver's buffer, the assembler stays inside
its buffer exactly as long as each fragment that is not a first one fits behind
what is used. -/
theorem bounded_iff (memory : Block ASSEMBLER_BUFFER_SIZE) (packets : List RTPPacket)
    (hl : ∀ p ∈ packets, p.m_payload_len ≤ RTP_RECV_BUFFER_SIZE) :
    (∀ pre post, packets = pre ++ post → Bounded (after memory pre)) ↔
      Along push_packet Fits (started memory) packets := by
  have h0 : Bounded (started memory) := ⟨Nat.zero_le _, by simp [started, init]⟩
  exact along_iff push_packet Bounded Ready (fun p => p.m_payload_len ≤ RTP_RECV_BUFFER_SIZE)
    (fun _ p h => push_ready h p) (fun _ _ hr hp hb => push_bounded_iff hr hp hb) (started_ready memory) h0 packets hl

/-- Two fragments of one NAL unit. -/
def twoFragments : List RTPPacket :=
  [{ RTPPacket.reset with m_payload := ⟨[0x7c, 0x85, 1, 2], []⟩, m_payload_len := 4 },
    { RTPPacket.reset with m_payload := ⟨[0x7c, 0x45, 3], []⟩, m_payload_len := 3 }]

theorem bounded_two : Bounded (after (.zeros _) twoFragments) :=
  (bounded_iff (.zeros _) twoFragments (by decide)).2 ⟨fun _ => by decide, fun _ => by decide, trivial⟩ _ []
    (List.append_nil _).symm

theorem final_middles {p : RTPPacket} (hp : p.kind = .middle) (k : Nat) :
    ∀ a : RTPH264FrameAssembler, Ready a → a.m_buffer_used_len < 2 ^ 64 →
      (final push_packet a (.replicate k p)).m_buffer_used_len =
        (a.m_buffer_used_len + k * (p.m_payload_len - 2)) % 2 ^ 64 := by
  induction k with
  | zero =>
    intro a _ h
    rw [List.replicate_zero, final_nil, Nat.zero_mul, Nat.add_zero]
    exact (Nat.mod_eq_of_lt h).symm
  | succ k ih =>
    intro a hr h
    have he : (a.push_packet p).1 = a.append p.body := by rw [push_eq hr.init, hp]
    rw [List.replicate_succ, final_cons, ih _ (push_ready hr p), he]
    · simp only [append, RTPPacket.body_length, Nat.succ_mul]
      omega
    · rw [he]; exact Nat.mod_lt _ (by decide)

/-- A fragment with neither start nor end bit that fills the receiver's buffer. -/
def middleFragment : RTPPacket :=
  { RTPPacket.reset with m_payload := ⟨[0x7c, 0x05] ++ .replicate 2046 0, []⟩, m_payload_len := 2048 }

/-- 129 such fragments are more than the buffer holds. -/
theorem middles_overflow :
    (∀ p ∈ List.replicate 129 middleFragment, p.m_payload_len ≤ RTP_RECV_BUFFER_SIZE) ∧
      ¬ Bounded (after (.zeros _) (.replicate 129 middleFragment)) := by
  refine ⟨fun p hp => by rw [List.eq_of_mem_replicate hp]; decide, fun h => ?_⟩
  have hu := final_middles (p := middleFragment) (by decide) 129 _ (started_ready (.zeros _)) (by decide)
  have := h.used
  rw [after, hu] at this
  exact absurd this (by decide)

/-! ## Fragments of one NAL unit -/

/-- How many bytes of an unfinished NAL unit have come: a first fragment starts
one, a middle fragment adds its body, and no other packet may come in between. -/
def collect (c : Option Nat) (p : RTPPacket) : Option Nat :=
  match p.kind with
  | .first => some p.opening.length
  | .middle => c.map (· + p.body.length)
  | _ => none

def collected (packets : List RTPPacket) : Option Nat := packets.foldl collect none

/-- The frame shown after `p` is the NAL unit of the fragments that came since the
last first fragment, none of which completed a frame. -/
def Reassembled (memory : Block ASSEMBLER_BUFFER_SIZE) (pre : List RTPPacket) (p : RTPPacket) : Prop :=
  ∃ before first middles, pre = before ++ first :: middles ∧ first.kind = .first ∧ (∀ m ∈ middles, m.kind = .middle) ∧
    ((after memory pre).push_packet p).1.frame = first.opening ++ middles.flatMap RTPPacket.body ++ p.body ∧
    ∀ r ∈ trace push_packet (after memory before) (first :: middles), r.2 = false

/-- Every FU-A packet with the end bit for which `push_packet` returns true gives the
NAL unit of its fragments. -/
def AllReassembled (memory : Block ASSEMBLER_BUFFER_SIZE) (packets : List RTPPacket) : Prop :=
  ∀ pre p post, packets = pre ++ p :: post → p.m_payload.get 0 &&& 0x1F = 28 → p.m_payload.get 1 &&& 0x40 ≠ 0 →
    ((after memory pre).push_packet p).2 = true → Reassembled memory pre p

theorem after_concat (memory : Block ASSEMBLER_BUFFER_SIZE) (packets : List RTPPacket) (p : RTPPacket) :
    after memory (packets ++ [p]) = ((after memory packets).push_packet p).1 := by
  rw [after, final_append]; rfl

section
variable {a : RTPH264FrameAssembler}

theorem frame_append (hr : Ready a) {bs : Bytes} (hl : a.m_buffer_used_len + bs.length ≤ ASSEMBLER_BUFFER_SIZE) :
    (a.append bs).frame = a.frame ++ bs := by
  rw [frame, append_used a hl]
  exact splice_take _ _ _ (by rw [hr.size]; exact hl)

theorem openAt_used (a : RTPH264FrameAssembler) (p : RTPPacket) :
    (a.openAt p).m_buffer_used_len = p.opening.length := by
  simp only [openAt, copy, RTPPacket.opening, List.length_append, List.length_singleton, RTPPacket.body_length]

theorem copy_take (hr : Ready a) (off : Nat) (bs : Bytes) (hl : off + bs.length ≤ ASSEMBLER_BUFFER_SIZE) :
    (a.copy off bs).m_buffer.take (off + bs.length) = a.m_buffer.take off ++ bs :=
  splice_take _ _ _ (by rw [hr.size]; exact hl)

theorem frame_openAt (hr : Ready a) {p : RTPPacket} (hl : p.opening.length ≤ ASSEMBLER_BUFFER_SIZE) :
    (a.openAt p).frame = p.opening := by
  rw [frame, openAt_used]
  simp only [RTPPacket.opening, List.length_append, List.length_singleton] at hl ⊢
  have h0 := hr.used ((start_code p.m_payload 2).length + 1 + (p.m_payload_len - 2))
  have h1 := h0.copy 0 (start_code p.m_payload 2)
  have h2 := h1.copy (start_code p.m_payload 2).length [p.nalHeader]
  have e1 := copy_take h0 0 (start_code p.m_payload 2) (by omega)
  have e2 := copy_take h1 (start_code p.m_payload 2).length [p.nalHeader] (by simp; omega)
  have e3 := copy_take h2 ((start_code p.m_payload 2).length + 1) p.body (by omega)
  rw [List.length_singleton] at e2
  rw [Nat.zero_add, List.take_zero, List.nil_append] at e1
  rw [e1] at e2
  rw [e2] at e3
  exact e3

/-- Middle fragments that fit are shown one behind the other. -/
theorem middles_frame {middles : List RTPPacket} (hm : ∀ m ∈ middles, m.kind = .middle) (hr : Ready a)
    (hfit : a.m_buffer_used_len + (middles.flatMap RTPPacket.body).length ≤ ASSEMBLER_BUFFER_SIZE) :
    Ready (final push_packet a middles) ∧
      (final push_packet a middles).frame = a.frame ++ middles.flatMap RTPPacket.body ∧
      (final push_packet a middles).m_buffer_used_len =
        a.m_buffer_used_len + (middles.flatMap RTPPacket.body).length := by
  induction middles generalizing a with
  | nil => exact ⟨hr, (List.append_nil _).symm, rfl⟩
  | cons m middles ih =>
    have hpush : (a.push_packet m).1 = a.append m.body := by rw [push_eq hr.init, hm m (by simp)]
    rw [List.flatMap_cons, List.length_append] at hfit
    have hl : a.m_buffer_used_len + m.body.length ≤ ASSEMBLER_BUFFER_SIZE := by omega
    have hused := append_used a hl
    obtain ⟨hready, hframe, hlen⟩ := ih (fun q hq => hm q (by simp [hq])) (hr.append m.body) (by omega)
    rw [final_cons, hpush]
    refine ⟨hready, ?_, ?_⟩
    · rw [hframe, frame_append hr hl, List.flatMap_cons, List.append_assoc]
    · rw [hlen, hused, List.flatMap_cons, List.length_append]
      omega

/-- Behind the first. -/
theorem opened_frame {first : RTPPacket} {middles : List RTPPacket} (hr : Ready a) (hfirst : first.kind = .first)
    (hmiddles : ∀ m ∈ middles, m.kind = .middle)
    (hfit : (first.opening ++ middles.flatMap RTPPacket.body).length ≤ ASSEMBLER_BUFFER_SIZE) :
    Ready (final push_packet a (first :: middles)) ∧
      (final push_packet a (first :: middles)).frame = first.opening ++ middles.flatMap RTPPacket.body ∧
      (final push_packet a (first :: middles)).m_buffer_used_len =
        (first.opening ++ middles.flatMap RTPPacket.body).length := by
  rw [List.length_append] at hfit ⊢
  have hopen : (a.push_packet first).1 = a.openAt first := by rw [push_eq hr.init, hfirst]
  have hready : Ready (a.openAt first) := hopen ▸ push_ready hr first
  have hused := openAt_used a first
  obtain ⟨hready', hframe, hlen⟩ := middles_frame hmiddles hready (by omega)
  rw [frame_openAt hr (by omega)] at hframe
  rw [final_cons, hopen]
  exact ⟨hready', hframe, hlen.trans (by rw [hused])⟩

theorem foldl_middles {middles : List RTPPacket} (h : ∀ m ∈ middles, m.kind = .middle) (n : Nat) :
    middles.foldl collect (some n) = some (n + (middles.flatMap RTPPacket.body).length) := by
  induction middles generalizing n with
  | nil => rfl
  | cons m ms ih =>
    have hm : collect (some n) m = some (n + m.body.length) := by simp only [collect, h m (by simp), Option.map_some]
    rw [List.foldl_cons, hm, ih (fun q hq => h q (by simp [hq]))]
    simp [Nat.add_assoc]

theorem collected_fragments {first : RTPPacket} {middles : List RTPPacket} (before : List RTPPacket)
    (hf : first.kind = .first) (hm : ∀ m ∈ middles, m.kind = .middle) :
    collected (before ++ first :: middles) = some (first.opening ++ middles.flatMap RTPPacket.body).length := by
  rw [collected, List.foldl_append, List.foldl_cons, List.length_append, ← foldl_middles hm]
  congr 1
  simp only [collect, hf]

/-- The fragments of an unfinished NAL unit begin with its first. -/
theorem collected_split {packets : List RTPPacket} {n : Nat} (hc : collected packets = some n) :
    ∃ before first middles, packets = before ++ first :: middles ∧ first.kind = .first ∧
      ∀ m ∈ middles, m.kind = .middle := by
  induction packets using List.reverseRecOn generalizing n with
  | nil => simp [collected] at hc
  | append_singleton packets p ih =>
    rw [collected, List.foldl_append, List.foldl_cons, List.foldl_nil, collect] at hc
    cases hk : p.kind with
    | first => exact ⟨packets, p, [], rfl, hk, by simp⟩
    | middle =>
      simp only [hk, Option.map_eq_some_iff] at hc
      obtain ⟨m, hm, -⟩ := hc
      obtain ⟨before, first, middles, rfl, hf, hms⟩ := ih hm
      refine ⟨before, first, middles ++ [p], by simp, hf, ?_⟩
      intro q hq
      rcases List.mem_append.1 hq with hq | hq
      · exact hms q hq
      · rw [List.mem_singleton] at hq
        subst hq
        exact hk
    | empty => simp [hk] at hc
    | single => simp [hk] at hc
    | stapA => simp [hk] at hc
    | malformed => simp [hk] at hc
    | last => simp [hk] at hc
    | unknown => simp [hk] at hc

/-- After the fragments of an unfinished NAL unit, the buffer holds what has come of it. -/
theorem collected_frame (memory : Block ASSEMBLER_BUFFER_SIZE) (packets : List RTPPacket) {n : Nat}
    (hc : collected packets = some n) :
    ∃ before first middles, packets = before ++ first :: middles ∧ first.kind = .first ∧
      (∀ m ∈ middles, m.kind = .middle) ∧ n = (first.opening ++ middles.flatMap RTPPacket.body).length ∧
      (n ≤ ASSEMBLER_BUFFER_SIZE → (after memory packets).m_buffer_used_len = n ∧
        (after memory packets).frame = first.opening ++ middles.flatMap RTPPacket.body) := by
  obtain ⟨before, first, middles, rfl, hf, hm⟩ := collected_split hc
  have hlen := Option.some.inj (hc.symm.trans (collected_fragments before hf hm))
  refine ⟨before, first, middles, rfl, hf, hm, hlen, fun hn => ?_⟩
  obtain ⟨-, hframe, hused⟩ := opened_frame (after_ready memory before) hf hm (hlen ▸ hn)
  rw [after, final_append]
  exact ⟨hused.trans hlen.symm, hframe⟩

/-- Neither a first nor a middle fragment completes a frame. -/
theorem trace_fragments {first : RTPPacket} {middles : List RTPPacket} (hr : Ready a)
    (hf : first.kind = .first) (hm : ∀ m ∈ middles, m.kind = .middle) :
    ∀ r ∈ trace push_packet a (first :: middles), r.2 = false := by
  have hall : ∀ q ∈ first :: middles, q.kind = .first ∨ q.kind = .middle := by
    intro q hq
    rcases List.mem_cons.1 hq with rfl | hq
    · exact .inl hf
    · exact .inr (hm q hq)
  generalize first :: middles = l at hall ⊢
  induction l generalizing a with
  | nil => simp
  | cons q l ih =>
    intro r hr'
    rcases List.mem_cons.1 hr' with rfl | hr'
    · rw [push_eq hr.init]
      rcases hall q (by simp) with h | h <;> simp only [h]
    · exact ih (push_ready hr q) (fun x hx => hall x (by simp [hx])) r hr'

/-- The packets for which the end of a NAL unit is announced. -/
theorem last_iff (hr : Ready a) (p : RTPPacket) :
    p.kind = .last ↔ p.m_payload.get 0 &&& 0x1F = 28 ∧ p.m_payload.get 1 &&& 0x40 ≠ 0 ∧ (a.push_packet p).2 = true := by
  constructor
  · intro h
    refine ⟨?_, ?_, by rw [push_eq hr.init, h]⟩ <;> simp only [RTPPacket.kind] at h <;> split_ifs at h <;> assumption
  · rintro ⟨h1, h2, h3⟩
    rw [push_eq hr.init] at h3
    have hs : ¬ (28 : UInt8) ≤ 23 := by decide
    simp only [RTPPacket.kind, h1, h2, hs, if_false, if_true, ne_eq, not_false_eq_true] at h3 ⊢
    split_ifs at h3 ⊢ <;> simp_all

end

/-- The frames of fragmented NAL units are right exactly if each last fragment comes
while its NAL unit is unfinished and the whole fits the buffer. -/
theorem all_reassembled_iff (memory : Block ASSEMBLER_BUFFER_SIZE) (packets : List RTPPacket) :
    AllReassembled memory packets ↔
      ∀ pre p post, packets = pre ++ p :: post → p.kind = .last →
        ∃ n, collected pre = some n ∧ n + (p.m_payload_len - 2) ≤ ASSEMBLER_BUFFER_SIZE := by
  constructor
  · intro h pre p post he hp
    have hr := after_ready memory pre
    obtain ⟨h1, h2, h3⟩ := (last_iff hr p).1 hp
    obtain ⟨before, first, middles, rfl, hf, hm, hframe, -⟩ := h pre p post he h1 h2 h3
    refine ⟨_, collected_fragments before hf hm, ?_⟩
    -- The frame is a part of the buffer.
    have hlen := congrArg List.length hframe
    rw [List.length_append, RTPPacket.body_length] at hlen
    rw [← hlen, frame, List.length_take, (push_ready hr p).size]
    exact Nat.min_le_right _ _
  · intro h pre p post he h1 h2 h3
    have hr := after_ready memory pre
    have hp := (last_iff hr p).2 ⟨h1, h2, h3⟩
    obtain ⟨n, hc, hn⟩ := h pre p post he hp
    obtain ⟨before, first, middles, hpre, hf, hm, -, hbuf⟩ := collected_frame memory pre hc
    obtain ⟨hu, hframe⟩ := hbuf (by omega)
    refine ⟨before, first, middles, hpre, hf, hm, ?_, trace_fragments (after_ready memory before) hf hm⟩
    rw [push_eq hr.init, hp, ← hframe]
    exact frame_append hr (by rw [hu, RTPPacket.body_length]; exact hn)

/-- A last fragment behind a whole NAL unit is taken as its end. -/
theorem not_reassembled_single :
    ¬ AllReassembled (.zeros _)
      [{ RTPPacket.reset with m_payload := ⟨[0x67, 1], []⟩, m_payload_len := 2 },
        { RTPPacket.reset with m_payload := ⟨[0x7c, 0x45, 3], []⟩, m_payload_len := 3 }] := by
  intro h
  obtain ⟨before, first, middles, hpre, hf, -⟩ := h [_] _ [] rfl (by decide) (by decide)
    (by rw [push_eq (after_ready _ _).init]; rfl)
  cases before with
  | nil =>
    obtain ⟨rfl, -⟩ := List.cons.inj hpre
    exact absurd hf (by decide)
  | cons b before => simp at hpre

end RTPH264FrameAssembler

end RtcClient
