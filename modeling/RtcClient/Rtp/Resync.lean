import RtcClient.Rtp.Reassembly
/-!
# The assembler starts afresh

A packet that is not a continuation makes the assembler forget what it held: from then
on, two assembler states with different pasts give the same answers and show the same
frames. The proof follows the part of the buffer in which the two agree.
-/

namespace RtcClient

open Lib

/-- A packet a NAL unit or a group of them begins with. -/
def RTPPacket.Restarts (p : RTPPacket) : Prop := p.kind = .single ∨ p.kind = .stapA ∨ p.kind = .first

namespace RTPH264FrameAssembler

/-- The buffers are the same up to `n`. -/
structure Agree (n : Nat) (a a' : RTPH264FrameAssembler) : Prop where
  left : Ready a
  right : Ready a'
  bytes : a.m_buffer.take n = a'.m_buffer.take n

/-- As much is used in both, and that much is the same. -/
structure Same (a a' : RTPH264FrameAssembler) : Prop where
  used : a.m_buffer_used_len = a'.m_buffer_used_len
  agree : Agree a.m_buffer_used_len a a'

section
variable {a a' : RTPH264FrameAssembler} {n : Nat}

theorem Agree.start (ha : Ready a) (ha' : Ready a') : Agree 0 a a' := ⟨ha, ha', rfl⟩

theorem Agree.mono (h : Agree n a a') {m : Nat} (hm : m ≤ n) : Agree m a a' := by
  refine ⟨h.left, h.right, ?_⟩
  have hbytes := congrArg (List.take m) h.bytes
  rwa [List.take_take, List.take_take, Nat.min_eq_left hm] at hbytes

theorem Agree.setUsed (h : Agree n a a') (k k' : Nat) :
    Agree n { a with m_buffer_used_len := k } { a' with m_buffer_used_len := k' } :=
  ⟨h.left.used k, h.right.used k', h.bytes⟩

/-- A copy to the end of what is the same. -/
theorem Agree.copy (h : Agree n a a') (bs : Bytes) : Agree (n + bs.length) (a.copy n bs) (a'.copy n bs) := by
  have hsize : a.m_buffer.length = a'.m_buffer.length := h.left.size.trans h.right.size.symm
  exact ⟨h.left.copy n bs, h.right.copy n bs, splice_take_congr bs hsize h.bytes (Nat.le_refl _)⟩

/-- The lengths are set to the same value, not beyond what is the same. -/
theorem Same.of_agree (h : Agree n a a') {k : Nat} (hk : k ≤ n) :
    Same { a with m_buffer_used_len := k } { a' with m_buffer_used_len := k } :=
  ⟨rfl, (h.mono hk).setUsed k k⟩

theorem Same.frame (h : Same a a') : a.frame = a'.frame := by
  unfold RTPH264FrameAssembler.frame
  rw [← h.used]
  exact h.agree.bytes

theorem Same.append (h : Same a a') (bs : Bytes) : Same (a.append bs) (a'.append bs) := by
  have hcopy := h.agree.copy bs
  unfold RTPH264FrameAssembler.append
  rw [← h.used]
  exact .of_agree hcopy (Nat.mod_le _ _)

/-! ## Packets that start afresh -/

theorem same_reset (ha : Ready a) (ha' : Ready a') :
    Same { a with m_buffer_used_len := 0 } { a' with m_buffer_used_len := 0 } :=
  .of_agree (.start ha ha') (Nat.zero_le _)

theorem single_nalu_same (ha : Ready a) (ha' : Ready a') (payload : Buffer) (payloadLen : Nat) :
    Same (a.single_nalu payload payloadLen).1 (a'.single_nalu payload payloadLen).1 ∧
      (a.single_nalu payload payloadLen).2 = (a'.single_nalu payload payloadLen).2 := by
  unfold single_nalu
  dsimp only
  split
  · exact ⟨same_reset ha ha', rfl⟩
  · refine ⟨?_, rfl⟩
    -- first the start code, then the payload behind it
    have hcode := (Agree.start ha ha').copy (start_code payload 0)
    rw [Nat.zero_add] at hcode
    have hpayload := hcode.copy (payload.read 0 payloadLen)
    rw [Buffer.read_length] at hpayload
    have hle : (payloadLen + (start_code payload 0).length) % 2 ^ 64 ≤ (start_code payload 0).length + payloadLen := by
      rw [Nat.add_comm]
      exact Nat.mod_le _ _
    exact .of_agree hpayload hle

theorem stapa_loop_same (data : Buffer) (src : Nat) (srcLen : Int) :
    ∀ a a' : RTPH264FrameAssembler, Same a a' →
      Same (a.stapa_loop data src srcLen).1 (a'.stapa_loop data src srcLen).1 ∧
        (a.stapa_loop data src srcLen).2 = (a'.stapa_loop data src srcLen).2 := by
  intro a a' h
  fun_induction stapa_loop a data src srcLen generalizing a' with
  | case1 a src srcLen hgt nalSize hle ih =>
    rw [stapa_loop.eq_1 a', if_pos hgt]
    dsimp only
    rw [if_pos hle]
    exact ih _ ((h.append _).append _)
  | case2 a src srcLen hgt nalSize hle =>
    rw [stapa_loop.eq_1 a', if_pos hgt]
    dsimp only
    rw [if_neg hle]
    exact ⟨same_reset h.agree.left h.agree.right, rfl⟩
  | case3 a src srcLen hgt hover =>
    rw [stapa_loop.eq_1 a', if_neg hgt, ← h.used, if_pos hover]
    exact ⟨same_reset h.agree.left h.agree.right, rfl⟩
  | case4 a src srcLen hgt hover =>
    rw [stapa_loop.eq_1 a', if_neg hgt, ← h.used, if_neg hover]
    exact ⟨h, rfl⟩

theorem openAt_same (ha : Ready a) (ha' : Ready a') (p : RTPPacket) : Same (a.openAt p) (a'.openAt p) := by
  have hcode := (Agree.start ha ha').copy (start_code p.m_payload 2)
  rw [Nat.zero_add] at hcode
  have hheader := hcode.copy [p.nalHeader]
  have hbody := hheader.copy p.body
  rw [List.length_singleton, RTPPacket.body_length] at hbody
  exact .of_agree hbody (Nat.le_refl _)

/-- Whatever the two held, the packet makes them the same. -/
theorem restart_same (ha : Ready a) (ha' : Ready a') {p : RTPPacket} (hp : p.Restarts) :
    Same (a.push_packet p).1 (a'.push_packet p).1 ∧ (a.push_packet p).2 = (a'.push_packet p).2 := by
  rw [push_eq ha.init, push_eq ha'.init]
  rcases hp with hp | hp | hp
  · rw [hp]
    exact single_nalu_same ha ha' _ _
  · rw [hp]
    exact stapa_loop_same _ _ _ _ _ (same_reset ha ha')
  · rw [hp]
    exact ⟨openAt_same ha ha' p, rfl⟩

/-! ## The packets behind it -/

/-- A packet of any kind keeps them the same. -/
theorem push_same (h : Same a a') (p : RTPPacket) :
    Same (a.push_packet p).1 (a'.push_packet p).1 ∧ (a.push_packet p).2 = (a'.push_packet p).2 := by
  have ha := h.agree.left
  have ha' := h.agree.right
  rw [push_eq ha.init, push_eq ha'.init]
  cases p.kind with
  | empty => exact ⟨h, rfl⟩
  | single => exact single_nalu_same ha ha' _ _
  | stapA => exact stapa_loop_same _ _ _ _ _ (same_reset ha ha')
  | malformed => exact ⟨same_reset ha ha', rfl⟩
  | first => exact ⟨openAt_same ha ha' p, rfl⟩
  | middle => exact ⟨h.append _, rfl⟩
  | last => exact ⟨h.append _, rfl⟩
  | unknown => exact ⟨h, rfl⟩

/-- From two states of an initialised assembler, packets that begin with a restart are answered in
the same way, and whenever a frame is announced it is the same one. -/
theorem resynchronises {a a' : RTPH264FrameAssembler} (ha : Ready a) (ha' : Ready a') {p : RTPPacket}
    (hp : p.Restarts) (packets : List RTPPacket) :
    (trace push_packet a (p :: packets)).map (·.2) = (trace push_packet a' (p :: packets)).map (·.2) ∧
      ∀ pre q post, p :: packets = pre ++ q :: post → ((final push_packet a pre).push_packet q).2 = true →
        ((final push_packet a pre).push_packet q).1.m_buffer_used_len =
            ((final push_packet a' pre).push_packet q).1.m_buffer_used_len ∧
          ((final push_packet a pre).push_packet q).1.frame = ((final push_packet a' pre).push_packet q).1.frame := by
  obtain ⟨hsame, hout⟩ := restart_same ha ha' hp
  constructor
  · rw [trace_cons, trace_cons, hout, (two_runs_rule push_packet Same (fun _ _ q h => push_same h q) hsame packets).2]
  · intro pre q post heq _
    have hnext : Same ((final push_packet a pre).push_packet q).1 ((final push_packet a' pre).push_packet q).1 := by
      cases pre with
      | nil =>
        obtain ⟨rfl, -⟩ := List.cons.inj heq
        exact hsame
      | cons r pre =>
        obtain ⟨rfl, -⟩ := List.cons.inj heq
        have hpre := (two_runs_rule push_packet Same (fun _ _ q h => push_same h q) hsame pre).1
        exact (push_same hpre q).1
    exact ⟨hnext.used, hnext.frame⟩

end

/-- A new assembler, and one that is in the middle of a NAL unit, given another one in two fragments. -/
theorem resynchronises_two :
    (trace push_packet (started (.zeros _)) twoFragments).map (·.2) =
        (trace push_packet (after (.zeros _) (twoFragments.take 1)) twoFragments).map (·.2) ∧
      ∀ pre q post, twoFragments = pre ++ q :: post →
        ((final push_packet (started (.zeros _)) pre).push_packet q).2 = true →
        ((final push_packet (started (.zeros _)) pre).push_packet q).1.m_buffer_used_len =
            ((final push_packet (after (.zeros _) (twoFragments.take 1)) pre).push_packet q).1.m_buffer_used_len ∧
          ((final push_packet (started (.zeros _)) pre).push_packet q).1.frame =
            ((final push_packet (after (.zeros _) (twoFragments.take 1)) pre).push_packet q).1.frame :=
  resynchronises (started_ready (.zeros _)) (after_ready (.zeros _) (twoFragments.take 1)) (.inr (.inr (by decide)))
    [_]

end RTPH264FrameAssembler

end RtcClient
