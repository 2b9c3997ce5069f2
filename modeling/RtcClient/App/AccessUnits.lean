import Mathlib.Data.List.Chain
import RtcClient.App.NetworkVideo
/-!
# Which packets an access unit comes from

Every byte of the assembler's buffer and of the user's is followed by the timestamp of
the packet it was written for. A callback's bytes come from packets with the callback's
timestamp as long as the losses let no packet add to what another timestamp has left in
a buffer (`access_units_unmixed`); some losses do (`not_access_units_unmixed`).
-/

namespace RtcClient

open Lib RTPH264FrameAssembler

/-! ## The assembler's bytes -/

/-- For each position of a buffer the timestamp of the packet its byte was written for. -/
abbrev Origin := Nat → Option Nat

/-- `len` bytes are written at `off`. -/
def Origin.mark (timestamp : Nat) (w : Origin) (c : Nat × Nat) : Origin :=
  fun i => if c.1 ≤ i ∧ i < c.1 + c.2 then some timestamp else w i

/-- All bytes before `used` were written for one timestamp. -/
def Origin.From (w : Origin) (used timestamp : Nat) : Prop := ∀ i < used, w i = some timestamp

namespace RTPH264FrameAssembler

/-- The copies made since the assembler was `a`. -/
def copied (a a' : RTPH264FrameAssembler) : List (Nat × Nat) := a'.copies.drop a.copies.length

/-- The origins after a push. -/
def push_origin (a : RTPH264FrameAssembler) (w : Origin) (p : RTPPacket) : Origin :=
  (a.copied (a.push_packet p).1).foldl (Origin.mark p.m_timestamp) w

/-- What is written for a timestamp behind bytes of the same timestamp. -/
def Fills (timestamp : Nat) (a a' : RTPH264FrameAssembler) : Prop :=
  ∃ l, a'.copies = a.copies ++ l ∧ ∀ w : Origin, w.From a.m_buffer_used_len timestamp →
    (l.foldl (Origin.mark timestamp) w).From a'.m_buffer_used_len timestamp

section
variable {timestamp : Nat}

theorem Fills.refl (a : RTPH264FrameAssembler) : Fills timestamp a a := ⟨[], by simp, fun _ h => h⟩

theorem Fills.trans {a b c : RTPH264FrameAssembler} (h1 : Fills timestamp a b) (h2 : Fills timestamp b c) :
    Fills timestamp a c := by
  obtain ⟨l, hl, hw⟩ := h1
  obtain ⟨m, hm, hv⟩ := h2
  refine ⟨l ++ m, by rw [hm, hl, List.append_assoc], fun w h => ?_⟩
  rw [List.foldl_append]
  exact hv _ (hw w h)

theorem fills_reset (a : RTPH264FrameAssembler) : Fills timestamp a { a with m_buffer_used_len := 0 } :=
  ⟨[], by simp, fun _ _ _ hi => absurd hi (Nat.not_lt_zero _)⟩

theorem fills_append (a : RTPH264FrameAssembler) (bs : Bytes) : Fills timestamp a (a.append bs) := by
  refine ⟨[(a.m_buffer_used_len, bs.length)], rfl, fun w h i hi => ?_⟩
  rw [List.foldl_cons, List.foldl_nil, Origin.mark]
  split
  · rfl
  · rename_i hout
    apply h
    simp only [append] at hi
    have := Nat.mod_le (a.m_buffer_used_len + bs.length) (2 ^ 64)
    omega

theorem fills_stapa (data : Buffer) (src : Nat) (srcLen : Int) (a : RTPH264FrameAssembler) :
    Fills timestamp a (a.stapa_loop data src srcLen).1 := by
  fun_induction stapa_loop a data src srcLen with
  | case1 a src srcLen hgt nalSize hle ih => exact ((fills_append a _).trans (fills_append _ _)).trans ih
  | case2 a => exact fills_reset a
  | case3 a => exact fills_reset a
  | case4 a => exact .refl a

/-- A single NAL unit replaces what was there. -/
theorem fills_single (a : RTPH264FrameAssembler) (payload : Buffer) (payloadLen : Nat) :
    Fills timestamp { a with m_buffer_used_len := 0 } (a.single_nalu payload payloadLen).1 := by
  unfold single_nalu
  dsimp only
  split
  · exact .refl _
  · refine ⟨[(0, (start_code payload 0).length), ((start_code payload 0).length, payloadLen)], ?_, fun w _ i hi => ?_⟩
    · simp [copy]
    · have := Nat.mod_le (payloadLen + (start_code payload 0).length) (2 ^ 64)
      simp only [copy] at hi
      simp only [List.foldl_cons, List.foldl_nil, Origin.mark]
      split
      · rfl
      · rw [if_pos (by omega)]

/-- So does a first fragment. -/
theorem fills_first (a : RTPH264FrameAssembler) (p : RTPPacket) :
    Fills timestamp { a with m_buffer_used_len := 0 } (a.openAt p) := by
  refine ⟨[(0, (start_code p.m_payload 2).length), ((start_code p.m_payload 2).length, 1),
    ((start_code p.m_payload 2).length + 1, p.m_payload_len - 2)], ?_, fun w _ i hi => ?_⟩
  · simp [openAt, copy]
  · simp only [openAt, copy] at hi
    simp only [List.foldl_cons, List.foldl_nil, Origin.mark]
    split
    · rfl
    split
    · rfl
    · rw [if_pos (by omega)]

end

end RTPH264FrameAssembler

namespace RTPPacket

/-- The packet is a fragment that is added to what the assembler has. -/
def Continues (p : RTPPacket) : Prop := p.kind = .middle ∨ p.kind = .last

instance (p : RTPPacket) : Decidable p.Continues := inferInstanceAs (Decidable (_ ∨ _))

/-- The assembler looks into the packet. -/
def Taken (p : RTPPacket) : Prop := p.kind ≠ .empty ∧ p.kind ≠ .unknown

instance (p : RTPPacket) : Decidable p.Taken := inferInstanceAs (Decidable (_ ∧ _))

/-- The packet is a NAL unit, several NAL units or the last fragment of one. -/
def Completes (p : RTPPacket) : Prop := p.kind = .single ∨ p.kind = .stapA ∨ p.kind = .last

instance (p : RTPPacket) : Decidable p.Completes := inferInstanceAs (Decidable (_ ∨ _))

end RTPPacket

namespace RTPH264FrameAssembler

section
variable {a : RTPH264FrameAssembler} {p : RTPPacket}

/-- A push adds to what is there, replaces it, or does nothing. -/
theorem push_fills (ha : a.m_initialize = true) (timestamp : Nat) :
    (p.Continues → Fills timestamp a (a.push_packet p).1) ∧
      (¬ p.Continues → p.Taken → Fills timestamp { a with m_buffer_used_len := 0 } (a.push_packet p).1) ∧
      (¬ p.Taken → a.push_packet p = (a, false)) := by
  rw [push_eq ha]
  unfold RTPPacket.Continues RTPPacket.Taken
  cases p.kind with
  | empty => simp
  | single => simpa using fills_single a p.m_payload p.m_payload_len
  | stapA => simpa [get_stapa_frame] using fills_stapa _ _ _ { a with m_buffer_used_len := 0 }
  | malformed => simpa using Fills.refl _
  | first => simpa using fills_first a p
  | middle => simpa using fills_append a p.body
  | last => simpa using fills_append a p.body
  | unknown => simp

theorem copied_append {a a' : RTPH264FrameAssembler} {l : List (Nat × Nat)} (h : a'.copies = a.copies ++ l) :
    a.copied a' = l := by rw [copied, h, List.drop_left]

/-- The bytes in use are from one timestamp if a fragment is only added to bytes from its own. -/
theorem push_from (ha : a.m_initialize = true) {w : Origin} {timestamp : Nat}
    (hw : w.From a.m_buffer_used_len timestamp)
    (hc : p.Continues → a.m_buffer_used_len = 0 ∨ timestamp = p.m_timestamp) :
    (push_origin a w p).From (a.push_packet p).1.m_buffer_used_len (if p.Taken then p.m_timestamp else timestamp) := by
  obtain ⟨hcont, hrepl, hnot⟩ := push_fills (p := p) ha p.m_timestamp
  by_cases ht : p.Taken
  · rw [if_pos ht]
    by_cases hp : p.Continues
    · obtain ⟨l, hl, hfill⟩ := hcont hp
      rw [push_origin, copied_append hl]
      apply hfill
      -- added to: what is there has to be from the same timestamp
      rcases hc hp with h | h
      · rw [h]
        exact fun i hi => absurd hi (Nat.not_lt_zero i)
      · rw [← h]
        exact hw
    · obtain ⟨l, hl, hfill⟩ := hrepl hp ht
      rw [push_origin, copied_append (a := a) hl]
      -- replaced: nothing of what was there stays in use
      exact hfill w fun i hi => absurd hi (Nat.not_lt_zero i)
  · rw [if_neg ht, push_origin, hnot ht, copied_append (l := []) (by simp)]
    exact hw

/-- What the assembler does not look into completes nothing. -/
theorem taken_of_complete (ha : a.m_initialize = true) (h : (a.push_packet p).2 = true) : p.Taken := by
  by_contra ht
  rw [(push_fills ha p.m_timestamp).2.2 ht] at h
  cases h

theorem completes_of_push (ha : a.m_initialize = true) (h : (a.push_packet p).2 = true) : p.Completes := by
  rw [push_eq ha] at h
  unfold RTPPacket.Completes
  cases hk : p.kind with
  | single => exact .inl rfl
  | stapA => exact .inr (.inl rfl)
  | last => exact .inr (.inr rfl)
  | empty => simp only [hk, Bool.false_eq_true] at h
  | malformed => simp only [hk, Bool.false_eq_true] at h
  | first => simp only [hk, Bool.false_eq_true] at h
  | middle => simp only [hk, Bool.false_eq_true] at h
  | unknown => simp only [hk, Bool.false_eq_true] at h

/-- The payloads of a fragmented NAL unit all have the type of fragments. -/
theorem fragments_indicator {fnri type : UInt8} {isStart : Bool} {body x : Bytes}
    (hx : x ∈ fragments fnri type isStart body) : ∃ t, x = (fnri ||| 0x1c) :: t := by
  fun_induction fragments fnri type isStart body with
  | case1 isStart body ih =>
    rcases List.mem_cons.1 hx with rfl | hx
    · exact ⟨_, rfl⟩
    · split at hx
      · cases hx
      · exact ih ‹_› hx

/-- The builder's packets complete something if their kind may. -/
theorem chunk_completes (ha : Ready a) {c : Chunk} (hc : ChunkFits c) {x : Bytes} (hx : x ∈ c.payloads)
    (hcarries : Carries p x) (hp : p.Completes) : (a.push_packet p).2 = true := by
  -- an end fragment completes whatever the buffer holds; the other kinds complete what is in the packet
  by_cases hlast : p.kind = .last
  · rw [push_eq ha.init, hlast]
  cases c with
  | fua n =>
    obtain ⟨t, rfl⟩ := fragments_indicator hx
    have htype : p.m_payload.get 0 &&& 0x1F = 28 := by
      rw [hcarries.get (i := 0) (by simp)]
      exact indicator_type _
    have hsingle : p.kind ≠ .single ∧ p.kind ≠ .stapA := by
      simp only [RTPPacket.kind, htype]
      constructor <;> (split_ifs <;> simp_all)
    rcases hp with h | h | h
    · exact absurd h hsingle.1
    · exact absurd h hsingle.2
    · exact absurd h hlast
  | packet ns =>
    obtain ⟨y, hy⟩ : ∃ y, (Chunk.packet ns).payloads = [y] := by
      rcases ns with _ | ⟨n, _ | ⟨m, ns⟩⟩
      · exact ⟨_, rfl⟩
      · exact ⟨_, rfl⟩
      · exact ⟨_, rfl⟩
    rw [hy, List.mem_singleton] at hx
    subst hx
    have hback : List.Forall₂ Carries [p] (Chunk.packet ns).payloads := by
      rw [hy]
      exact .cons hcarries .nil
    obtain ⟨a', us, -, -, hd⟩ := chunk_delivered ha hc hback
    obtain ⟨first, last, hsplit, -, hpush⟩ := hd.split
    obtain ⟨rfl, hl⟩ := List.append_inj' (show [] ++ [p] = first ++ [last] from hsplit) rfl
    obtain rfl : p = last := (List.cons.inj hl).1
    rw [show a.push_packet p = (a', true) from hpush]

end

end RTPH264FrameAssembler

/-- So do the packets of a frame. -/
theorem SentFrame.Sound.completes {f : SentFrame} (hf : f.Sound) {a : RTPH264FrameAssembler} (ha : Ready a)
    {q : RTPPacket} (hq : q ∈ f.packets) (hc : q.Completes) : (a.push_packet q).2 = true := by
  obtain ⟨cs, -, hfits, -, hqs, -⟩ := hf.chunks
  obtain ⟨i, hi, rfl⟩ := List.mem_iff_getElem.1 hq
  have hi' : i < (cs.flatMap Chunk.payloads).length := hqs.length_eq ▸ hi
  obtain ⟨c, hcs, hx⟩ := List.mem_flatMap.1 (List.getElem_mem hi')
  exact chunk_completes ha (hfits c hcs) hx (hqs.get hi hi') hc

/-! ## The user's bytes -/

/-- A user with the origins of the bytes in its two buffers, the timestamp of the last packet its
assembler looked into, and that of the last packet that completed a frame. The code keeps none of these. -/
structure TracedUser where
  user : RoomUser
  assembler_origin : Origin := fun _ => none
  buffer_origin : Origin := fun _ => none
  fragment_time : Nat := 0
  frame_time : Nat := 0

namespace TracedUser

/-- `process_video`; a callback comes with the origins of the bytes it is given. -/
def process_video (t : TracedUser) (rtp : RTPPacket) : TracedUser × Option (Delivery × List (Option Nat)) :=
  match t.user.m_h264_frame_assembler with
  | none => (t, none)
  | some assembler =>
    let origin := assembler.push_origin t.assembler_origin rtp
    let (user, delivery) := t.user.process_video rtp
    let (pushed, complete) := assembler.push_packet rtp
    let t' := { t with
      user := user, assembler_origin := origin,
      fragment_time := if rtp.Taken then rtp.m_timestamp else t.fragment_time }
    if complete then
      let len := pushed.m_buffer_used_len
      let used :=
        if t.user.m_h264_rtp_buffer_used_len + len ≥ RTP_H264_RECV_BUFFER_SIZE then 0
        else t.user.m_h264_rtp_buffer_used_len
      let collected : Origin := fun i => if used ≤ i ∧ i < used + len then origin (i - used) else t.buffer_origin i
      ({ t' with buffer_origin := collected, frame_time := rtp.m_timestamp },
        delivery.map (fun d => (d, (List.range (used + len)).map collected)))
    else (t', none)

def receive_video (t : TracedUser) (arrived : Buffer) : TracedUser × Option (Delivery × List (Option Nat)) :=
  match t.user.m_major_receiver with
  | none => (t, none)
  | some receiver =>
    let (receiver, rtp) := receiver.receive_rtp_packet 5 arrived
    let t := { t with user := { t.user with m_major_receiver := some receiver } }
    match rtp with
    | none => (t, none)
    | some rtp => t.process_video rtp

theorem process_video_user (t : TracedUser) (rtp : RTPPacket) :
    (t.process_video rtp).1.user = (t.user.process_video rtp).1 ∧
      (t.process_video rtp).2.map (·.1) = (t.user.process_video rtp).2 := by
  unfold process_video RoomUser.process_video
  cases ha : t.user.m_h264_frame_assembler with
  | none => exact ⟨rfl, rfl⟩
  | some assembler =>
    dsimp only
    cases (assembler.push_packet rtp).2 with
    | false => exact ⟨rfl, rfl⟩
    | true =>
      refine ⟨rfl, ?_⟩
      rw [if_pos rfl, Option.map_map]
      exact Option.map_id'

/-- The origins are only watched: the user and its callbacks are those of `receive_video`. -/
theorem receive_video_user (t : TracedUser) (arrived : Buffer) :
    (t.receive_video arrived).1.user = (t.user.receive_video arrived).1 ∧
      (t.receive_video arrived).2.map (·.1) = (t.user.receive_video arrived).2 := by
  unfold receive_video RoomUser.receive_video
  cases t.user.m_major_receiver with
  | none => exact ⟨rfl, rfl⟩
  | some receiver =>
    dsimp only
    cases (receiver.receive_rtp_packet 5 arrived).2 with
    | none => exact ⟨rfl, rfl⟩
    | some rtp => exact process_video_user _ rtp

/-- The bytes in use in each buffer are from one timestamp. -/
structure Unmixed (t : TracedUser) (assembler : RTPH264FrameAssembler) : Prop where
  current : t.user.m_h264_frame_assembler = some assembler
  ready : RTPH264FrameAssembler.Ready assembler
  fragments : t.assembler_origin.From assembler.m_buffer_used_len t.fragment_time
  frames : t.buffer_origin.From t.user.m_h264_rtp_buffer_used_len t.frame_time

/-- The callback's bytes come from packets with its timestamp. -/
def Pure (out : Option (Delivery × List (Option Nat))) : Prop :=
  ∀ d ∈ out, ∀ x ∈ d.2, x = some d.1.timestamp

instance (out : Option (Delivery × List (Option Nat))) : Decidable (Pure out) :=
  inferInstanceAs (Decidable (∀ d ∈ out, ∀ x ∈ d.2, x = some d.1.timestamp))

/-- A packet that adds only to bytes of its own timestamp leaves the buffers unmixed. -/
theorem process_video_unmixed {t : TracedUser} {assembler : RTPH264FrameAssembler} (h : t.Unmixed assembler)
    {rtp : RTPPacket} (hfrag : rtp.Continues → assembler.m_buffer_used_len = 0 ∨ t.fragment_time = rtp.m_timestamp)
    (hframe : (assembler.push_packet rtp).2 = true →
      t.user.m_h264_rtp_buffer_used_len = 0 ∨ t.frame_time = rtp.m_timestamp) :
    (t.process_video rtp).1.Unmixed (assembler.push_packet rtp).1 ∧ Pure (t.process_video rtp).2 := by
  have hpush := RTPH264FrameAssembler.push_from h.ready.init h.fragments hfrag
  have hready := RTPH264FrameAssembler.push_ready h.ready rtp
  have htaken := RTPH264FrameAssembler.taken_of_complete (p := rtp) h.ready.init
  unfold process_video RoomUser.process_video
  rw [h.current]
  dsimp only
  generalize assembler.push_packet rtp = r at hpush hframe hready htaken ⊢
  obtain ⟨pushed, complete⟩ := r
  cases complete with
  | false => exact ⟨⟨rfl, hready, hpush, h.frames⟩, by rintro d ⟨⟩⟩
  | true =>
    dsimp only at hpush hframe hready htaken ⊢
    rw [if_pos (htaken rfl)] at hpush ⊢
    generalize hused : (if t.user.m_h264_rtp_buffer_used_len + pushed.m_buffer_used_len ≥ RTP_H264_RECV_BUFFER_SIZE
      then 0 else t.user.m_h264_rtp_buffer_used_len) = used
    -- what was collected before is from this timestamp too, or it is given up
    have hbefore : t.buffer_origin.From used rtp.m_timestamp := by
      intro i hi
      rw [← hused] at hi
      split at hi
      · exact absurd hi (Nat.not_lt_zero i)
      · rcases hframe rfl with hzero | heq
        · rw [hzero] at hi
          exact absurd hi (Nat.not_lt_zero i)
        · rw [← heq]
          exact h.frames i hi
    have hall : Origin.From (fun i => if used ≤ i ∧ i < used + pushed.m_buffer_used_len then
        assembler.push_origin t.assembler_origin rtp (i - used) else t.buffer_origin i)
        (used + pushed.m_buffer_used_len) rtp.m_timestamp := by
      intro i hi
      dsimp only
      split
      · exact hpush (i - used) (by omega)
      · exact hbefore i (by omega)
    cases hm : rtp.m_marker with
    | false => exact ⟨⟨rfl, hready, hpush, hall⟩, by rintro d ⟨⟩⟩
    | true =>
      refine ⟨⟨rfl, hready, hpush, fun i hi => absurd hi (Nat.not_lt_zero i)⟩, ?_⟩
      cases t.user.m_h264_callback with
      | false => rintro d ⟨⟩
      | true =>
        rintro d ⟨⟩ x hx
        obtain ⟨i, hi, rfl⟩ := List.mem_map.1 hx
        exact hall i (List.mem_range.1 hi)

/-- What a packet leaves besides: its time where it was looked into, and where it completed something. -/
theorem process_video_times {t : TracedUser} {assembler : RTPH264FrameAssembler} (h : t.Unmixed assembler)
    (rtp : RTPPacket) :
    let t' := (t.process_video rtp).1
    t'.fragment_time = (if rtp.Taken then rtp.m_timestamp else t.fragment_time) ∧
      t'.user.m_major_receiver = t.user.m_major_receiver ∧
      ((assembler.push_packet rtp).2 = true → t'.frame_time = rtp.m_timestamp ∧
        (rtp.m_marker = true → t'.user.m_h264_rtp_buffer_used_len = 0)) ∧
      ((assembler.push_packet rtp).2 = false → t'.frame_time = t.frame_time ∧
        t'.user.m_h264_rtp_buffer_used_len = t.user.m_h264_rtp_buffer_used_len) := by
  unfold process_video RoomUser.process_video
  rw [h.current]
  dsimp only
  cases (assembler.push_packet rtp).2 with
  | false => simp
  | true => cases hm : rtp.m_marker <;> simp

/-! ## The packets that came -/

/-- The packets of a stream that came in order, with what each would add to: a fragment follows a packet of its own
frame, and so does a packet that completes something, unless the one before it ended an access unit. -/
structure InTurn (ps : List RTPPacket) : Prop where
  fragments : (ps.filter RTPPacket.Taken).IsChain (fun q p => p.Continues → q.m_timestamp = p.m_timestamp)
  frames : (ps.filter RTPPacket.Completes).IsChain (fun q p => q.m_marker = true ∨ q.m_timestamp = p.m_timestamp)

/-- The buffers after the packets: their times are those of the last packet that was looked into, and the last one that
completed something without ending an access unit. -/
structure Traced (t : TracedUser) (assembler : RTPH264FrameAssembler) (ps : List RTPPacket) : Prop where
  unmixed : t.Unmixed assembler
  fragment : assembler.m_buffer_used_len = 0 ∨
    ∃ q ∈ (ps.filter RTPPacket.Taken).getLast?, t.fragment_time = q.m_timestamp
  frame : t.user.m_h264_rtp_buffer_used_len = 0 ∨
    ∃ q ∈ (ps.filter RTPPacket.Completes).getLast?, t.frame_time = q.m_timestamp ∧ q.m_marker = false

/-- A packet in turn adds to bytes of its own timestamp. -/
theorem Traced.step {t : TracedUser} {assembler : RTPH264FrameAssembler} {ps : List RTPPacket}
    (h : t.Traced assembler ps) {rtp : RTPPacket} {rest : List RTPPacket} (hturn : InTurn (ps ++ rtp :: rest))
    (hcomplete : rtp.Completes → (assembler.push_packet rtp).2 = true) :
    (t.process_video rtp).1.Traced (assembler.push_packet rtp).1 (ps ++ [rtp]) ∧ Pure (t.process_video rtp).2 := by
  have hfragments := hturn.fragments
  have hframes := hturn.frames
  rw [List.filter_append] at hfragments hframes
  have hlater := (List.isChain_append.1 hfragments).2.2
  have hlater' := (List.isChain_append.1 hframes).2.2
  have hends := completes_of_push (p := rtp) h.unmixed.ready.init
  -- each buffer is empty or as the last packet left it, and to that packet the next one is linked
  have hfrag : rtp.Continues → assembler.m_buffer_used_len = 0 ∨ t.fragment_time = rtp.m_timestamp := by
    intro hc
    have htaken : rtp.Taken := by rcases hc with hk | hk <;> simp [RTPPacket.Taken, hk]
    refine h.fragment.imp_right ?_
    rintro ⟨q, hq, htime⟩
    rw [htime]
    exact hlater q hq rtp (by rw [List.filter_cons_of_pos (by simpa using htaken)]; rfl) hc
  have hframe : (assembler.push_packet rtp).2 = true →
      t.user.m_h264_rtp_buffer_used_len = 0 ∨ t.frame_time = rtp.m_timestamp := by
    intro hpush
    refine h.frame.imp_right ?_
    rintro ⟨q, hq, htime, hmark⟩
    have hrel := hlater' q hq rtp (by rw [List.filter_cons_of_pos (by simpa using hends hpush)]; rfl)
    rw [htime]
    exact hrel.resolve_left (by rw [hmark]; simp)
  obtain ⟨hunmixed, hpure⟩ := process_video_unmixed h.unmixed hfrag hframe
  obtain ⟨htime, -, hyes, hno⟩ := process_video_times h.unmixed rtp
  refine ⟨⟨hunmixed, ?_, ?_⟩, hpure⟩
  · rw [List.filter_append]
    by_cases htaken : rtp.Taken
    · refine .inr ⟨rtp, ?_, by rw [htime, if_pos htaken]⟩
      rw [List.filter_cons_of_pos (by simpa using htaken)]
      simp
    · rw [List.filter_cons_of_neg (by simpa using htaken), List.filter_nil, List.append_nil, htime, if_neg htaken,
        (push_fills h.unmixed.ready.init rtp.m_timestamp).2.2 htaken]
      exact h.fragment
  · rw [List.filter_append]
    cases hpush : (assembler.push_packet rtp).2 with
    | true =>
      obtain ⟨hlast, hmarked⟩ := hyes hpush
      cases hmark : rtp.m_marker with
      | true => exact .inl (hmarked hmark)
      | false =>
        refine .inr ⟨rtp, ?_, hlast, hmark⟩
        rw [List.filter_cons_of_pos (by simpa using hends hpush)]
        simp
    | false =>
      -- a packet that could complete something would have
      have hnot : ¬ rtp.Completes := fun hc => by rw [hcomplete hc] at hpush; cases hpush
      obtain ⟨hlast, hused⟩ := hno hpush
      rw [List.filter_cons_of_neg (by simpa using hnot), List.filter_nil, List.append_nil, hlast, hused]
      exact h.frame

/-- So do all the packets the receiver gives out. -/
theorem Traced.run (arrivals : List Buffer) :
    ∀ {t : TracedUser} {assembler : RTPH264FrameAssembler} {ps : List RTPPacket} {s : RTPSessionReceiver},
      t.Traced assembler ps → t.user.m_major_receiver = some s →
      InTurn (ps ++ RTPSessionReceiver.returned 5 s arrivals) →
      (∀ q ∈ RTPSessionReceiver.returned 5 s arrivals, q.Completes → ∀ a, Ready a → (a.push_packet q).2 = true) →
      ∀ r ∈ trace receive_video t arrivals, Pure r.2 := by
  induction arrivals with
  | nil => intro t assembler ps s _ _ _ _ r hr; cases hr
  | cons x arrivals ih =>
    intro t assembler ps s h hs hturn hcomplete
    rcases hcall : RTPSessionReceiver.call 5 s x with ⟨s', rtp⟩
    have hcall' : s.receive_rtp_packet 5 x = (s', rtp) := hcall
    have hreturned : RTPSessionReceiver.returned 5 s (x :: arrivals) =
        rtp.toList ++ RTPSessionReceiver.returned 5 s' arrivals := by
      simp only [RTPSessionReceiver.returned, trace_cons, hcall]
      cases rtp <;> rfl
    rw [hreturned] at hturn hcomplete
    have hkept : Traced { t with user := { t.user with m_major_receiver := some s' } } assembler ps :=
      ⟨⟨h.unmixed.current, h.unmixed.ready, h.unmixed.fragments, h.unmixed.frames⟩, h.fragment, h.frame⟩
    rw [trace_cons, List.forall_mem_cons]
    cases rtp with
    | none =>
      have hstep : t.receive_video x = ({ t with user := { t.user with m_major_receiver := some s' } }, none) := by
        simp only [receive_video, hs, hcall']
      rw [hstep]
      exact ⟨by rintro d ⟨⟩, ih hkept rfl hturn hcomplete⟩
    | some q =>
      have hstep : t.receive_video x =
          process_video { t with user := { t.user with m_major_receiver := some s' } } q := by
        simp only [receive_video, hs, hcall']
      rw [Option.toList_some, List.singleton_append] at hturn hcomplete
      rw [List.forall_mem_cons] at hcomplete
      obtain ⟨hnext, hpure⟩ := hkept.step hturn (fun hc => hcomplete.1 hc _ h.unmixed.ready)
      obtain ⟨-, hreceiver, -⟩ := process_video_times hkept.unmixed q
      rw [hstep]
      refine ⟨hpure, ih hnext hreceiver ?_ hcomplete.2⟩
      rwa [List.append_assoc, List.singleton_append]

/-- A user whose video was just initialized, nothing being in its buffers. -/
theorem initialize_video_traced {u u' : RoomUser} {pinholeIP : Bytes} {pinholePort : Nat} {env : ReceiverEnv}
    (hnew : u.m_video_initialize = false) (hu : u.initialize_video pinholeIP pinholePort env = (u', true)) :
    ∃ a, Traced { user := u' } a [] := by
  simp only [RoomUser.initialize_video, hnew, Bool.false_eq_true, if_false] at hu
  split at hu
  · simp at hu
  · split at hu
    · simp at hu
    · obtain ⟨rfl, -⟩ : _ ∧ True := by simpa using hu
      exact ⟨_, ⟨rfl, RTPH264FrameAssembler.started_ready _, fun i hi => absurd hi (Nat.not_lt_zero i),
        fun i hi => absurd hi (Nat.not_lt_zero i)⟩, .inl rfl, .inl rfl⟩

/-- The packets that get to the assembler when they come in order: one with number 0 is taken for the first packet,
which is never parsed, and the receiver holds the last five. -/
def getThrough (ps : List RTPPacket) : List RTPPacket := (ps.filter (fun p => 0 < p.m_sequence)).rdrop 5

/-- The numbers of the packets that came are in order, and those that get to the assembler in turn. -/
structure Unbroken (ps : List RTPPacket) : Prop where
  numbers : Increasing RTPPacket.m_sequence ps
  turn : InTurn (getThrough ps)

/-- The unparsed packet, which is in front of them, is not looked into. -/
theorem InTurn.reset {ps : List RTPPacket} (h : InTurn (ps.rdrop 5)) : InTurn ((RTPPacket.reset :: ps).rdrop 5) := by
  have hsplit : (RTPPacket.reset :: ps).rdrop 5 = ps.rdrop 5 ∨ (RTPPacket.reset :: ps).rdrop 5 = .reset :: ps.rdrop 5 := by
    rw [List.rdrop, List.rdrop, List.length_cons]
    by_cases hlen : 5 ≤ ps.length
    · rw [show ps.length + 1 - 5 = ps.length - 5 + 1 by omega, List.take_succ_cons]
      exact .inr rfl
    · rw [show ps.length + 1 - 5 = 0 by omega, show ps.length - 5 = 0 by omega]
      exact .inl rfl
  rcases hsplit with he | he
  · rwa [he]
  · rw [he]
    exact ⟨by rw [List.filter_cons_of_neg (by decide)]; exact h.fragments,
      by rw [List.filter_cons_of_neg (by decide)]; exact h.frames⟩

/-- Access units are not mixed if the packets that are left after the losses are unbroken, whatever the frames
are. -/
theorem access_units_unmixed {b : RTPH264PacketBuilder} {frames : List FrameSend} (hp : Packed b frames)
    {kept : List Bytes} (hkept : kept.Sublist (onWire b frames).flatten) (beyond : Bytes)
    (h : Unbroken (parseAll beyond kept.tail)) {u u' : RoomUser} {pinholeIP : Bytes} {pinholePort : Nat}
    {env : ReceiverEnv} (hnew : u.m_video_initialize = false)
    (hu : u.initialize_video pinholeIP pinholePort env = (u', true)) :
    ∀ r ∈ trace receive_video { user := u' } (kept.map (fun d => ⟨d, beyond⟩)), Pure r.2 := by
  obtain ⟨a, htraced⟩ := initialize_video_traced hnew hu
  have hreceiver := initialize_video_started hnew hu
  have hs := RTPSessionReceiver.started_fresh ⟨0, env.port⟩ pinholeIP pinholePort env.recvMemory
  cases kept with
  | nil => intro r hr; cases hr
  | cons first kept =>
    rw [List.tail_cons] at h
    have hmem : ∀ d ∈ kept, d ∈ (onWire b frames).flatten := fun d hd => hkept.subset (List.mem_cons_of_mem _ hd)
    have hparsed : (kept.map (fun d => (⟨d, beyond⟩ : Buffer))).filterMap
        (RTPSessionReceiver.started ⟨0, env.port⟩ pinholeIP pinholePort env.recvMemory).parsed =
          parseAll beyond kept := by
      rw [List.filterMap_map]
      exact List.filterMap_congr (fun d hd => parsed_wire hp rfl rfl (hmem d hd) beyond)
    have hnumbers := h.numbers
    rw [← hparsed] at hnumbers
    have hreturned := RTPSessionReceiver.fresh_in_order (n := 5) (by decide) hs ⟨first, beyond⟩ hnumbers
    rw [hparsed] at hreturned
    rw [List.map_cons]
    refine htraced.run _ hreceiver ?_ ?_
    · rw [hreturned]
      exact h.turn.reset
    · intro q hq hc a ha
      rw [hreturned] at hq
      rcases List.mem_cons.1 (List.mem_of_mem_take hq) with rfl | hq
      · exact absurd hc (by decide)
      · obtain ⟨d, hd, hdq⟩ := List.mem_filterMap.1 (List.mem_of_mem_filter hq)
        have hsent := parsed_sent hp rfl rfl (hmem d hd) ((parsed_wire hp
          (s := RTPSessionReceiver.started ⟨0, env.port⟩ pinholeIP pinholePort env.recvMemory) rfl rfl (hmem d hd)
          beyond).trans hdq)
        obtain ⟨f, hf, hqf⟩ := List.mem_flatMap.1 hsent
        exact (sentFrames_sound beyond frames hp f hf).completes ha hqf hc

/-- Frames of a few bytes, and one that is cut into two fragments. -/
def timedFrames : List FrameSend :=
  [⟨sampleFrame, 1, [], 1⟩, ⟨sampleFrame, 1, [], 2⟩, ⟨longFrame 1400, 1, [], 3⟩, ⟨sampleFrame, 1, [], 4⟩,
    ⟨sampleFrame, 1, [], 5⟩, ⟨sampleFrame, 1, [], 6⟩, ⟨sampleFrame, 1, [], 7⟩, ⟨sampleFrame, 1, [], 8⟩]

/-- What is sent of them, packed without looking for their start codes. -/
def timedRuns : List (FrameSend × List Bytes × Bool) :=
  trace (fun b f => RTPH264PacketBuilder.receive_rtp_packets { b with m_nalu_vec := f.frame.nalus } [])
    (RTPH264PacketBuilder.init {} 1 0 true).1 timedFrames

theorem timedFrames_runs : trace pack (RTPH264PacketBuilder.init {} 1 0 true).1 timedFrames = timedRuns :=
  trace_congr pack (fun f hf b =>
    pack_nalus b ((by decide +kernel : ∀ f ∈ timedFrames, ∀ n ∈ f.frame.nalus, n.length < 2 ^ 31) f hf)) _

def timedPackets : List Bytes := timedRuns.flatMap (fun r => RTPSessionVideo.rewrite_packets r.1.now_ms r.2.1)

theorem timedFrames_wire : (onWire (RTPH264PacketBuilder.init {} 1 0 true).1 timedFrames).flatten = timedPackets := by
  rw [onWire, timedFrames_runs, ← List.flatMap_def, timedPackets]

theorem timedFrames_packed : Packed (RTPH264PacketBuilder.init {} 1 0 true).1 timedFrames where
  short := by decide +kernel
  ok := by rw [timedFrames_runs]; decide +kernel
  size := by rw [timedFrames_runs]; decide +kernel

/-- The second frame is lost. -/
theorem timedPackets_unbroken : Unbroken (parseAll [] (timedPackets.eraseIdx 1).tail) where
  numbers := show List.Pairwise _ _ by decide +kernel
  turn := ⟨by decide +kernel, by decide +kernel⟩

/-- There are callbacks without it, and nothing is mixed. -/
theorem access_units_unmixed_timed :
    (∃ r ∈ trace receive_video { user := sampleUser } ((timedPackets.eraseIdx 1).map (fun d => ⟨d, []⟩)), r.2.isSome) ∧
      ∀ r ∈ trace receive_video { user := sampleUser } ((timedPackets.eraseIdx 1).map (fun d => ⟨d, []⟩)), Pure r.2 :=
  ⟨by decide +kernel, access_units_unmixed timedFrames_packed
    (by rw [timedFrames_wire]; exact List.eraseIdx_sublist _ 1) [] timedPackets_unbroken
    (u := { m_h264_callback := true }) rfl
    (show RoomUser.initialize_video _ [] 9002 sampleEnv = (sampleUser, true) from rfl)⟩

/-- The first fragment is lost, and the last one is added to the frame before. -/
theorem not_access_units_unmixed :
    ¬ ∀ (frames : List FrameSend) (kept : List Bytes), (frames.map (·.now_ms)).Nodup →
      kept.Sublist (onWire (RTPH264PacketBuilder.init {} 1 0 true).1 frames).flatten →
      ∀ r ∈ trace receive_video { user := sampleUser } (kept.map (fun d => ⟨d, []⟩)), Pure r.2 := by
  intro h
  have hkept := h timedFrames (timedPackets.eraseIdx 2) (by decide) (by
    rw [timedFrames_wire]
    exact List.eraseIdx_sublist _ 2)
  revert hkept
  decide +kernel

end TracedUser

end RtcClient
