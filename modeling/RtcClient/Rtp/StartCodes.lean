import RtcClient.Rtp.Delivery
/-!
# Which start code a NAL unit gets

The code before a NAL unit is short for an IDR slice and for the other slices that begin
a picture. A unit alone in a packet and a unit of a STAP-A packet are judged by their
first two bytes. For fragments the same test is made behind the FU header, so it sees
the second and the third byte of the unit.
-/

namespace RtcClient

open Lib

namespace RTPH264FrameAssembler

/-- The test for the short start code, on two bytes. -/
def Short (b c : UInt8) : Prop := b = 0x65 ∨ ((b = 0x61 ∨ b = 0x41) ∧ c &&& 0x80 = 0)

instance (b c : UInt8) : Decidable (Short b c) := inferInstanceAs (Decidable (_ ∨ _))

/-- A NAL unit comes in one of three ways, and the frame then shown has it behind its start code. -/
inductive Arrives (n : Bytes) (long : Bool) : Prop where
  | single {a a' : RTPH264FrameAssembler} {q : RTPPacket} (ready : Ready a) (kind : q.kind = .single)
      (carries : Carries q n) (push : a.push_packet q = (a', true)) (shown : a'.frame = startCode long ++ n)
  /-- With the units `vs` before it and the units `ws` behind it. -/
  | stapA {a a' : RTPH264FrameAssembler} {q : RTPPacket} {header : UInt8} {vs ws : List (Bool × Bytes)}
      (ready : Ready a) (kind : q.kind = .stapA)
      (carries : Carries q (header :: lengthPrefixed ((vs ++ (long, n) :: ws).map (·.2))))
      (units : ∀ u ∈ vs ++ (long, n) :: ws, u.2 ≠ [] ∧ u.2.length < 65536)
      (push : a.push_packet q = (a', true)) (shown : a'.frame = annexB (vs ++ (long, n) :: ws))
  | fragments {a a' : RTPH264FrameAssembler} {first last : RTPPacket} {middles : List RTPPacket} (ready : Ready a)
      (hfirst : first.kind = .first) (hmiddles : ∀ m ∈ middles, m.kind = .middle) (hlast : last.kind = .last)
      (unit : n = first.nalHeader :: (first.body ++ middles.flatMap RTPPacket.body ++ last.body))
      (two : 2 ≤ first.body.length) (push : push_packet (final push_packet a (first :: middles)) last = (a', true))
      (shown : a'.frame = startCode long ++ n)

/-! ## Start codes in a stream -/

theorem startCode_append_inj {long long' : Bool} {rest rest' : Bytes}
    (h : startCode long ++ rest = startCode long' ++ rest') : long = long' ∧ rest = rest' := by
  rcases long with _ | _ <;> rcases long' with _ | _
  · exact ⟨rfl, List.append_cancel_left h⟩
  · simp [startCode] at h
  · simp [startCode] at h
  · exact ⟨rfl, List.append_cancel_left h⟩

/-- The units being known, a stream tells their start codes. -/
theorem annexB_inj {us us' : List (Bool × Bytes)} (hunits : us.map (·.2) = us'.map (·.2))
    (h : annexB us = annexB us') : us = us' := by
  induction us generalizing us' with
  | nil =>
    rw [List.map_nil, eq_comm, List.map_eq_nil_iff] at hunits
    exact hunits.symm
  | cons u us ih =>
    obtain ⟨long, n⟩ := u
    cases us' with
    | nil => cases hunits
    | cons u' us' =>
      obtain ⟨long', n'⟩ := u'
      obtain ⟨hn, hrest⟩ := List.cons.inj hunits
      obtain rfl : n = n' := hn
      rw [annexB_cons, annexB_cons] at h
      obtain ⟨rfl, htail⟩ := startCode_append_inj h
      rw [ih hrest (List.append_cancel_left htail)]

theorem startCode_short (b c : UInt8) (rest beyond : Bytes) :
    start_code ⟨b :: c :: rest, beyond⟩ 0 = startCode (!decide (Short b c)) := by
  by_cases h : Short b c
  · rw [decide_eq_true h]
    exact if_pos h
  · rw [decide_eq_false h]
    exact if_neg h

theorem long_of_start_code {long : Bool} {b c : UInt8} {rest : Bytes}
    (h : startCode long = start_code ⟨b :: c :: rest, []⟩ 0) : long = !decide (Short b c) := by
  rw [startCode_short] at h
  have happ : startCode long ++ [] = startCode (!decide (Short b c)) ++ [] := congrArg (· ++ []) h
  exact (startCode_append_inj happ).1

section
variable {a : RTPH264FrameAssembler}

theorem frame_length_le (hr : Ready a) : a.frame.length ≤ ASSEMBLER_BUFFER_SIZE := by
  rw [frame, List.length_take, hr.size]
  exact Nat.min_le_right _ _

theorem shown_length_le (hr : Ready a) {a' : RTPH264FrameAssembler} {q : RTPPacket} {done : Bool}
    (hpush : a.push_packet q = (a', done)) : a'.frame.length ≤ ASSEMBLER_BUFFER_SIZE := by
  have hready := push_ready hr q
  rw [hpush] at hready
  exact frame_length_le hready

/-! ## What is written -/

/-- Alone in a packet. -/
theorem single_long (hr : Ready a) {a' : RTPH264FrameAssembler} {q : RTPPacket} {long : Bool} {h s : UInt8} {t : Bytes}
    (hk : q.kind = .single) (hq : Carries q (h :: s :: t)) (hpush : a.push_packet q = (a', true))
    (hshown : a'.frame = startCode long ++ h :: s :: t) : long = !decide (Short h s) := by
  have hcode : start_code q.m_payload 0 = start_code ⟨h :: s :: t, []⟩ 0 := by
    refine start_code_congr fun i hi => ?_
    rw [Nat.zero_add, hq.get (show i < (h :: s :: t).length by rw [List.length_cons, List.length_cons]; omega),
      Buffer.get_of_lt]
  rw [startCode_short] at hcode
  have hle := shown_length_le hr hpush
  rw [hshown, List.length_append] at hle
  have h3 := startCode_length long
  have h4 := startCode_length (!decide (Short h s))
  -- the check of the length has passed
  have hfits : (start_code q.m_payload 0 ++ h :: s :: t).length ≤ ASSEMBLER_BUFFER_SIZE := by
    by_contra hover
    rw [hcode, List.length_append] at hover
    have hfalse : (a.push_packet q).2 = false := by
      rw [push_eq hr.init, hk]
      simp only [single_nalu, hcode, hq.len]
      rw [if_pos]
      simp only [ASSEMBLER_BUFFER_SIZE] at hle hover ⊢
      split at h3 <;> split at h4 <;> omega
    rw [hpush] at hfalse
    cases hfalse
  obtain ⟨a₁, hnalu, hframe, -⟩ := single_nalu_frame hr hq hfits
  rw [push_eq hr.init, hk] at hpush
  obtain rfl : a₁ = a' := congrArg Prod.fst (hnalu.symm.trans hpush)
  rw [hshown, hcode] at hframe
  exact (startCode_append_inj hframe).1

theorem lengthPrefixed_length_le (us : List (Bool × Bytes)) :
    (lengthPrefixed (us.map (·.2))).length ≤ (annexB us).length := by
  induction us with
  | nil => simp [lengthPrefixed]
  | cons u us ih =>
    obtain ⟨long, n⟩ := u
    have hlen := startCode_length long
    simp only [List.map_cons, annexB_cons, lengthPrefixed_cons, List.length_append, be16_length]
    split at hlen <;> omega

/-- In a STAP-A packet. -/
theorem stapA_long (hr : Ready a) {a' : RTPH264FrameAssembler} {q : RTPPacket} {header : UInt8}
    {us : List (Bool × Bytes)} {long : Bool} {h s : UInt8} {t : Bytes} (hk : q.kind = .stapA)
    (hq : Carries q (header :: lengthPrefixed (us.map (·.2)))) (hunits : ∀ u ∈ us, u.2 ≠ [] ∧ u.2.length < 65536)
    (hpush : a.push_packet q = (a', true)) (hshown : a'.frame = annexB us) (hmem : (long, h :: s :: t) ∈ us) :
    long = !decide (Short h s) := by
  have hle := shown_length_le hr hpush
  rw [hshown] at hle
  have hprefixed := lengthPrefixed_length_le us
  have hns : ∀ n ∈ us.map (·.2), n ≠ [] ∧ n.length < 65536 := by
    intro n hn
    obtain ⟨u, hu, rfl⟩ := List.mem_map.1 hn
    exact hunits u hu
  have hsmall : (lengthPrefixed (us.map (·.2))).length < 2 ^ 31 := by
    simp only [ASSEMBLER_BUFFER_SIZE] at hle
    omega
  obtain ⟨us', hus, hcodes, hfits, hover⟩ := push_stapa hr hk hq hns hsmall
  by_cases hfit : (annexB us').length ≤ ASSEMBLER_BUFFER_SIZE
  · obtain ⟨a₁, hpush', hframe, -⟩ := hfits hfit
    rw [hpush] at hpush'
    obtain rfl : a' = a₁ := congrArg Prod.fst hpush'
    obtain rfl := annexB_inj hus (hframe.symm.trans hshown)
    exact long_of_start_code (hcodes _ hmem (by simp))
  · have hfalse := hover (Nat.lt_of_not_le hfit)
    rw [hpush] at hfalse
    cases hfalse

/-- Fragments that fit complete a frame, which is the NAL unit behind the start code of the first. -/
theorem fragments_frame {first last : RTPPacket} {middles : List RTPPacket} (hr : Ready a)
    (hfirst : first.kind = .first) (hmiddles : ∀ m ∈ middles, m.kind = .middle) (hlast : last.kind = .last)
    (hfit : (first.opening ++ middles.flatMap RTPPacket.body ++ last.body).length ≤ ASSEMBLER_BUFFER_SIZE) :
    ∃ a', push_packet (final push_packet a (first :: middles)) last = (a', true) ∧
      a'.frame = first.opening ++ middles.flatMap RTPPacket.body ++ last.body := by
  rw [List.length_append] at hfit
  obtain ⟨hready, hframe, hlen⟩ := opened_frame hr hfirst hmiddles (by omega)
  refine ⟨_, by rw [push_eq hready.init, hlast], ?_⟩
  rw [frame_append hready (by omega), hframe]

/-- In fragments. -/
theorem fragments_long (hr : Ready a) {a' : RTPH264FrameAssembler} {first last : RTPPacket} {middles : List RTPPacket}
    {long : Bool} {h s : UInt8} {t : Bytes} (hfirst : first.kind = .first) (hmiddles : ∀ m ∈ middles, m.kind = .middle)
    (hlast : last.kind = .last)
    (hunit : h :: s :: t = first.nalHeader :: (first.body ++ middles.flatMap RTPPacket.body ++ last.body))
    (htwo : 2 ≤ first.body.length) (hpush : push_packet (final push_packet a (first :: middles)) last = (a', true))
    (hshown : a'.frame = startCode long ++ h :: s :: t) (hfit : t.length + 6 ≤ ASSEMBLER_BUFFER_SIZE) :
    2 ≤ t.length ∧ long = !decide (Short s (t.headD 0)) := by
  obtain ⟨hheader, hbytes⟩ := List.cons.inj hunit
  obtain ⟨b, c, rest, hbody⟩ : ∃ b c rest, first.body = b :: c :: rest := by
    match hb : first.body with
    | [] => simp [hb] at htwo
    | [_] => simp [hb] at htwo
    | b :: c :: rest => exact ⟨b, c, rest, rfl⟩
  have hlastBody : 0 < last.body.length := by
    have hlen : ¬ (last.m_payload_len < 3 ∨ last.m_payload_len > ASSEMBLER_BUFFER_SIZE) := by
      intro hbad
      simp only [RTPPacket.kind, hbad, if_true] at hlast
      split_ifs at hlast
    rw [RTPPacket.body_length]
    omega
  rw [hbody, List.cons_append, List.cons_append, List.cons_append, List.cons_append] at hbytes
  obtain ⟨rfl, rfl⟩ := List.cons.inj hbytes
  have hcode : start_code first.m_payload 2 = startCode (!decide (Short s c)) := by
    rw [← startCode_short s c rest [], ← hbody]
    refine start_code_congr fun i hi => ?_
    have hi' : i < first.body.length := by omega
    have hright : Buffer.get ⟨first.body, []⟩ i = first.body[i] := Buffer.get_of_lt _ hi'
    rw [Nat.zero_add, hright]
    simp [RTPPacket.body, Buffer.read]
  have hopening : first.opening ++ middles.flatMap RTPPacket.body ++ last.body =
      startCode (!decide (Short s c)) ++ h :: s :: c :: (rest ++ middles.flatMap RTPPacket.body ++ last.body) := by
    rw [RTPPacket.opening, hcode, ← hheader, hbody]
    simp
  have hle : (first.opening ++ middles.flatMap RTPPacket.body ++ last.body).length ≤ ASSEMBLER_BUFFER_SIZE := by
    have h4 := startCode_length (!decide (Short s c))
    rw [hopening, List.length_append]
    simp only [List.length_cons] at hfit ⊢
    split at h4 <;> omega
  obtain ⟨a₁, hpush', hframe⟩ := fragments_frame hr hfirst hmiddles hlast hle
  rw [hpush] at hpush'
  obtain rfl : a' = a₁ := congrArg Prod.fst hpush'
  rw [hshown, hopening] at hframe
  refine ⟨?_, (startCode_append_inj hframe).1⟩
  simp only [List.length_cons, List.length_append]
  omega

/-! ## Ways to arrive -/

/-- A packet with the payload `p`. -/
def carrying (p : Bytes) : RTPPacket :=
  { RTPPacket.reset with m_payload := ⟨p, []⟩, m_payload_len := p.length }

theorem carries_carrying (p : Bytes) : Carries (carrying p) p := ⟨rfl, rfl⟩

/-- What fits behind a long start code can arrive alone, or else in a STAP-A packet. -/
theorem arrives_whole {h s : UInt8} {t : Bytes} (hfit : t.length + 6 ≤ ASSEMBLER_BUFFER_SIZE)
    (hway : h &&& 0x1F ≤ 23 ∨ t.length + 2 < 65536) : Arrives (h :: s :: t) (!decide (Short h s)) := by
  have hr := started_ready (.zeros ASSEMBLER_BUFFER_SIZE)
  have hcode := startCode_length (!decide (Short h s))
  have hlen : (startCode (!decide (Short h s)) ++ h :: s :: t).length ≤ ASSEMBLER_BUFFER_SIZE := by
    rw [List.length_append, List.length_cons, List.length_cons]
    split at hcode <;> omega
  by_cases htype : h &&& 0x1F ≤ 23
  · have hk := (single_kind_iff (carries_carrying (h :: s :: t))).2 htype
    have hstart : start_code (carrying (h :: s :: t)).m_payload 0 = startCode (!decide (Short h s)) :=
      startCode_short h s t []
    obtain ⟨a', hpush, hframe, -⟩ := single_nalu_frame hr (carries_carrying (h :: s :: t)) (by rwa [hstart])
    rw [hstart] at hframe
    exact .single hr hk (carries_carrying _) (by rw [push_eq hr.init, hk]; exact hpush) hframe
  · have hsmall := hway.resolve_left htype
    have hk := stapA_kind (carries_carrying (0x18 :: lengthPrefixed [h :: s :: t]))
    have hunit : ∀ n ∈ [h :: s :: t], n ≠ [] ∧ n.length < 65536 := by
      intro n hn
      obtain rfl := List.mem_singleton.1 hn
      exact ⟨by simp, hsmall⟩
    obtain ⟨us, hus, hcodes, hfits, -⟩ := push_stapa hr hk (carries_carrying _) hunit
      (by simp [lengthPrefixed]; omega)
    obtain ⟨⟨long, n⟩, rfl, hn⟩ := List.map_eq_singleton_iff.1 hus
    obtain rfl : n = h :: s :: t := hn
    obtain rfl : long = !decide (Short h s) := long_of_start_code (hcodes _ (List.mem_singleton.2 rfl) (by simp))
    obtain ⟨a', hpush, hframe, -⟩ := hfits (by rw [annexB_cons, annexB_nil, List.append_nil]; exact hlen)
    refine @Arrives.stapA _ _ _ _ _ _ [] [] hr hk (carries_carrying _) ?_ hpush hframe
    intro u hu
    obtain rfl := List.mem_singleton.1 hu
    exact ⟨by simp, hsmall⟩

/-- What fits behind a long start code and has four bytes or more can arrive in two fragments. -/
theorem arrives_fragments {h s c : UInt8} {rest : Bytes} (hrest : rest ≠ [])
    (hfit : rest.length + 7 ≤ ASSEMBLER_BUFFER_SIZE) :
    Arrives (h :: s :: c :: rest) (!decide (Short s c)) := by
  have hr := started_ready (.zeros ASSEMBLER_BUFFER_SIZE)
  have hcode := startCode_length (!decide (Short s c))
  have hfirstCarries := carries_carrying ([(h &&& 0xE0) ||| 0x1c, 0x80 ||| (h &&& 0x1F)] ++ [s, c])
  have hlastCarries := carries_carrying ([(h &&& 0xE0) ||| 0x1c, 0x40 ||| (h &&& 0x1F)] ++ rest)
  generalize hf : carrying ([(h &&& 0xE0) ||| 0x1c, 0x80 ||| (h &&& 0x1F)] ++ [s, c]) = first at hfirstCarries
  generalize hl : carrying ([(h &&& 0xE0) ||| 0x1c, 0x40 ||| (h &&& 0x1F)] ++ rest) = last at hlastCarries
  obtain ⟨hfirst, hbody⟩ := fragment_kind hfirstCarries (by simp) (by simp [ASSEMBLER_BUFFER_SIZE])
  obtain ⟨hlast, hlastBody⟩ := fragment_kind hlastCarries hrest (by omega)
  rw [if_pos (start_bits h)] at hfirst
  rw [if_neg (not_not.2 (end_bits h).1), if_pos (end_bits h).2] at hlast
  have hheader : first.nalHeader = h := by
    subst hf
    exact header_bits h
  have hstart : start_code first.m_payload 2 = startCode (!decide (Short s c)) := by
    subst hf
    exact startCode_short s c [] []
  have hopening : first.opening ++ [].flatMap RTPPacket.body ++ last.body =
      startCode (!decide (Short s c)) ++ h :: s :: c :: rest := by
    rw [RTPPacket.opening, hstart, hheader, hbody, hlastBody]
    simp
  have hnone : ∀ m ∈ ([] : List RTPPacket), m.kind = .middle := by simp
  obtain ⟨a', hpush, hframe⟩ := fragments_frame hr hfirst hnone hlast (by
    rw [hopening, List.length_append]
    simp only [List.length_cons]
    split at hcode <;> omega)
  refine .fragments hr hfirst hnone hlast ?_ (by simp [hbody]) hpush (hframe.trans hopening)
  rw [hheader, hbody, hlastBody]
  rfl

theorem annexB_unit_le {vs ws : List (Bool × Bytes)} {long : Bool} {n : Bytes} :
    (startCode long).length + n.length ≤ (annexB (vs ++ (long, n) :: ws)).length := by
  simp only [annexB, List.flatMap_append, List.flatMap_cons, List.length_append]
  omega

theorem Arrives.fits {n : Bytes} {long : Bool} (h : Arrives n long) :
    (startCode long).length + n.length ≤ ASSEMBLER_BUFFER_SIZE := by
  cases h with
  | single ready kind carries push shown =>
    have hle := shown_length_le ready push
    rwa [shown, List.length_append] at hle
  | stapA ready kind carries units push shown =>
    have hle := shown_length_le ready push
    rw [shown] at hle
    exact annexB_unit_le.trans hle
  | @fragments a a' first last middles ready hfirst hmiddles hlast unit two push shown =>
    have hready := final_rule push_packet Ready (fun _ p h => push_ready h p) ready (first :: middles)
    have hle := shown_length_le hready push
    rwa [shown, List.length_append] at hle

end

/-- A NAL unit that arrives has the start code of its first two bytes, or that of the second and the third. -/
theorem Arrives.long_eq {h s : UInt8} {t : Bytes} {long : Bool} (harr : Arrives (h :: s :: t) long)
    (hfit : t.length + 6 ≤ ASSEMBLER_BUFFER_SIZE) :
    (h &&& 0x1F ≤ 23 ∨ t.length + 2 < 65536) ∧ long = !decide (Short h s) ∨
      2 ≤ t.length ∧ long = !decide (Short s (t.headD 0)) := by
  cases harr with
  | single ready kind carries push shown =>
    left
    exact ⟨.inl ((single_kind_iff carries).1 kind), single_long ready kind carries push shown⟩
  | @stapA a a' q header vs ws ready kind carries units push shown =>
    left
    have hmem : (long, h :: s :: t) ∈ vs ++ (long, h :: s :: t) :: ws := List.mem_append_cons_self
    exact ⟨.inr (units _ hmem).2, stapA_long ready kind carries units push shown hmem⟩
  | fragments ready hfirst hmiddles hlast unit two push shown =>
    exact .inr (fragments_long ready hfirst hmiddles hlast unit two push shown hfit)

/-- The start code is the same in whatever way a NAL unit arrives, except for these units: they have four bytes or
more, fit behind a long start code, may arrive in one piece, and the rule for the short code holds either of
their first two bytes or of their second and third byte, not of both. -/
theorem start_code_agrees_iff (h s : UInt8) (t : Bytes) :
    (∀ long long', Arrives (h :: s :: t) long → Arrives (h :: s :: t) long' → long = long') ↔
      t.length ≤ 1 ∨ (Short h s ↔ Short s (t.headD 0)) ∨ ASSEMBLER_BUFFER_SIZE < t.length + 6 ∨
        23 < h &&& 0x1F ∧ 65536 ≤ t.length + 2 := by
  constructor
  · -- outside the four cases the unit arrives whole with one code and in fragments with the other
    intro hsame
    by_contra hnone
    simp only [not_or, not_and, not_lt, not_le] at hnone
    obtain ⟨hlong, hdiffer, hfit, hway⟩ := hnone
    obtain ⟨c, rest, rfl⟩ : ∃ c rest, t = c :: rest := List.exists_cons_of_length_pos (by omega)
    rw [List.length_cons] at hlong hfit
    have hrest : rest ≠ [] := List.ne_nil_of_length_pos (by omega)
    have hwhole : Arrives (h :: s :: c :: rest) (!decide (Short h s)) := by
      apply arrives_whole (by rwa [List.length_cons])
      by_cases htype : h &&& 0x1F ≤ 23
      · exact .inl htype
      · exact .inr (hway (UInt8.not_le.1 htype))
    have hfragments : Arrives (h :: s :: c :: rest) (!decide (Short s c)) := by
      apply arrives_fragments hrest
      omega
    have heq := hsame _ _ hwhole hfragments
    apply hdiffer
    simpa using heq
  · intro hcase long long' harr harr'
    by_cases hfit : t.length + 6 ≤ ASSEMBLER_BUFFER_SIZE
    · -- a unit that may arrive both ways has the two rules agree
      have hagree : (h &&& 0x1F ≤ 23 ∨ t.length + 2 < 65536) → 2 ≤ t.length →
          (!decide (Short h s)) = !decide (Short s (t.headD 0)) := by
        intro hway htwo
        rcases hcase with hone | hrule | hover | ⟨htype, hlarge⟩
        · omega
        · rw [decide_eq_decide.2 hrule]
        · omega
        · rcases hway with hsmall | hsmall
          · exact absurd hsmall (UInt8.not_le.2 htype)
          · omega
      rcases harr.long_eq hfit with ⟨hway, rfl⟩ | ⟨htwo, rfl⟩ <;>
        rcases harr'.long_eq hfit with ⟨hway', rfl⟩ | ⟨htwo', rfl⟩
      · rfl
      · exact hagree hway htwo'
      · exact (hagree hway' htwo).symm
      · rfl
    · -- only the short code leaves room
      have hshort : ∀ l, Arrives (h :: s :: t) l → l = false := by
        intro l hl
        have hle := hl.fits
        rw [List.length_cons, List.length_cons] at hle
        cases l with
        | false => rfl
        | true =>
          have hfour : (startCode true).length = 4 := rfl
          omega
      rw [hshort long harr, hshort long' harr']

/-- The first bytes of an IDR slice, which begins a picture. Alone it gets the short code, in fragments the long one. -/
theorem start_code_disagrees :
    ¬ ∀ long long', Arrives [0x65, 0x88, 0x84, 0x00] long → Arrives [0x65, 0x88, 0x84, 0x00] long' → long = long' := by
  intro hsame
  have hwhole := arrives_whole (h := 0x65) (s := 0x88) (t := [0x84, 0x00]) (by decide) (.inl (by decide))
  have hfragments : Arrives [0x65, 0x88, 0x84, 0x00] _ := arrives_fragments (by simp) (by decide)
  exact absurd (hsame _ _ hwhole hfragments) (by decide)

end RTPH264FrameAssembler

end RtcClient
