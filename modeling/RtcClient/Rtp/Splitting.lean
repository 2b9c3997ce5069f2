import RtcClient.Codec.Scanners
import RtcClient.Codec.SearchReads
import RtcClient.Rtp.Packing
/-!
# Splitting a frame

`send_data` reads nothing outside the frame it splits, whatever the bytes
(`Reading.within_send_data`), and gives back the NAL units of an Annex-B stream. The
scanners of `codec_utils` visit the same units (`scan_splits`).
-/

namespace RtcClient

open Lib

namespace Reading

open Lib.Reading RTPH264PacketBuilder

/-! ## The splitter with its reads -/

/-- `while (!*(startCode++));`. -/
def skip_zeros (data : Buffer) (startCode : Nat) : Reading Nat :=
  if data.get startCode = 0 ∧ startCode < data.bytes.length + data.beyond.length then
    (byte data startCode).after (skip_zeros data (startCode + 1))
  else (byte data startCode).after (pure (startCode + 1))
termination_by data.bytes.length + data.beyond.length - startCode

theorem value_skip_zeros (data : Buffer) (startCode : Nat) :
    (skip_zeros data startCode).value = RTPH264PacketBuilder.skip_zeros data startCode := by
  fun_induction RTPH264PacketBuilder.skip_zeros data startCode with
  | case1 startCode h ih => rw [skip_zeros, if_pos h, value_after, ih]
  | case2 startCode h => rw [skip_zeros, if_neg h, value_after, value_pure]

def split_loop (data : Buffer) (addr startCode stop : Nat) : Reading (List Bytes) :=
  if startCode < stop then
    let start := skip_zeros data startCode
    let nextStart := avc_find_start_code data addr start.value stop
    let naluLen := int32 (nextStart.value - start.value)
    let rest := split_loop data addr nextStart.value stop
    start.after (nextStart.after
      (rest.after (pure (if naluLen > 0 then data.read start.value naluLen.toNat :: rest.value else rest.value))))
  else pure []
termination_by stop - startCode
decreasing_by
  rw [value_avc_find_start_code, value_skip_zeros]
  have := lt_avc_find_start_code data addr (lt_skip_zeros data startCode) ‹startCode < stop›
  omega

def send_data (b : RTPH264PacketBuilder) (data : Buffer) (addr len : Nat) : Reading (RTPH264PacketBuilder × Bool) :=
  let startCode := avc_find_start_code data addr 0 len
  let nalus := split_loop data addr startCode.value len
  startCode.after (nalus.after (pure ({ b with m_nalu_vec := nalus.value }, true)))

theorem value_split_loop (data : Buffer) (addr startCode stop : Nat) :
    (split_loop data addr startCode stop).value = RTPH264PacketBuilder.split_loop data addr startCode stop := by
  fun_induction RTPH264PacketBuilder.split_loop data addr startCode stop with
  | case1 startCode h start nextStart naluLen rest hlen ih =>
    rw [split_loop, if_pos h]
    simp only [value_after, value_pure, value_avc_find_start_code, value_skip_zeros]
    exact (if_pos hlen).trans (congrArg _ ih)
  | case2 startCode h start nextStart naluLen rest hlen ih =>
    rw [split_loop, if_pos h]
    simp only [value_after, value_pure, value_avc_find_start_code, value_skip_zeros]
    exact (if_neg hlen).trans ih
  | case3 startCode h =>
    rw [split_loop, if_neg h]
    rfl

theorem value_send_data (b : RTPH264PacketBuilder) (data : Buffer) (addr len : Nat) :
    (send_data b data addr len).value = b.send_data data addr len := by
  rw [send_data]
  simp only [value_after, value_pure, value_avc_find_start_code, value_split_loop]
  rfl

end Reading

/-! ## Skipping a start code -/

namespace RTPH264PacketBuilder

/-- The splitter's loop has no bound, but it stops at the 01 of the code, as the scanners' does. -/
theorem skip_zeros_at {data : Buffer} {stop c : Nat} (hc : StartCodeAt data c) (hstop : c + 3 < stop)
    (hlen : stop ≤ data.bytes.length) : skip_zeros data c = c + 3 := by
  obtain ⟨h0, h1, h2⟩ := hc
  have hone : data.get (c + 2) ≠ 0 := by rw [h2]; decide
  unfold skip_zeros
  rw [if_pos ⟨h0, by omega⟩]
  unfold skip_zeros
  rw [if_pos ⟨h1, by omega⟩]
  unfold skip_zeros
  rw [if_neg (fun h => hone h.1)]

theorem skip_zeros_code_begins {data : Buffer} {stop r c : Nat} (h : CodeBegins data stop r c)
    (hlen : stop ≤ data.bytes.length) : skip_zeros data r = skip_code data r stop := by
  have hbehind := h.behind
  rw [h.skip_code]
  rcases h.begins with rfl | ⟨rfl, hzero⟩
  · exact skip_zeros_at h.code hbehind hlen
  · unfold skip_zeros
    rw [if_pos ⟨hzero, by omega⟩]
    exact skip_zeros_at h.code hbehind hlen

end RTPH264PacketBuilder

namespace Reading

open Lib.Reading RTPH264PacketBuilder

/-- Skipping reads up to where it ends. -/
theorem within_skip_zeros (data : Buffer) (startCode : Nat) :
    Within startCode (RTPH264PacketBuilder.skip_zeros data startCode) (skip_zeros data startCode) := by
  fun_induction RTPH264PacketBuilder.skip_zeros data startCode with
  | case1 startCode h ih =>
    have hlt := lt_skip_zeros data (startCode + 1)
    rw [skip_zeros, if_pos h]
    exact (Within.byte (by omega)).after (ih.mono (by omega) (Nat.le_refl _))
  | case2 startCode h =>
    rw [skip_zeros, if_neg h]
    exact (Within.byte (by omega)).after (.pure _)

/-- From a start code on, the splitter stays inside the frame. -/
theorem within_split_loop (data : Buffer) (addr startCode stop : Nat) (hlen : stop ≤ data.bytes.length)
    (h : AtCode data stop startCode) : Within 0 stop (split_loop data addr startCode stop) := by
  fun_induction RTPH264PacketBuilder.split_loop data addr startCode stop with
  | case1 startCode hlt start nextStart naluLen rest _ ih | case2 startCode hlt start nextStart naluLen rest _ ih =>
    obtain ⟨c, hc⟩ := h.exists_code hlt
    have hbehind := hc.behind
    have hstart : start = c + 3 := (skip_zeros_code_begins hc hlen).trans hc.skip_code
    have hskip : Within 0 stop (skip_zeros data startCode) :=
      (within_skip_zeros data startCode).mono (Nat.zero_le _) (by omega)
    have hsearch : Within 0 stop (avc_find_start_code data addr start stop) :=
      (within_avc_find_start_code data addr start stop).mono (Nat.zero_le _) (Nat.le_refl _)
    have hrest : Within 0 stop (split_loop data addr nextStart stop) :=
      ih (avc_find_start_code_atCode data addr start stop)
    rw [split_loop, if_pos hlt]
    simp only [value_avc_find_start_code, value_skip_zeros]
    exact hskip.after (hsearch.after (hrest.after (.pure _)))
  | case3 startCode hlt =>
    rw [split_loop, if_neg hlt]
    exact .pure _

/-- The splitter reads nothing outside the frame, whatever the bytes. -/
theorem within_send_data (b : RTPH264PacketBuilder) (data : Buffer) (addr : Nat) :
    Within 0 data.bytes.length (send_data b data addr data.bytes.length) := by
  apply (within_avc_find_start_code data addr 0 data.bytes.length).after
  apply Within.after
  · rw [value_avc_find_start_code]
    exact within_split_loop data addr _ _ (Nat.le_refl _) (avc_find_start_code_atCode data addr 0 _)
  · exact .pure _

end Reading

/-! ## Splitting inverts joining -/

/-- The splitter takes a stream apart into the NAL units it was joined from, at any
address and with start codes of either length. -/
theorem split_inverts_join (b : RTPH264PacketBuilder) (addr : Nat) (beyond : Bytes) (us : List (Bool × Bytes))
    (h : ∀ u ∈ us, u.2 ≠ [] ∧ ¬ [0, 0, 1] <:+: u.2 ∧ u.2.head? ≠ some 0 ∧ u.2.getLast? ≠ some 0 ∧
      u.2.length < 2 ^ 31) :
    let sent := Reading.send_data b ⟨annexB us, beyond⟩ addr (annexB us).length
    sent.value = ({ b with m_nalu_vec := us.map (·.2) }, true) ∧ ∀ i ∈ sent.reads, i < (annexB us).length := by
  intro sent
  have hsep : ∀ u ∈ us, Separable u.2 := by
    intro u hu
    obtain ⟨h0, h1, -, h2, -⟩ := h u hu
    exact ⟨h0, h1, h2⟩
  have hclip : (us.map (·.2)).filterMap RTPH264PacketBuilder.clip = us.map (·.2) := by
    apply RTPH264PacketBuilder.filterMap_clip
    intro n hn
    obtain ⟨u, hu, rfl⟩ := List.mem_map.1 hn
    exact ⟨(h u hu).1, (h u hu).2.2.2.2⟩
  refine ⟨?_, fun i hi => ((Reading.within_send_data b ⟨annexB us, beyond⟩ addr) i hi).2⟩
  rw [← hclip, ← b.send_data_separable addr beyond hsep]
  exact Reading.value_send_data b _ addr _

theorem split_inverts_join_two :
    let us : List (Bool × Bytes) := [(true, [0x67]), (false, [0x65, 0, 0, 2]), (false, [0x41])]
    let sent := Reading.send_data {} ⟨annexB us, [0, 0]⟩ 3 (annexB us).length
    sent.value = ({ m_nalu_vec := [[0x67], [0x65, 0, 0, 2], [0x41]] }, true) ∧
      ∀ i ∈ sent.reads, i < (annexB us).length :=
  split_inverts_join {} 3 [0, 0] [(true, [0x67]), (false, [0x65, 0, 0, 2]), (false, [0x41])] (by decide)

/-- Lengths are kept in an `int`, so 2 GiB are too long. -/
theorem clip_long {n : Bytes} (hlen : n.length = 2 ^ 31) : RTPH264PacketBuilder.clip n = none := by
  rw [RTPH264PacketBuilder.clip, hlen]
  exact if_neg (by decide)

theorem separable_replicate {k : Nat} {x : UInt8} (hk : 0 < k) (hx : x ≠ 0) : Separable (List.replicate k x) where
  ne_nil := by
    apply List.length_pos_iff.1
    rwa [List.length_replicate]
  noCode := fun hc => hx (List.eq_of_mem_replicate (hc.subset List.mem_cons_self)).symm
  last := fun he => hx (List.eq_of_mem_replicate (List.mem_of_getLast? he)).symm

theorem split_loses_long_unit :
    ∃ n : Bytes, n = List.replicate (2 ^ 31) 0x65 ∧
      (n ≠ [] ∧ ¬ [0, 0, 1] <:+: n ∧ n.head? ≠ some 0 ∧ n.getLast? ≠ some 0) ∧
      (Reading.send_data {} ⟨annexB [(false, n)], []⟩ 0 (annexB [(false, n)]).length).value.1.m_nalu_vec ≠ [n] := by
  have hsep : Separable (List.replicate (2 ^ 31) 0x65) := separable_replicate (by decide) (by decide)
  have hlen : (List.replicate (2 ^ 31) (0x65 : UInt8)).length = 2 ^ 31 := List.length_replicate
  have hmem : ∀ x ∈ List.replicate (2 ^ 31) (0x65 : UInt8), x = 0x65 := fun x hx => List.eq_of_mem_replicate hx
  generalize List.replicate (2 ^ 31) (0x65 : UInt8) = n at hsep hlen hmem
  refine ⟨n, rfl, ⟨hsep.ne_nil, hsep.noCode, ?_, hsep.last⟩, ?_⟩
  · intro he
    exact absurd (hmem 0 (List.mem_of_head? he)) (by decide)
  · rw [Reading.value_send_data, RTPH264PacketBuilder.send_data_separable {} 0 [] (by simpa using hsep)]
    simp [clip_long hlen]

/-! ## The scanners see the units of the splitter -/

/-- The type of a NAL unit is in its first byte. -/
def nal_type (n : Bytes) : UInt8 := n.headD 0 &&& 0x1F

/-- The unit the splitter keeps of a span. -/
def kept (data : Buffer) (u : Nat × Nat) : Option Bytes :=
  if int32 (u.2 - u.1) > 0 then some (data.read u.1 (int32 (u.2 - u.1)).toNat) else none

theorem split_loop_spans (data : Buffer) (addr startCode stop : Nat) (hlen : stop ≤ data.bytes.length)
    (h : AtCode data stop startCode) :
    RTPH264PacketBuilder.split_loop data addr startCode stop =
      (spans data addr stop startCode).filterMap (kept data) := by
  fun_induction spans data addr stop startCode with
  | case1 startCode hlt start nextStart ih =>
    obtain ⟨c, hc⟩ := h.exists_code hlt
    have hskip : RTPH264PacketBuilder.skip_zeros data startCode = start :=
      RTPH264PacketBuilder.skip_zeros_code_begins hc hlen
    have hrest := ih (avc_find_start_code_atCode data addr start stop)
    rw [RTPH264PacketBuilder.split_loop, if_pos hlt, hskip]
    dsimp only
    rw [hrest, List.filterMap_cons, kept]
    by_cases hpos : int32 ((nextStart : Int) - start) > 0
    · rw [if_pos hpos, if_pos hpos]
    · rw [if_neg hpos, if_neg hpos]
  | case2 startCode hlt =>
    rw [RTPH264PacketBuilder.split_loop, if_neg hlt]
    rfl

/-- Spans lie in the stream, and where two codes follow each other the byte between them is zero. -/
theorem mem_spans {data : Buffer} {addr stop startCode : Nat} (h : AtCode data stop startCode) {u : Nat × Nat}
    (hu : u ∈ spans data addr stop startCode) : u.1 ≤ u.2 ∧ (u.2 = u.1 → data.get u.1 = 0) := by
  fun_induction spans data addr stop startCode with
  | case1 startCode hlt start nextStart ih =>
    have hnext := avc_find_start_code_atCode data addr start stop
    rcases List.mem_cons.1 hu with rfl | hu
    · obtain ⟨c, hc⟩ := h.exists_code hlt
      have hstart : start = c + 3 := hc.skip_code
      have hbehind := hc.behind
      refine ⟨?_, fun heq => ?_⟩
      · rcases avc_find_start_code_found data addr start stop with hfound | ⟨hfound, -⟩
        · exact Nat.le_trans (by omega) (Nat.le_of_eq hfound.symm)
        · exact hfound
      · rcases hnext with hstop | ⟨c', hc'⟩
        · exact absurd (hstop.symm.trans heq) (by omega)
        · rw [show avc_find_start_code data addr start stop = start from heq] at hc'
          rcases hc'.begins with rfl | ⟨-, hzero⟩
          · exact hc'.code.1
          · exact hzero
    · exact ih hnext hu
  | case2 startCode hlt => cases hu

/-- A span short enough for an `int` is kept with its type, or it is empty and has type 0. -/
theorem kept_short (data : Buffer) {u : Nat × Nat} (hle : u.1 ≤ u.2) (hshort : u.2 - u.1 < 2 ^ 31)
    (hzero : u.2 = u.1 → data.get u.1 = 0) :
    (∃ n, kept data u = some n ∧ nal_type n = data.get u.1 &&& 0x1F) ∨
      kept data u = none ∧ data.get u.1 &&& 0x1F = 0 := by
  have hlen : int32 ((u.2 : Int) - u.1) = (u.2 - u.1 : Nat) := by
    rw [← int32_of_lt hshort]
    congr 1
    omega
  by_cases h : u.1 < u.2
  · left
    obtain ⟨k, hk⟩ : ∃ k, u.2 - u.1 = k + 1 := ⟨u.2 - u.1 - 1, by omega⟩
    refine ⟨data.read u.1 (u.2 - u.1), ?_, ?_⟩
    · rw [kept, hlen, if_pos (by omega), Int.toNat_natCast]
    · rw [nal_type, hk, Buffer.read, List.range_succ_eq_map]
      rfl
  · right
    have heq : u.2 = u.1 := by omega
    refine ⟨?_, ?_⟩
    · rw [kept, hlen, if_neg (by omega)]
    · rw [hzero heq]
      rfl

/-- The types the scanners see are those of the units the splitter keeps, but for
the type 0 of empty units. -/
theorem types_kept (data : Buffer) (p : UInt8 → Bool) (hp : p 0 = false) (us : List (Nat × Nat))
    (h : ∀ u ∈ us, (u.1 ≤ u.2 ∧ (u.2 = u.1 → data.get u.1 = 0)) ∧ u.2 - u.1 < 2 ^ 31) :
    (types data us).filter p = ((us.filterMap (kept data)).map nal_type).filter p := by
  induction us with
  | nil => rfl
  | cons u us ih =>
    have hrest := ih (fun v hv => h v (by simp [hv]))
    obtain ⟨⟨hle, hzero⟩, hshort⟩ := h u (by simp)
    unfold types at hrest ⊢
    rw [List.map_cons, List.filterMap_cons]
    rcases kept_short data hle hshort hzero with ⟨n, hn, htype⟩ | ⟨hn, htype⟩
    · rw [hn, List.map_cons, htype, List.filter_cons, List.filter_cons, hrest]
    · rw [hn, htype, List.filter_cons_of_neg (by simp [hp]), hrest]

/-- Where the NAL units of a buffer are: the spans of its start codes. -/
def nalu_spans (data : Buffer) (addr : Nat) : List (Nat × Nat) :=
  spans data addr data.bytes.length (avc_find_start_code data addr 0 data.bytes.length)

/-- A scanner that ignores type 0 runs over the units of the splitter. -/
theorem scan_splits {A : Type} (b : RTPH264PacketBuilder) {data : Buffer} {addr : Nat}
    (h : ∀ u ∈ nalu_spans data addr, u.2 - u.1 < 2 ^ 31) (on_nalu : A → UInt8 → A × Bool) (p : UInt8 → Bool)
    (hp : p 0 = false) (hskip : ∀ a type, p type = false → on_nalu a type = (a, false)) (a : A) :
    scan on_nalu data addr data.bytes.length a =
      visit on_nalu (((b.send_data data addr data.bytes.length).1.m_nalu_vec.map nal_type).filter p) a := by
  have hat := avc_find_start_code_atCode data addr 0 data.bytes.length
  have hsplit : (b.send_data data addr data.bytes.length).1.m_nalu_vec =
      (nalu_spans data addr).filterMap (kept data) := split_loop_spans data addr _ _ (Nat.le_refl _) hat
  have htypes := types_kept data p hp (nalu_spans data addr) (fun u hu => ⟨mem_spans hat hu, h u hu⟩)
  rw [scan_eq, hsplit, ← htypes]
  exact visit_filter on_nalu p hskip _ a

/-- Counting goes through an `int`. -/
theorem visit_count (ts : List UInt8) (h : ∀ t ∈ ts, t = 5) :
    ∀ k : Nat, visit (fun (count : Int) type => (if type = 5 then int32 (count + 1) else count, false)) ts (int32 k) =
      int32 (k + ts.length : Nat) := by
  induction ts with
  | nil => intro k; rfl
  | cons t ts ih =>
    intro k
    have ht : t = 5 := h t (by simp)
    simp only [visit, if_pos ht, Bool.false_eq_true, if_false]
    rw [int32_add_one]
    have hnext := ih (fun t ht => h t (by simp [ht])) (k + 1)
    rw [show (k : Int) + 1 = (k + 1 : Nat) from rfl, hnext, List.length_cons]
    congr 2
    omega

/-- The search for a key frame ends at the first type it looks for. -/
theorem visit_key_frame (ts : List UInt8) (h : ∀ t ∈ ts, t = 1 ∨ t = 5) :
    visit (fun found type => if type = 5 ∨ type = 1 then (decide (type = 5), true) else (found, false)) ts false =
      true ↔ ts.head? = some 5 := by
  cases ts with
  | nil => simp [visit]
  | cons t ts => simp [visit, (h t (by simp)).symm]

theorem visit_any (ts : List UInt8) (h : ∀ t ∈ ts, t = 5 ∨ t = 7 ∨ t = 8) :
    visit (fun found type => if type = 5 ∨ type = 7 ∨ type = 8 then (true, true) else (found, false)) ts false = true ↔
      ts ≠ [] := by
  cases ts with
  | nil => simp [visit]
  | cons t ts => simp [visit, h t (by simp)]

/-- The scanners agree with the splitter about the types of NAL units whose lengths fit an `int`. -/
theorem scanners_agree (b : RTPH264PacketBuilder) (data : Buffer) (addr : Nat)
    (h : ∀ u ∈ nalu_spans data addr, u.2 - u.1 < 2 ^ 31) :
    let V := (b.send_data data addr data.bytes.length).1.m_nalu_vec
    count_avc_key_frames data addr data.bytes.length = int32 (V.countP (fun n => nal_type n = 5)) ∧
      (avc_find_key_frame data addr data.bytes.length = true ↔
        ∃ n, V.find? (fun n => nal_type n = 1 ∨ nal_type n = 5) = some n ∧ nal_type n = 5) ∧
      (avc_find_sps_pps_idr data addr data.bytes.length = true ↔
        ∃ n ∈ V, nal_type n = 5 ∨ nal_type n = 7 ∨ nal_type n = 8) := by
  intro V
  refine ⟨?_, ?_, ?_⟩
  · have hscan := scan_splits b h (fun (count : Int) type => (if type = 5 then int32 (count + 1) else count, false))
      (fun type => decide (type = 5)) rfl
      (fun count type hp => by rw [if_neg (of_decide_eq_false hp)]) 0
    have hcount := visit_count ((V.map nal_type).filter (fun type => decide (type = 5)))
      (fun t ht => of_decide_eq_true (List.mem_filter.1 ht).2) 0
    rw [Nat.zero_add, ← List.countP_eq_length_filter, List.countP_map] at hcount
    exact hscan.trans hcount
  · have hscan := scan_splits b h
      (fun found type => if type = 5 ∨ type = 1 then (decide (type = 5), true) else (found, false))
      (fun type => decide (type = 1 ∨ type = 5)) rfl
      (fun found type hp => by rw [if_neg (fun ht => of_decide_eq_false hp ht.symm)]) false
    have hfirst := visit_key_frame ((V.map nal_type).filter (fun type => decide (type = 1 ∨ type = 5)))
      (fun t ht => of_decide_eq_true (List.mem_filter.1 ht).2)
    rw [List.head?_filter, List.find?_map, Option.map_eq_some_iff] at hfirst
    exact (Eq.congr_left hscan).trans hfirst
  · have hscan := scan_splits b h
      (fun found type => if type = 5 ∨ type = 7 ∨ type = 8 then (true, true) else (found, false))
      (fun type => decide (type = 5 ∨ type = 7 ∨ type = 8)) rfl
      (fun found type hp => by rw [if_neg (of_decide_eq_false hp)]) false
    have hany := visit_any ((V.map nal_type).filter (fun type => decide (type = 5 ∨ type = 7 ∨ type = 8)))
      (fun t ht => of_decide_eq_true (List.mem_filter.1 ht).2)
    refine (Eq.congr_left hscan).trans (hany.trans ?_)
    rw [← List.length_pos_iff, List.length_filter_pos_iff]
    simp only [List.mem_map, exists_exists_and_eq_and, decide_eq_true_eq]

theorem scanners_agree_broken_stream :
    let data : Buffer := ⟨[0, 0, 1, 0, 0, 0, 1, 0x67, 0, 0, 1, 0x65, 1, 0, 0, 1], [0]⟩
    let V := (({} : RTPH264PacketBuilder).send_data data 0 data.bytes.length).1.m_nalu_vec
    count_avc_key_frames data 0 data.bytes.length = int32 (V.countP (fun n => nal_type n = 5)) ∧
      (avc_find_key_frame data 0 data.bytes.length = true ↔
        ∃ n, V.find? (fun n => nal_type n = 1 ∨ nal_type n = 5) = some n ∧ nal_type n = 5) ∧
      (avc_find_sps_pps_idr data 0 data.bytes.length = true ↔
        ∃ n ∈ V, nal_type n = 5 ∨ nal_type n = 7 ∨ nal_type n = 8) :=
  scanners_agree {} ⟨[0, 0, 1, 0, 0, 0, 1, 0x67, 0, 0, 1, 0x65, 1, 0, 0, 1], [0]⟩ 0 (by decide +kernel)

/-- The one unit of a short stream. -/
theorem nalu_spans_one {n : Bytes} (hn : Separable n) :
    nalu_spans ⟨annexB [(false, n)], []⟩ 0 = [(3, (annexB [(false, n)]).length)] := by
  have hdata : annexB [(false, n)] = [0, 0, 1] ++ n := by simp [startCode]
  have hpos := List.length_pos_iff.2 hn.ne_nil
  have hcode : CodeBegins ⟨[0, 0, 1] ++ n, []⟩ ([0, 0, 1] ++ n).length 0 0 :=
    ⟨.inl rfl, ⟨rfl, rfl, rfl⟩, by rw [List.length_append]; exact Nat.lt_add_of_pos_right hpos⟩
  have hfirst := avc_find_start_code_eq 0 (n := []) (by simp) (by simp) [] [] [(false, n)] (by simpa using hn.ne_nil)
  have hnext := avc_find_start_code_eq 0 hn.noCode hn.last [0, 0, 1] [] [] (by simp)
  simp only [annexB_nil, List.append_nil, List.nil_append, List.length_nil, Nat.add_zero, hdata] at hfirst hnext
  have hstop : avc_find_start_code ⟨[0, 0, 1] ++ n, []⟩ 0 3 ([0, 0, 1] ++ n).length = ([0, 0, 1] ++ n).length := by
    exact hnext.trans List.length_append.symm
  rw [nalu_spans, hdata, hfirst, spans, if_pos (by rw [List.length_append]; exact Nat.add_pos_left (by decide) _)]
  dsimp only
  rw [hcode.skip_code, hstop, spans_stop]

/-- The splitter loses an IDR unit of 2 GiB, which the scanner counts. -/
theorem scanners_count_lost_unit :
    ∃ n : Bytes, n = List.replicate (2 ^ 31) 0x65 ∧
      count_avc_key_frames ⟨annexB [(false, n)], []⟩ 0 (annexB [(false, n)]).length ≠
        (RTPH264PacketBuilder.send_data {} ⟨annexB [(false, n)], []⟩ 0 (annexB [(false, n)]).length).1.m_nalu_vec.countP
          (fun n => nal_type n = 5) := by
  have hsep : Separable (List.replicate (2 ^ 31) 0x65) := separable_replicate (by decide) (by decide)
  have hlen : (List.replicate (2 ^ 31) (0x65 : UInt8)).length = 2 ^ 31 := List.length_replicate
  have hmem : ∀ x ∈ List.replicate (2 ^ 31) (0x65 : UInt8), x = 0x65 := fun x hx => List.eq_of_mem_replicate hx
  generalize List.replicate (2 ^ 31) (0x65 : UInt8) = n at hsep hlen hmem
  refine ⟨n, rfl, ?_⟩
  have hcount : count_avc_key_frames ⟨annexB [(false, n)], []⟩ 0 (annexB [(false, n)]).length = 1 := by
    have hspans := nalu_spans_one hsep
    have htype : Buffer.get ⟨annexB [(false, n)], []⟩ 3 = 0x65 := by
      obtain ⟨x, rest, rfl⟩ := List.exists_cons_of_ne_nil hsep.ne_nil
      exact hmem x (by simp)
    rw [count_avc_key_frames, scan_eq]
    rw [show spans _ 0 _ _ = [(3, (annexB [(false, n)]).length)] from hspans, types, List.map_singleton, htype]
    decide
  have hunits : ∀ u ∈ [(false, n)], Separable u.2 := by simpa using hsep
  have hsplit := RTPH264PacketBuilder.send_data_separable {} 0 [] hunits
  rw [hcount, hsplit]
  simp [clip_long hlen]

end RtcClient
