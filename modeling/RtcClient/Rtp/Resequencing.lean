import Mathlib.Data.List.DropRight
import RtcClient.Lib.Resequencing
import RtcClient.Rtp.ReorderList
/-!
# What the receiver makes of a reordered stream

A stream of packets goes through a network that loses, repeats and reorders
datagrams, but lets none come more than `n - 1` places late. What the receiver then
returns does not depend on how they came: the packets that arrived, each once and in
the order of the stream, except the last `n`, which it still holds, and the one with
number 0, which it takes for a copy of the packet it has never parsed
(`returned_in_sending_order`).
-/

namespace RtcClient.RTPSessionReceiver

open Lib

/-- A receiver that `init` returns true for is a started one. -/
theorem eq_started {recvParams : RTPTransParamsV4} {pinholeIP : Bytes} {pinholePort : Nat} {bound : Bool}
    {memory : Block RTP_RECV_BUFFER_SIZE} {receiver : RTPSessionReceiver}
    (h : init {} true recvParams pinholeIP pinholePort bound memory = (receiver, true)) :
    receiver = started recvParams pinholeIP pinholePort memory := by
  cases bound with
  | true => rw [started, h]
  | false => cases h

section
variable {n : Nat} {s : RTPSessionReceiver}

/-- The first call offers the unparsed packet, the later ones what they parse. -/
theorem offers_fresh (hn : 1 ≤ n) (hs : Fresh s) (first : Buffer) (arrivals : List Buffer) :
    offers n s (first :: arrivals) = some .reset :: arrivals.map s.parsed := by
  have hlater : ∀ (as : List Buffer) (t : RTPSessionReceiver), t.m_reorder = true →
      Increasing RTPPacket.m_sequence t.m_reorder_list → t.m_reorder_list ≠ [] →
      offers n t as = as.map t.parsed := by
    intro as
    induction as with
    | nil => intro t _ _ _; rfl
    | cons a as ih =>
      intro t hr hl hne
      have hparsed : (call n t a).1.parsed = t.parsed := funext (fun b => call_parsed hn hr a b)
      rw [offers, ih _ (call_reorder hn hr a) (call_increasing hn hr hl a) (call_ne_nil hn hr hl a), hparsed, offered,
        if_neg hne, List.map_cons]
  have hl : Increasing RTPPacket.m_sequence s.m_reorder_list := by rw [hs.empty]; exact .nil
  have hparsed : (call n s first).1.parsed = s.parsed := funext (fun b => call_parsed hn hs.reorder first b)
  rw [offers, hlater _ _ (call_reorder hn hs.reorder first) (call_increasing hn hs.reorder hl first)
    (call_ne_nil hn hs.reorder hl first), hparsed, offered, if_pos hs.empty]

/-- The unparsed packet has sequence number 0, so it displaces nothing. -/
theorem displaced_reset {later : List RTPPacket} {m : Nat} (hd : Jitter.Displaced RTPPacket.m_sequence m later) :
    Jitter.Displaced RTPPacket.m_sequence m (.reset :: later) := by
  intro pre d post he
  cases pre with
  | nil => exact Nat.zero_le m
  | cons p pre =>
    simp only [List.cons_append, List.cons.injEq] at he
    obtain ⟨rfl, he⟩ := he
    simpa [List.filter_cons, RTPPacket.reset] using hd pre d post he

/-- What was returned and what is held: the unparsed packet, then the arrived numbers in increasing
order. -/
theorem lined_up (hn : 1 ≤ n) (hs : Fresh s) (first : Buffer) (arrivals : List Buffer)
    (hd : Jitter.Displaced RTPPacket.m_sequence (n - 1) (arrivals.filterMap s.parsed)) :
    ∃ rest, returned n s (first :: arrivals) ++ (after n s (first :: arrivals)).m_reorder_list = .reset :: rest ∧
      Increasing RTPPacket.m_sequence (.reset :: rest) ∧ (∀ p ∈ rest, p ∈ arrivals.filterMap s.parsed) ∧
      ∀ p ∈ arrivals.filterMap s.parsed, p.m_sequence ∈ (RTPPacket.reset :: rest).map RTPPacket.m_sequence := by
  have hn' : n - 1 + 1 = n := by omega
  have hoffers : (offers n s (first :: arrivals)).reduceOption = .reset :: arrivals.filterMap s.parsed := by
    rw [offers_fresh hn hs, List.reduceOption_cons_of_some, List.reduceOption, List.filterMap_map]
    rfl
  have hrun := (@Jitter.run_resequenced _ _ _ RTPPacket.m_sequence (n - 1)) (offers n s (first :: arrivals))
    (by rw [hoffers]; exact displaced_reset hd)
  rw [hn', fresh_run hn hs, hoffers] at hrun
  obtain ⟨hinc, hsub, hall⟩ := hrun
  simp only at hinc hsub hall
  obtain ⟨rest, hrest⟩ : ∃ rest, returned n s (first :: arrivals) ++
      (after n s (first :: arrivals)).m_reorder_list = .reset :: rest := by
    rcases first_returned hn hs (first :: arrivals) with ⟨hlist, hret⟩ | ⟨rest, hret⟩
    · rcases hlist with h | ⟨rest, h⟩
      · cases h
      · exact ⟨rest, by rw [hret, h]; rfl⟩
    · exact ⟨_, by rw [hret]; rfl⟩
  rw [hrest] at hinc hsub hall
  refine ⟨rest, hrest, hinc, ?_, fun p hp => hall p (List.mem_cons_of_mem _ hp)⟩
  intro p hp
  rcases List.mem_cons.1 (hsub p (List.mem_cons_of_mem _ hp)) with rfl | h
  · exact absurd ((List.pairwise_cons.1 hinc).1 _ hp) (lt_irrefl _)
  · exact h

/-- All but the last `n` of them are returned. -/
theorem returned_take (hn : 1 ≤ n) (hs : Fresh s) (arrivals : List Buffer) :
    returned n s arrivals =
      (returned n s arrivals ++ (after n s arrivals).m_reorder_list).take
        ((returned n s arrivals ++ (after n s arrivals).m_reorder_list).length - n) := by
  have hfull := (@Jitter.run_full _ _ _ RTPPacket.m_sequence) n (offers n s arrivals)
  have hbound := (after_inv hn hs arrivals).bounded
  rw [fresh_run hn hs] at hfull
  simp only at hfull hbound
  rw [List.length_append]
  rcases hfull with h | h
  · rw [h, List.nil_append, List.length_nil, Nat.sub_eq_zero_of_le (by omega), List.take_zero]
  · rw [h, Nat.add_sub_cancel, List.take_left]

end

/-- The packets of the stream that arrived. -/
def arrived (s : RTPSessionReceiver) (arrivals : List Buffer) (p : RTPPacket) : Bool := p ∈ arrivals.filterMap s.parsed

/-- The packets of the stream that arrived with a number of their own: number 0 is the unparsed packet's. -/
def arrivedNew (s : RTPSessionReceiver) (arrivals : List Buffer) (p : RTPPacket) : Bool :=
  s.arrived arrivals p && 0 < p.m_sequence

/-- A fresh receiver has the unparsed packet and then, in the order of the stream, the arrived packets with a number
above 0. It still holds the last `n` of them. -/
theorem fresh_take {n : Nat} (hn : 1 ≤ n) {s : RTPSessionReceiver} (hs : Fresh s) {sent : List RTPPacket}
    (hsent : Increasing RTPPacket.m_sequence sent) (first : Buffer) {arrivals : List Buffer}
    (hfrom : ∀ b ∈ arrivals, ∀ p ∈ s.parsed b, p ∈ sent)
    (hd : Jitter.Displaced RTPPacket.m_sequence (n - 1) (arrivals.filterMap s.parsed)) :
    Increasing RTPPacket.m_sequence (.reset :: sent.filter (s.arrivedNew arrivals)) ∧
      returned n s (first :: arrivals) = (.reset :: sent.filter (s.arrivedNew arrivals)).rdrop n := by
  obtain ⟨rest, hline, hinc, hsub, hall⟩ := lined_up hn hs first arrivals hd
  obtain ⟨hpos, hrestInc⟩ := List.pairwise_cons.1 hinc
  have hfilter : Increasing RTPPacket.m_sequence (sent.filter (s.arrivedNew arrivals)) :=
    List.Pairwise.sublist List.filter_sublist hsent
  -- Both lists are in order, so it is enough that they have the same packets.
  have hrest : rest = sent.filter (s.arrivedNew arrivals) := by
    refine hrestInc.eq_of_mem_iff hfilter ?_
    intro p
    rw [List.mem_filter, arrivedNew, Bool.and_eq_true, arrived, decide_eq_true_eq, decide_eq_true_eq]
    constructor
    · intro hp
      obtain ⟨b, hb, hpb⟩ := List.mem_filterMap.1 (hsub p hp)
      exact ⟨hfrom b hb p hpb, hsub p hp, hpos p hp⟩
    · rintro ⟨hps, hpa, hp0⟩
      obtain ⟨q, hq, hseq⟩ := List.mem_map.1 (hall p hpa)
      rcases List.mem_cons.1 hq with rfl | hq
      · exact absurd hp0 (hseq ▸ lt_irrefl _)
      · -- Two packets of the stream with one number are one packet.
        obtain ⟨b, hb, hqb⟩ := List.mem_filterMap.1 (hsub q hq)
        have hpq : p = q := by
          by_contra hne
          have hdistinct : (sent.map RTPPacket.m_sequence).Nodup :=
            List.Pairwise.imp (fun h => Nat.ne_of_lt h) (increasing_map.1 hsent)
          exact hne (List.inj_on_of_nodup_map hdistinct hps (hfrom b hb q hqb) hseq.symm)
        rw [hpq]
        exact hq
  rw [← hrest]
  exact ⟨hinc, by rw [returned_take hn hs, hline, List.rdrop]⟩

/-- Of packets that come in order, only those with number 0 and the last `n` are not returned. -/
theorem fresh_in_order {n : Nat} (hn : 1 ≤ n) {s : RTPSessionReceiver} (hs : Fresh s) (first : Buffer)
    {arrivals : List Buffer} (hinc : Increasing RTPPacket.m_sequence (arrivals.filterMap s.parsed)) :
    returned n s (first :: arrivals) =
      (.reset :: (arrivals.filterMap s.parsed).filter (fun p => 0 < p.m_sequence)).rdrop n := by
  rw [(fresh_take hn hs hinc first (fun b hb p hp => List.mem_filterMap.2 ⟨b, hb, hp⟩)
    (Jitter.displaced_increasing hinc _)).2]
  refine congrArg (fun l => (RTPPacket.reset :: l).rdrop n) (List.filter_congr (fun p hp => ?_))
  simp only [arrivedNew, arrived, hp, decide_true, Bool.true_and]

end RtcClient.RTPSessionReceiver
