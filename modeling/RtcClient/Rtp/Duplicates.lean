import RtcClient.Rtp.ReorderList
/-!
# Copies of a datagram

A datagram is compared with the packets in the list only, so a copy that comes
after its original was returned is accepted again. `accepted_nodup_iff`: a run
accepts no number twice exactly if every copy of an accepted datagram comes while
the number is still in the list.
-/

namespace RtcClient.RTPSessionReceiver

open Lib

/-- Every datagram whose number was put into the list before comes while it is still there. -/
def CopiesHeld (n : Nat) (s : RTPSessionReceiver) (arrivals : List Buffer) : Prop :=
  ∀ pre a post, arrivals = pre ++ a :: post → ∀ p, s.parsed a = some p →
    p.m_sequence ∈ (accepted n s pre).map RTPPacket.m_sequence →
    p.m_sequence ∈ (after n s pre).m_reorder_list.map RTPPacket.m_sequence

section
variable {n : Nat} {s : RTPSessionReceiver}

theorem accepted_append (n : Nat) (s : RTPSessionReceiver) (as bs : List Buffer) :
    accepted n s (as ++ bs) = accepted n s as ++ accepted n (after n s as) bs := by
  induction as generalizing s with
  | nil => rfl
  | cons a as ih =>
    rw [List.cons_append, accepted, accepted, ih, List.append_assoc]
    rfl

/-- A later datagram is accepted if its number is not in the list. -/
theorem accepted_concat (hn : 1 ≤ n) (hs : Fresh s) (a : Buffer) (as : List Buffer) (b : Buffer) :
    accepted n s (a :: as ++ [b]) = accepted n s (a :: as) ++ ((after n s (a :: as)).fresh b).toList := by
  have hl : Increasing RTPPacket.m_sequence s.m_reorder_list := by rw [hs.empty]; exact .nil
  have hne : (after n s (a :: as)).m_reorder_list ≠ [] :=
    after_ne_nil hn hs [a] (call_ne_nil hn hs.reorder hl a) as
  rw [accepted_append]
  simp only [accepted, if_neg hne, List.append_nil]

theorem copiesHeld_concat (as : List Buffer) (b : Buffer) :
    CopiesHeld n s (as ++ [b]) ↔ CopiesHeld n s as ∧ ∀ p, s.parsed b = some p →
      p.m_sequence ∈ (accepted n s as).map RTPPacket.m_sequence →
      p.m_sequence ∈ (after n s as).m_reorder_list.map RTPPacket.m_sequence := by
  constructor
  · intro h
    refine ⟨?_, h as b [] rfl⟩
    rintro pre a post rfl
    exact h pre a (post ++ [b]) (by simp)
  · rintro ⟨h, hb⟩ pre a post he
    rcases List.eq_nil_or_concat post with rfl | ⟨post, c, rfl⟩
    · obtain ⟨rfl, hab⟩ := List.append_inj' he rfl
      cases hab
      exact hb
    · rw [List.concat_eq_append] at he
      have he' : as ++ [b] = (pre ++ a :: post) ++ [c] := by simpa using he
      exact h pre a post (List.append_inj' he' rfl).1

/-- The run accepts no number twice exactly if every copy of an accepted datagram is held. -/
theorem accepted_nodup_iff (hn : 1 ≤ n) (hs : Fresh s) (as : List Buffer) :
    ((accepted n s as).map RTPPacket.m_sequence).Nodup ↔ CopiesHeld n s as := by
  induction as using List.reverseRecOn with
  | nil =>
    refine iff_of_true List.nodup_nil ?_
    intro pre a post he
    simp at he
  | append_singleton as b ih =>
    rw [copiesHeld_concat, ← ih]
    cases as with
    | nil => simp [accepted, hs.empty, after]
    | cons a as =>
      rw [accepted_concat hn hs]
      cases hp : s.parsed b with
      | none => simp [fresh, after_parsed hn hs.reorder, hp]
      | some p =>
        by_cases hm : p.m_sequence ∈ (after n s (a :: as)).m_reorder_list.map RTPPacket.m_sequence
        · simp [fresh, after_parsed hn hs.reorder, hp, Option.filter, hm, -List.mem_map]
        · have hf : (after n s (a :: as)).fresh b = some p := by
            simp [fresh, after_parsed hn hs.reorder, hp, Option.filter, hm, -List.mem_map]
          rw [hf, Option.toList_some, List.map_append, List.map_singleton, List.nodup_append']
          simp [hm, -List.mem_map]

theorem accepted_ne_reset (n : Nat) (s : RTPSessionReceiver) (as : List Buffer) :
    ∀ p ∈ accepted n s as, p ≠ .reset := by
  induction as generalizing s with
  | nil => simp [accepted]
  | cons a as ih =>
    intro p hp
    rw [accepted, List.mem_append] at hp
    rcases hp with hp | hp
    · rintro rfl
      split at hp
      · simp at hp
      · rw [Option.mem_toList, fresh] at hp
        exact s.parsed_ne_reset a (Option.eq_some_of_filter_eq_some hp)
    · exact ih _ p hp

/-- The packets the run returned or still holds, the unparsed one apart, are those it accepted. -/
theorem accepted_perm (hn : 1 ≤ n) (hs : Fresh s) (as : List Buffer) :
    ((returned n s as ++ (after n s as).m_reorder_list).filter (· ≠ .reset)).Perm (accepted n s as) := by
  have hc := (after_inv hn hs as).conserved
  have htaken : (taken n s as).filter (· ≠ .reset) = accepted n s as := by
    cases as with
    | nil => rfl
    | cons a as =>
      rw [taken_cons hn hs]
      simpa using accepted_ne_reset n s (a :: as)
  rw [← htaken]
  exact (hc.filter _).symm

end

/-- If every copy of an accepted datagram comes while its number is still in the list, no
parsed datagram is returned twice; otherwise some number is returned or held twice. -/
theorem delivered_once {n : Nat} (hn : 1 ≤ n) (recvParams : RTPTransParamsV4) (pinholeIP : Bytes)
    (pinholePort : Nat) (memory : Block RTP_RECV_BUFFER_SIZE) (arrivals : List Buffer) :
    (CopiesHeld n (started recvParams pinholeIP pinholePort memory) arrivals →
      (((returned n (started recvParams pinholeIP pinholePort memory) arrivals).filter (· ≠ .reset)).map
        RTPPacket.m_sequence).Nodup) ∧
    (CopiesHeld n (started recvParams pinholeIP pinholePort memory) arrivals ↔
      (((returned n (started recvParams pinholeIP pinholePort memory) arrivals ++
        (after n (started recvParams pinholeIP pinholePort memory) arrivals).m_reorder_list).filter (· ≠ .reset)).map
        RTPPacket.m_sequence).Nodup) := by
  have hs := started_fresh recvParams pinholeIP pinholePort memory
  generalize started recvParams pinholeIP pinholePort memory = s at hs ⊢
  have hperm := ((accepted_perm hn hs arrivals).map RTPPacket.m_sequence).nodup_iff
  have hiff := hperm.trans (accepted_nodup_iff hn hs arrivals)
  refine ⟨fun h => ?_, hiff.symm⟩
  have hnodup := hiff.2 h
  rw [List.filter_append, List.map_append] at hnodup
  exact (List.nodup_append.1 hnodup).1

/-- A copy that comes while its original waits is dropped. -/
theorem delivered_once_held :
    (((returned 2 (started {} [] 0 (.zeros _)) ([4, 6, 5, 6, 7].map datagram)).filter (· ≠ .reset)).map
      RTPPacket.m_sequence).Nodup :=
  (delivered_once (by decide) {} [] 0 (.zeros _) _).1
    ((accepted_nodup_iff (by decide) (started_fresh {} [] 0 (.zeros _)) _).1 (by decide +kernel))

/-- The datagrams 4, 5 and 6 come in order and then a copy of 5, which was returned before it came. -/
theorem not_delivered_once :
    ¬ ∀ originals arrivals : List Buffer,
      ((originals.filterMap (started {} [] 0 (.zeros _)).parsed).map RTPPacket.m_sequence).Nodup →
      originals.length < 2 ^ 32 → (∀ a ∈ arrivals, a ∈ originals) →
      (((returned 1 (started {} [] 0 (.zeros _)) arrivals).filter (· ≠ .reset)).map RTPPacket.m_sequence).Nodup := by
  intro h
  have := h ([4, 5, 6].map datagram) ([4, 5, 6, 5].map datagram) (by decide +kernel) (by decide) (by simp)
  revert this
  decide +kernel

end RtcClient.RTPSessionReceiver
