import Mathlib.Data.Finset.Card
import Mathlib.Data.Finset.Dedup
import RtcClient.Rtp.SessionReceiver
/-!
# The reorder list over whole runs

A receiver that `init` has set up is called again and again with the same reorder
length; each call may find a datagram. The list is the buffer of `Lib.Jitter`
with the sequence number as key: `run_jitter` says so for every run, and the
properties of runs follow from that.
-/

namespace RtcClient.RTPSessionReceiver

open Lib

/-! ## Runs -/

/-- A receiver `init` has set up with reordering. -/
def started (recvParams : RTPTransParamsV4) (pinholeIP : Bytes) (pinholePort : Nat)
    (memory : Block RTP_RECV_BUFFER_SIZE) : RTPSessionReceiver :=
  (init {} true recvParams pinholeIP pinholePort true memory).1

/-- One call. -/
def call (n : Nat) (s : RTPSessionReceiver) (arrived : Buffer) : RTPSessionReceiver × Option RTPPacket :=
  s.receive_rtp_packet n arrived

/-- The receiver after the calls. -/
def after (n : Nat) (s : RTPSessionReceiver) (arrivals : List Buffer) : RTPSessionReceiver :=
  final (call n) s arrivals

/-- The packets the calls returned, in order. -/
def returned (n : Nat) (s : RTPSessionReceiver) (arrivals : List Buffer) : List RTPPacket :=
  (trace (call n) s arrivals).filterMap (·.2)

/-- The packet a datagram holds, if its sequence number is not in the list. -/
def fresh (s : RTPSessionReceiver) (arrived : Buffer) : Option RTPPacket :=
  (s.parsed arrived).filter (fun p => p.m_sequence ∉ s.m_reorder_list.map RTPPacket.m_sequence)

/-- The datagrams of the run that parsed and were not in the list when they came. -/
def news (n : Nat) (s : RTPSessionReceiver) : List Buffer → List RTPPacket
  | [] => []
  | a :: as => (s.fresh a).toList ++ news n (call n s a).1 as

/-- The datagrams the run put into the list. -/
def accepted (n : Nat) (s : RTPSessionReceiver) : List Buffer → List RTPPacket
  | [] => []
  | a :: as => (if s.m_reorder_list = [] then [] else (s.fresh a).toList) ++ accepted n (call n s a).1 as

/-- What a call offers to the list: an unparsed packet if it is empty, otherwise
the parsed datagram. -/
def offered (s : RTPSessionReceiver) (arrived : Buffer) : Option RTPPacket :=
  if s.m_reorder_list = [] then some .reset else s.parsed arrived

def offers (n : Nat) (s : RTPSessionReceiver) : List Buffer → List (Option RTPPacket)
  | [] => []
  | a :: as => s.offered a :: offers n (call n s a).1 as

/-- The offers the list took. -/
def taken (n : Nat) (s : RTPSessionReceiver) : List Buffer → List RTPPacket
  | [] => []
  | a :: as =>
    ((s.offered a).filter (fun p => p.m_sequence ∉ s.m_reorder_list.map RTPPacket.m_sequence)).toList ++
      taken n (call n s a).1 as

/-! ## The scan is an ordered insertion -/

theorem insertIdx_middle {α : Type} (x : α) (a b : List α) : (a ++ b).insertIdx a.length x = a ++ x :: b := by
  induction a with
  | nil => rfl
  | cons y a ih => simp [ih]

theorem insert_scan_eq {l : List RTPPacket} (p : RTPPacket) (hl : Increasing RTPPacket.m_sequence l) (it : Nat) :
    ∀ a y b, l = a ++ y :: b → a.length = it → (∀ z ∈ b, p.m_sequence < z.m_sequence) →
      insert_scan l p it =
        if p.m_sequence ∈ l.map RTPPacket.m_sequence then l else insertKey RTPPacket.m_sequence p l := by
  -- The scan has passed `b`, whose sequence numbers are all larger.
  have step : ∀ a y b, l = a ++ y :: b → (∀ z ∈ b, p.m_sequence < z.m_sequence) → y.m_sequence < p.m_sequence →
      l.insertIdx (a.length + 1) p =
        if p.m_sequence ∈ l.map RTPPacket.m_sequence then l else insertKey RTPPacket.m_sequence p l := by
    rintro a y b rfl hb hy
    have ha : ∀ z ∈ a ++ [y], z.m_sequence < p.m_sequence := by
      intro z hz
      rcases List.mem_append.1 hz with hz | hz
      · exact ((List.pairwise_append.1 hl).2.2 z hz y (by simp)).trans hy
      · rw [List.mem_singleton] at hz; subst hz; exact hy
    have e : a ++ y :: b = (a ++ [y]) ++ b := by simp
    rw [e, if_neg (not_mem_split RTPPacket.m_sequence ha hb), insertKey_append ha hb]
    simpa using insertIdx_middle p (a ++ [y]) b
  induction it with
  | zero =>
    intro a y b he ha hb
    obtain rfl := List.length_eq_zero_iff.1 ha
    have hget : l[0]? = some y := by simp [he]
    unfold insert_scan
    simp only [hget]
    split
    · have hall : ∀ z ∈ y :: b, p.m_sequence < z.m_sequence := by
        intro z hz
        rcases List.mem_cons.1 hz with rfl | hz
        · assumption
        · exact hb z hz
      rw [he, if_neg (not_mem_split RTPPacket.m_sequence (a := []) (by simp) hall)]
      exact (insertKey_append (a := []) (by simp) hall).symm
    · split
      · exact step [] y b he hb ‹_›
      · rw [if_pos (List.mem_map.2 ⟨y, by simp [he], by omega⟩)]
  | succ it ih =>
    intro a y b he ha hb
    have hget : l[it + 1]? = some y := by rw [he, List.getElem?_append_right (by omega)]; simp [ha]
    unfold insert_scan
    simp only [hget]
    split
    · obtain ⟨a', y', rfl⟩ : ∃ a' y', a = a' ++ [y'] := by
        rcases List.eq_nil_or_concat a with rfl | ⟨a', y', h⟩
        · simp at ha
        · exact ⟨a', y', by simpa using h⟩
      refine ih a' y' (y :: b) (by simp [he]) (by simpa using ha) ?_
      intro z hz
      rcases List.mem_cons.1 hz with rfl | hz
      · assumption
      · exact hb z hz
    · split
      · rw [← ha]; exact step a y b he hb ‹_›
      · rw [if_pos (List.mem_map.2 ⟨y, by simp [he], by omega⟩)]

theorem insert_scan_back {l : List RTPPacket} (p : RTPPacket) (hl : Increasing RTPPacket.m_sequence l) (hne : l ≠ []) :
    insert_scan l p (l.length - 1) =
      if p.m_sequence ∈ l.map RTPPacket.m_sequence then l else insertKey RTPPacket.m_sequence p l := by
  rcases List.eq_nil_or_concat l with rfl | ⟨a, y, h⟩
  · exact absurd rfl hne
  · rw [List.concat_eq_append] at h
    exact insert_scan_eq p hl _ a y [] h (by simp [h]) (by simp)

/-! ## A call is a push -/

section
variable {n : Nat} {s : RTPSessionReceiver}

theorem parsed_empty (s : RTPSessionReceiver) {a : Buffer} (h : (s.received a).length = 0) : s.parsed a = none := by
  simp [parsed, RTPPacket.parse, h]

/-- The list after the offer, before one packet is taken out. -/
def filled (s : RTPSessionReceiver) (a : Buffer) : List RTPPacket :=
  if s.m_reorder_list = [] then [.reset]
  else match s.parsed a with
    | some p => insert_scan s.m_reorder_list p (s.m_reorder_list.length - 1)
    | none => s.m_reorder_list

theorem store_eq (s : RTPSessionReceiver) (a : Buffer) :
    s.store a =
      { s with m_recv_buffer := splice s.m_recv_buffer 0 (s.received a), m_reorder_list := s.filled a } := by
  unfold store filled
  by_cases h : s.m_reorder_list = []
  · simp [h]
  · by_cases hd : (s.received a).length = 0
    · simp [h, hd, parsed_empty s hd]
    · have hd' : 0 < (s.received a).length := by omega
      cases hp : s.parsed a with
      | none => simp [h, hd']
      | some p => simp [h, hd']

/-- What a call changes and returns. -/
theorem call_eq (hn : 1 ≤ n) (hr : s.m_reorder = true) (a : Buffer) :
    call n s a =
      ({ s with
          m_recv_buffer := splice s.m_recv_buffer 0 (s.received a)
          m_reorder_list := if n < (s.filled a).length then (s.filled a).tail else s.filled a },
        if n < (s.filled a).length then (s.filled a).head? else none) := by
  have hn' : ¬ ((n : Int) ≤ 0 ∨ s.m_reorder = false) := by simp [hr]; omega
  rw [call, receive_rtp_packet, if_neg hn', store_eq, take_first]
  by_cases h : n < (s.filled a).length
  · rw [if_pos (by simpa using h)]
    cases hf : s.filled a with
    | nil => simp [hf] at h
    | cons q qs => rw [hf] at h; simp only [if_pos h, List.tail_cons, List.head?_cons]
  · rw [if_neg (by simpa using h)]
    simp [h]

theorem arrive_filled (hl : Increasing RTPPacket.m_sequence s.m_reorder_list) (a : Buffer) (A R : List RTPPacket) :
    Jitter.arrive RTPPacket.m_sequence ⟨s.m_reorder_list, A, R⟩ (s.offered a) =
      ⟨s.filled a,
        A ++ ((s.offered a).filter (fun p => p.m_sequence ∉ s.m_reorder_list.map RTPPacket.m_sequence)).toList, R⟩ := by
  by_cases h : s.m_reorder_list = []
  · simp [offered, filled, Jitter.arrive, h, insertKey, Option.filter]
  · simp only [offered, filled, if_neg h]
    cases hp : s.parsed a with
    | none => simp [Jitter.arrive]
    | some p =>
      by_cases hm : p.m_sequence ∈ s.m_reorder_list.map RTPPacket.m_sequence
      · simp [Jitter.arrive, insert_scan_back p hl h, hm, Option.filter, -List.mem_map]
      · simp [Jitter.arrive, insert_scan_back p hl h, hm, Option.filter, -List.mem_map]

/-- A call pushes its offer: the list and the returned packet are those of the buffer. -/
theorem call_push (hn : 1 ≤ n) (hr : s.m_reorder = true) (hl : Increasing RTPPacket.m_sequence s.m_reorder_list)
    (a : Buffer) (A R : List RTPPacket) :
    Jitter.push RTPPacket.m_sequence n ⟨s.m_reorder_list, A, R⟩ (s.offered a) =
      ⟨(call n s a).1.m_reorder_list,
        A ++ ((s.offered a).filter (fun p => p.m_sequence ∉ s.m_reorder_list.map RTPPacket.m_sequence)).toList,
        R ++ (call n s a).2.toList⟩ := by
  rw [Jitter.push, arrive_filled hl, call_eq hn hr, Jitter.release]
  by_cases h : n < (s.filled a).length
  · simp only [if_pos h]
  · simp [h]

theorem call_reorder (hn : 1 ≤ n) (hr : s.m_reorder = true) (a : Buffer) : (call n s a).1.m_reorder = true := by
  rw [call_eq hn hr]; exact hr

/-- What a datagram parses into does not depend on the list. -/
theorem call_parsed (hn : 1 ≤ n) (hr : s.m_reorder = true) (a b : Buffer) :
    (call n s a).1.parsed b = s.parsed b := by
  rw [call_eq hn hr]; rfl

theorem call_increasing (hn : 1 ≤ n) (hr : s.m_reorder = true)
    (hl : Increasing RTPPacket.m_sequence s.m_reorder_list) (a : Buffer) :
    Increasing RTPPacket.m_sequence (call n s a).1.m_reorder_list := by
  have h := Jitter.push_increasing (j := ⟨s.m_reorder_list, [], []⟩) hl n (s.offered a)
  rwa [call_push hn hr hl] at h

/-- The run of the list is the run of the buffer on the offers. -/
theorem run_jitter (hn : 1 ≤ n) (as : List Buffer) :
    ∀ (s : RTPSessionReceiver) (A R : List RTPPacket), s.m_reorder = true →
      Increasing RTPPacket.m_sequence s.m_reorder_list →
      Jitter.run RTPPacket.m_sequence n ⟨s.m_reorder_list, A, R⟩ (offers n s as) =
        ⟨(after n s as).m_reorder_list, A ++ taken n s as, R ++ returned n s as⟩ := by
  induction as with
  | nil =>
    intro s A R _ _
    simp [Jitter.run, offers, after, taken, returned]
  | cons a as ih =>
    intro s A R hr hl
    have h : ∀ (j : Jitter RTPPacket) x xs, j.run RTPPacket.m_sequence n (x :: xs) =
        (j.push RTPPacket.m_sequence n x).run RTPPacket.m_sequence n xs := fun _ _ _ => rfl
    rw [offers, h, call_push hn hr hl, ih _ _ _ (call_reorder hn hr a) (call_increasing hn hr hl a)]
    cases hc : (call n s a).2 <;> simp [after, taken, returned, hc]

end

/-! ## The list stays sorted and short -/

/-- A receiver before its first call. -/
structure Fresh (s : RTPSessionReceiver) : Prop where
  reorder : s.m_reorder = true
  empty : s.m_reorder_list = []

theorem started_fresh (recvParams : RTPTransParamsV4) (pinholeIP : Bytes) (pinholePort : Nat)
    (memory : Block RTP_RECV_BUFFER_SIZE) : Fresh (started recvParams pinholeIP pinholePort memory) := ⟨rfl, rfl⟩

section
variable {n : Nat} {s : RTPSessionReceiver}

theorem fresh_run (hn : 1 ≤ n) (hs : Fresh s) (as : List Buffer) :
    Jitter.run RTPPacket.m_sequence n .empty (offers n s as) =
      ⟨(after n s as).m_reorder_list, taken n s as, returned n s as⟩ := by
  have h := run_jitter hn as s [] [] hs.reorder (by rw [hs.empty]; exact .nil)
  rw [hs.empty] at h
  simpa [Jitter.empty] using h

theorem after_inv (hn : 1 ≤ n) (hs : Fresh s) (as : List Buffer) :
    Jitter.Inv RTPPacket.m_sequence n ⟨(after n s as).m_reorder_list, taken n s as, returned n s as⟩ := by
  rw [← fresh_run hn hs]
  exact Jitter.run_inv (Jitter.empty_inv n) _

theorem after_reorder (hn : 1 ≤ n) (hr : s.m_reorder = true) (as : List Buffer) : (after n s as).m_reorder = true :=
  final_rule (call n) (fun s => s.m_reorder = true) (fun _ a hr => call_reorder hn hr a) hr as

theorem filled_ne_nil (hl : Increasing RTPPacket.m_sequence s.m_reorder_list) (a : Buffer) : s.filled a ≠ [] := by
  unfold filled
  split
  · simp
  · rename_i h
    split
    · rw [insert_scan_back _ hl h]
      split
      · exact h
      · rename_i p _ hp
        intro he
        simpa [he] using (insertKey_perm hl hp).length_eq
    · exact h

/-- No call leaves the list empty. -/
theorem call_ne_nil (hn : 1 ≤ n) (hr : s.m_reorder = true) (hl : Increasing RTPPacket.m_sequence s.m_reorder_list)
    (a : Buffer) : (call n s a).1.m_reorder_list ≠ [] := by
  rw [call_eq hn hr]
  simp only
  split
  · rw [← List.length_pos_iff, List.length_tail]; omega
  · exact filled_ne_nil hl a

theorem after_concat (n : Nat) (s : RTPSessionReceiver) (as : List Buffer) (a : Buffer) :
    after n s (as ++ [a]) = (call n (after n s as) a).1 := by
  rw [after, final_append]; rfl

theorem after_ne_nil (hn : 1 ≤ n) (hs : Fresh s) (as : List Buffer) (h : (after n s as).m_reorder_list ≠ [])
    (more : List Buffer) : (after n s (as ++ more)).m_reorder_list ≠ [] := by
  rcases List.eq_nil_or_concat more with rfl | ⟨bs, b, hb⟩
  · simpa using h
  · rw [hb, List.concat_eq_append, ← List.append_assoc, after_concat]
    exact call_ne_nil hn (after_reorder hn hs.reorder _) (after_inv hn hs _).increasing b

end

/-- Without reordering the list is not used. -/
theorem after_direct (n : Nat) {s : RTPSessionReceiver} (hr : s.m_reorder = false) (he : s.m_reorder_list = [])
    (as : List Buffer) : (after n s as).m_reorder_list = [] := by
  have hstep : ∀ (s : RTPSessionReceiver) (a : Buffer), s.m_reorder = false ∧ s.m_reorder_list = [] →
      (call n s a).1.m_reorder = false ∧ (call n s a).1.m_reorder_list = [] := by
    intro s a h
    rw [call, receive_rtp_packet, if_pos (.inr h.1), receive_rtp_packet_direct]
    split
    · dsimp only
      split <;> exact h
    · exact h
  exact (final_rule (call n) (fun s => s.m_reorder = false ∧ s.m_reorder_list = []) hstep ⟨hr, he⟩ as).2

/-- A receiver `init` has set up, with or without reordering. -/
def opened (reorder : Bool) (recvParams : RTPTransParamsV4) (pinholeIP : Bytes) (pinholePort : Nat)
    (memory : Block RTP_RECV_BUFFER_SIZE) : RTPSessionReceiver :=
  (init {} reorder recvParams pinholeIP pinholePort true memory).1

/-- After every call the list is strictly increasing in the sequence number and
holds at most `n` packets, and it never becomes empty again. -/
theorem reorder_list_invariant {n : Nat} (hn : 1 ≤ n) (reorder : Bool) (recvParams : RTPTransParamsV4)
    (pinholeIP : Bytes) (pinholePort : Nat) (memory : Block RTP_RECV_BUFFER_SIZE) (arrivals : List Buffer) :
    ((after n (opened reorder recvParams pinholeIP pinholePort memory) arrivals).m_reorder_list.map
        RTPPacket.m_sequence).Pairwise (· < ·) ∧
      (after n (opened reorder recvParams pinholeIP pinholePort memory) arrivals).m_reorder_list.length ≤ n ∧
      ((after n (opened reorder recvParams pinholeIP pinholePort memory) arrivals).m_reorder_list ≠ [] →
        ∀ more, (after n (opened reorder recvParams pinholeIP pinholePort memory)
          (arrivals ++ more)).m_reorder_list ≠ []) := by
  cases reorder with
  | false =>
    have he := after_direct n (s := opened false recvParams pinholeIP pinholePort memory) rfl rfl arrivals
    rw [he]
    exact ⟨.nil, Nat.zero_le n, fun h => absurd rfl h⟩
  | true =>
    have hs : Fresh (opened true recvParams pinholeIP pinholePort memory) :=
      started_fresh recvParams pinholeIP pinholePort memory
    have hi := after_inv hn hs arrivals
    exact ⟨increasing_map.1 hi.increasing, hi.bounded, fun h more => after_ne_nil hn hs arrivals h more⟩

/-- A datagram with a sequence number and one byte of payload. -/
def datagram (k : Nat) : Buffer :=
  ⟨RTPHeader.bytes ⟨0, 1, 0, 2, 96, 1, k % 65536, 0, 7⟩ ++ RTPExtensionHeader.bytes ⟨0, 3, 1, k / 65536, 0, 0⟩ ++
    [0x65], []⟩

theorem reorder_list_invariant_three :
    ((after 3 (opened true {} [] 0 (.zeros _)) ([9, 8, 7, 10, 8].map datagram)).m_reorder_list.map
        RTPPacket.m_sequence).Pairwise (· < ·) ∧
      (after 3 (opened true {} [] 0 (.zeros _)) ([9, 8, 7, 10, 8].map datagram)).m_reorder_list.length ≤ 3 ∧
      ((after 3 (opened true {} [] 0 (.zeros _)) ([9, 8, 7, 10, 8].map datagram)).m_reorder_list ≠ [] →
        ∀ more, (after 3 (opened true {} [] 0 (.zeros _))
          ([9, 8, 7, 10, 8].map datagram ++ more)).m_reorder_list ≠ []) :=
  reorder_list_invariant (by decide) true {} [] 0 (.zeros _) _

/-! ## Bounded reordering is repaired -/

section
variable {n : Nat} {s : RTPSessionReceiver}

/-- Once the list is not empty, what it takes is what it accepts. -/
theorem taken_accepted (hn : 1 ≤ n) (as : List Buffer) :
    ∀ s : RTPSessionReceiver, s.m_reorder = true → Increasing RTPPacket.m_sequence s.m_reorder_list →
      s.m_reorder_list ≠ [] → taken n s as = accepted n s as := by
  induction as with
  | nil => intro s _ _ _; rfl
  | cons a as ih =>
    intro s hr hl hne
    rw [taken, accepted, ih _ (call_reorder hn hr a) (call_increasing hn hr hl a) (call_ne_nil hn hr hl a)]
    simp only [offered, fresh, if_neg hne]

/-- The first call takes the unparsed packet and accepts no datagram. -/
theorem taken_cons (hn : 1 ≤ n) (hs : Fresh s) (a : Buffer) (as : List Buffer) :
    taken n s (a :: as) = .reset :: accepted n s (a :: as) := by
  have hl : Increasing RTPPacket.m_sequence s.m_reorder_list := by rw [hs.empty]; exact .nil
  rw [taken, accepted, taken_accepted hn as _ (call_reorder hn hs.reorder a) (call_increasing hn hs.reorder hl a)
    (call_ne_nil hn hs.reorder hl a)]
  simp [offered, hs.empty, Option.filter]

/-- The unparsed packet has sequence number 0, so it displaces nothing. -/
theorem displaced_taken (hn : 1 ≤ n) (hs : Fresh s) (as : List Buffer)
    (hd : Jitter.Displaced RTPPacket.m_sequence n (accepted n s as)) :
    Jitter.Displaced RTPPacket.m_sequence n (taken n s as) := by
  cases as with
  | nil => exact hd
  | cons a as =>
    rw [taken_cons hn hs]
    intro pre d post he
    cases pre with
    | nil => exact Nat.zero_le n
    | cons p pre =>
      simp only [List.cons_append, List.cons.injEq] at he
      obtain ⟨rfl, he⟩ := he
      simpa [List.filter_cons, RTPPacket.reset] using hd pre d post he

theorem returned_sorted (hn : 1 ≤ n) (hs : Fresh s) (as : List Buffer)
    (hd : Jitter.Displaced RTPPacket.m_sequence n (accepted n s as)) :
    (returned n s as).Pairwise (fun a b => a.m_sequence ≤ b.m_sequence) := by
  have h := fresh_run hn hs as
  have hs' := Jitter.run_sorted (n := n) (offers n s as) (by rw [h]; exact displaced_taken hn hs as hd)
  rwa [h] at hs'

end

/-- If every accepted datagram was preceded by at most `n` accepted datagrams with
a larger sequence number, the parsed datagrams are returned in sequence order. -/
theorem returned_in_order {n : Nat} (hn : 1 ≤ n) (recvParams : RTPTransParamsV4) (pinholeIP : Bytes)
    (pinholePort : Nat) (memory : Block RTP_RECV_BUFFER_SIZE) (arrivals : List Buffer)
    (hd : ∀ pre d post, accepted n (started recvParams pinholeIP pinholePort memory) arrivals = pre ++ d :: post →
      (pre.filter (fun a => d.m_sequence < a.m_sequence)).length ≤ n) :
    (((returned n (started recvParams pinholeIP pinholePort memory) arrivals).filter (· ≠ .reset)).map
      RTPPacket.m_sequence).Pairwise (· ≤ ·) := by
  have hs := started_fresh recvParams pinholeIP pinholePort memory
  rw [List.pairwise_map]
  exact (returned_sorted hn hs arrivals hd).sublist List.filter_sublist

theorem returned_in_order_swapped :
    (((returned 2 (started {} [] 0 (.zeros _)) ([9, 8, 7, 9, 12, 11, 13, 14].map datagram)).filter (· ≠ .reset)).map
      RTPPacket.m_sequence).Pairwise (· ≤ ·) :=
  returned_in_order (by decide) {} [] 0 (.zeros _) _
    (show Jitter.Displaced RTPPacket.m_sequence 2 _ by decide +kernel)

/-! ## The unparsed packet -/

/-- The run invents and loses nothing: each returned packet was parsed from a
datagram that had arrived, and the datagrams that parsed and were not in the list
when they came all have their place in the list or among the returned packets. -/
def Conserves (n : Nat) (s : RTPSessionReceiver) (arrivals : List Buffer) : Prop :=
  (∀ pre a post p, arrivals = pre ++ a :: post → (call n (after n s pre) a).2 = some p →
    ∃ b ∈ pre ++ [a], s.parsed b = some p) ∧
  ∀ pre post, arrivals = pre ++ post →
    (news n s pre).Subperm (returned n s pre ++ (after n s pre).m_reorder_list)

section
variable {n : Nat} {s : RTPSessionReceiver}

theorem parsed_ne_reset (s : RTPSessionReceiver) (a : Buffer) : s.parsed a ≠ some .reset := by
  intro h
  simp only [parsed] at h
  split at h
  · rename_i hok
    have := RTPPacket.parse_extension _ _ _ hok
    rw [Option.some.inj h] at this
    exact absurd this (by simp [RTPPacket.reset])
  · exact absurd h (by simp)

theorem after_parsed (hn : 1 ≤ n) (hr : s.m_reorder = true) (as : List Buffer) (b : Buffer) :
    (after n s as).parsed b = s.parsed b := by
  have h := final_rule (call n) (fun t => t.m_reorder = true ∧ t.parsed b = s.parsed b)
    (fun t a ht => ⟨call_reorder hn ht.1 a, by rw [call_parsed hn ht.1, ht.2]⟩) ⟨hr, rfl⟩ as
  exact h.2

theorem returned_append (n : Nat) (s : RTPSessionReceiver) (as bs : List Buffer) :
    returned n s (as ++ bs) = returned n s as ++ returned n (after n s as) bs := by
  simp only [returned, trace_append, List.filterMap_append, after]

theorem returned_concat (n : Nat) (s : RTPSessionReceiver) (as : List Buffer) (a : Buffer) :
    returned n s (as ++ [a]) = returned n s as ++ (call n (after n s as) a).2.toList := by
  rw [returned_append]
  cases h : (call n (after n s as) a).2 <;> simp [returned, h]

theorem mem_returned {as : List Buffer} {p : RTPPacket} (h : p ∈ returned n s as) :
    ∃ pre a post, as = pre ++ a :: post ∧ (call n (after n s pre) a).2 = some p := by
  induction as using List.reverseRecOn with
  | nil => simp [returned] at h
  | append_singleton as a ih =>
    rw [returned_concat] at h
    rcases List.mem_append.1 h with h | h
    · obtain ⟨pre, b, post, rfl, hb⟩ := ih h
      exact ⟨pre, b, post ++ [a], by simp, hb⟩
    · exact ⟨as, a, [], rfl, by simpa using h⟩

/-- While the unparsed packet is at the front, it stays there or is returned. -/
theorem filled_reset {rest : List RTPPacket} (hl : Increasing RTPPacket.m_sequence s.m_reorder_list)
    (h : s.m_reorder_list = .reset :: rest) (a : Buffer) : ∃ rest', s.filled a = .reset :: rest' := by
  have hne : s.m_reorder_list ≠ [] := by simp [h]
  unfold filled
  rw [if_neg hne]
  cases s.parsed a with
  | none => exact ⟨rest, h⟩
  | some p =>
    simp only [insert_scan_back p hl hne]
    split
    · exact ⟨rest, h⟩
    · rename_i hp
      have h0 : RTPPacket.reset.m_sequence < p.m_sequence := by
        have : p.m_sequence ≠ RTPPacket.reset.m_sequence := fun he => hp (by simp [h, he])
        simp only [RTPPacket.reset] at this ⊢
        omega
      exact ⟨insertKey RTPPacket.m_sequence p rest, by simp [h, insertKey, h0, not_lt.2 h0.le]⟩

/-- The unparsed packet is the first to be returned. -/
theorem first_returned (hn : 1 ≤ n) (hs : Fresh s) (as : List Buffer) :
    (as = [] ∨ ∃ rest, (after n s as).m_reorder_list = .reset :: rest) ∧ returned n s as = [] ∨
      ∃ rest, returned n s as = .reset :: rest := by
  induction as using List.reverseRecOn with
  | nil => exact .inl ⟨.inl rfl, rfl⟩
  | append_singleton as a ih =>
    rw [after_concat, returned_concat]
    have hr := after_reorder hn hs.reorder as
    have hl := (after_inv hn hs as).increasing
    rcases ih with ⟨ih, hret⟩ | ⟨rest, hret⟩
    · obtain ⟨rest, hf⟩ : ∃ rest, (after n s as).filled a = .reset :: rest := by
        rcases ih with rfl | ⟨rest, h⟩
        · exact ⟨[], by simp [after, filled, hs.empty]⟩
        · exact filled_reset hl h a
      rw [hret, call_eq hn hr, hf]
      by_cases h : n < (RTPPacket.reset :: rest).length
      · exact .inr ⟨[], by simp only [if_pos h]; rfl⟩
      · exact .inl ⟨.inr ⟨rest, by simp only [if_neg h]⟩, by simp only [if_neg h]; rfl⟩
    · exact .inr ⟨_, by rw [hret]; rfl⟩

/-- The sequence numbers of some packets. -/
def sequences (l : List RTPPacket) : Finset Nat := (l.map RTPPacket.m_sequence).toFinset

theorem sequences_perm {l l' : List RTPPacket} (h : l.Perm l') : sequences l = sequences l' :=
  List.toFinset_eq_of_perm _ _ (h.map _)

theorem sequences_card {l : List RTPPacket} (h : Increasing RTPPacket.m_sequence l) :
    (sequences l).card = l.length := by
  have hn : (l.map RTPPacket.m_sequence).Nodup :=
    (increasing_map.1 h).imp (fun hab => Nat.ne_of_lt hab)
  rw [sequences, List.toFinset_card_of_nodup hn, List.length_map]

theorem filled_increasing (hl : Increasing RTPPacket.m_sequence s.m_reorder_list) (a : Buffer) :
    Increasing RTPPacket.m_sequence (s.filled a) := by
  have h := Jitter.arrive_increasing (j := ⟨s.m_reorder_list, [], []⟩) hl (s.offered a)
  rwa [arrive_filled hl] at h

/-- A datagram that parses adds its sequence number. -/
theorem filled_sequences (hl : Increasing RTPPacket.m_sequence s.m_reorder_list) (hne : s.m_reorder_list ≠ [])
    (a : Buffer) :
    sequences (s.filled a) = sequences s.m_reorder_list ∪ sequences (s.parsed a).toList := by
  unfold filled
  rw [if_neg hne]
  cases s.parsed a with
  | none => simp [sequences]
  | some p =>
    simp only [insert_scan_back p hl hne]
    by_cases hp : p.m_sequence ∈ s.m_reorder_list.map RTPPacket.m_sequence
    · have hp' : p.m_sequence ∈ sequences s.m_reorder_list := List.mem_toFinset.2 hp
      rw [if_pos hp, eq_comm, Finset.union_eq_left]
      simpa [sequences] using hp'
    · rw [if_neg hp, sequences_perm (insertKey_perm hl hp)]
      simp [sequences, Finset.union_comm]

theorem sequences_filled (hn : 1 ≤ n) (hs : Fresh s) {a : Buffer} {as : List Buffer}
    (hk : sequences (after n s (a :: as)).m_reorder_list = insert 0 (sequences (as.filterMap s.parsed))) (b : Buffer) :
    sequences ((after n s (a :: as)).filled b) = insert 0 (sequences ((as ++ [b]).filterMap s.parsed)) := by
  have hne : (after n s (a :: as)).m_reorder_list ≠ [] := by
    intro he
    rw [he] at hk
    exact absurd hk.symm (Finset.insert_ne_empty _ _)
  rw [filled_sequences (after_inv hn hs (a :: as)).increasing hne, hk, after_parsed hn hs.reorder,
    Finset.insert_union, List.filterMap_append]
  cases hb : s.parsed b <;> simp [sequences, hb]

/-- Until the first packet is returned, the list holds number 0 and every number that has come. -/
theorem sequences_after (hn : 1 ≤ n) (hs : Fresh s) (a : Buffer) (as : List Buffer)
    (h : returned n s (a :: as) = []) :
    sequences (after n s (a :: as)).m_reorder_list = insert 0 (sequences (as.filterMap s.parsed)) := by
  induction as using List.reverseRecOn with
  | nil =>
    have hf : s.filled a = [.reset] := by simp [filled, hs.empty]
    have hlen : ¬ n < [RTPPacket.reset].length := by simp; omega
    simp only [after, final_cons, final_nil, call_eq hn hs.reorder, hf, if_neg hlen]
    rfl
  | append_singleton as b ih =>
    rw [← List.cons_append] at h ⊢
    rw [returned_concat, List.append_eq_nil_iff] at h
    have hl := (after_inv hn hs (a :: as)).increasing
    have hr := after_reorder hn hs.reorder (a :: as)
    have hfull : ¬ n < ((after n s (a :: as)).filled b).length := by
      intro hlt
      have h2 := h.2
      rw [call_eq hn hr] at h2
      simp only [if_pos hlt, Option.toList_eq_nil_iff, List.head?_eq_none_iff] at h2
      exact filled_ne_nil hl b h2
    rw [after_concat, call_eq hn hr]
    simp only [if_neg hfull]
    exact sequences_filled hn hs (ih h.1) b

/-- The numbers of the datagrams that parse, the first call and number 0 left out. -/
def arrivedNumbers (s : RTPSessionReceiver) (arrivals : List Buffer) : Finset Nat :=
  (sequences (arrivals.tail.filterMap s.parsed)).erase 0

theorem insert_zero_card (t : Finset Nat) : (insert 0 t).card = (t.erase 0).card + 1 := by
  rw [← Finset.card_erase_add_one (Finset.mem_insert_self 0 t), Finset.erase_insert_eq_erase]

theorem arrivedNumbers_concat (s : RTPSessionReceiver) (as : List Buffer) (b : Buffer) :
    arrivedNumbers s as ⊆ arrivedNumbers s (as ++ [b]) := by
  cases as with
  | nil => simp [arrivedNumbers, sequences]
  | cons a as =>
    refine Finset.erase_subset_erase _ ?_
    simp only [sequences, List.tail_cons, List.cons_append, List.filterMap_append, List.map_append,
      List.toFinset_append]
    exact Finset.subset_union_left

/-- Nothing is returned while fewer than `n` numbers other than 0 have come. -/
theorem returned_nil_iff (hn : 1 ≤ n) (hs : Fresh s) (as : List Buffer) :
    returned n s as = [] ↔ (arrivedNumbers s as).card < n := by
  constructor
  · intro h
    cases as with
    | nil => simp [arrivedNumbers, sequences]; omega
    | cons a as =>
      have hi := after_inv hn hs (a :: as)
      have hc := sequences_card hi.increasing
      have hb := hi.bounded
      rw [sequences_after hn hs a as h, insert_zero_card] at hc
      simp only [arrivedNumbers, List.tail_cons]
      simp only at hb hc
      omega
  · intro h
    induction as using List.reverseRecOn with
    | nil => rfl
    | append_singleton as b ih =>
      have hret := ih (lt_of_le_of_lt (Finset.card_le_card (arrivedNumbers_concat s as b)) h)
      have hr := after_reorder hn hs.reorder as
      have hl := (after_inv hn hs as).increasing
      have hlen : ¬ n < ((after n s as).filled b).length := by
        cases as with
        | nil => simp [after, filled, hs.empty]; omega
        | cons a as =>
          have hc := insert_zero_card (sequences ((as ++ [b]).filterMap s.parsed))
          rw [← sequences_filled hn hs (sequences_after hn hs a as hret) b,
            sequences_card (filled_increasing hl b)] at hc
          simp only [arrivedNumbers, List.cons_append, List.tail_cons] at h
          omega
      rw [returned_concat, hret, call_eq hn hr]
      simp only [if_neg hlen]
      rfl

/-- Once the list is not empty, it accepts all news. -/
theorem news_accepted (hn : 1 ≤ n) (as : List Buffer) :
    ∀ s : RTPSessionReceiver, s.m_reorder = true → Increasing RTPPacket.m_sequence s.m_reorder_list →
      s.m_reorder_list ≠ [] → news n s as = accepted n s as := by
  induction as with
  | nil => intro s _ _ _; rfl
  | cons a as ih =>
    intro s hr hl hne
    rw [news, accepted, ih _ (call_reorder hn hr a) (call_increasing hn hr hl a) (call_ne_nil hn hr hl a),
      if_neg hne]

/-- If the first call gets no datagram that parses, no news are lost. -/
theorem news_kept (hn : 1 ≤ n) (hs : Fresh s) (as : List Buffer) (h : ∀ a ∈ as.head?, s.parsed a = none) :
    (news n s as).Subperm (returned n s as ++ (after n s as).m_reorder_list) := by
  cases as with
  | nil => exact List.nil_subperm
  | cons a as =>
    have hl : Increasing RTPPacket.m_sequence s.m_reorder_list := by rw [hs.empty]; exact .nil
    have hnews : news n s (a :: as) = accepted n s (a :: as) := by
      rw [news, accepted, news_accepted hn as _ (call_reorder hn hs.reorder a) (call_increasing hn hs.reorder hl a)
        (call_ne_nil hn hs.reorder hl a), fresh, h a (by simp), if_pos hs.empty]
      rfl
    have hc := (after_inv hn hs (a :: as)).conserved
    rw [taken_cons hn hs] at hc
    rw [hnews]
    exact (List.sublist_cons_self _ _).subperm.trans hc.subperm

/-- A first datagram that parses is lost: the list gets an unparsed packet instead. -/
theorem first_lost (hn : 1 ≤ n) (hs : Fresh s) {a : Buffer} {p : RTPPacket} (hp : s.parsed a = some p) :
    ¬ (news n s [a]).Subperm (returned n s [a] ++ (after n s [a]).m_reorder_list) := by
  have hf : s.filled a = [.reset] := by simp [filled, hs.empty]
  have hlen : ¬ n < [RTPPacket.reset].length := by simp; omega
  have hnews : news n s [a] = [p] := by simp [news, fresh, hp, hs.empty, Option.filter]
  have hlist : (after n s [a]).m_reorder_list = [.reset] := by
    simp only [after, final_cons, final_nil, call_eq hn hs.reorder, hf, if_neg hlen]
  have hret : returned n s [a] = [] := by
    simp [returned, call_eq hn hs.reorder, hf]; omega
  rw [hnews, hlist, hret]
  intro h
  have hm : p ∈ [RTPPacket.reset] := h.subset (by simp)
  rw [List.mem_singleton] at hm
  exact s.parsed_ne_reset a (by rw [hp, hm])

end

/-- The run invents and loses nothing exactly if the first call gets no datagram
that parses, and fewer than `n` numbers other than 0 come after it. -/
theorem conserves_iff {n : Nat} (hn : 1 ≤ n) (recvParams : RTPTransParamsV4) (pinholeIP : Bytes)
    (pinholePort : Nat) (memory : Block RTP_RECV_BUFFER_SIZE) (arrivals : List Buffer) :
    Conserves n (started recvParams pinholeIP pinholePort memory) arrivals ↔
      (∀ a ∈ arrivals.head?, (started recvParams pinholeIP pinholePort memory).parsed a = none) ∧
        (arrivedNumbers (started recvParams pinholeIP pinholePort memory) arrivals).card < n := by
  have hs := started_fresh recvParams pinholeIP pinholePort memory
  generalize started recvParams pinholeIP pinholePort memory = s at hs ⊢
  constructor
  · rintro ⟨hinv, hkeep⟩
    constructor
    · intro a ha
      obtain ⟨as, rfl⟩ := List.head?_eq_some_iff.1 ha
      cases hp : s.parsed a with
      | none => rfl
      | some p => exact absurd (hkeep [a] as rfl) (first_lost hn hs hp)
    · rw [← returned_nil_iff hn hs]
      rcases first_returned hn hs arrivals with ⟨-, h⟩ | ⟨rest, h⟩
      · exact h
      · have hm : RTPPacket.reset ∈ returned n s arrivals := by simp [h]
        obtain ⟨pre, a, post, rfl, hc⟩ := mem_returned hm
        obtain ⟨b, -, hb⟩ := hinv pre a post _ rfl hc
        exact absurd hb (s.parsed_ne_reset b)
  · rintro ⟨hfirst, hcard⟩
    rw [← returned_nil_iff hn hs] at hcard
    constructor
    · rintro pre a post p rfl hc
      have : returned n s (pre ++ [a]) = [] := by
        have e : pre ++ a :: post = (pre ++ [a]) ++ post := by simp
        rw [e, returned_append, List.append_eq_nil_iff] at hcard
        exact hcard.1
      rw [returned_concat, hc] at this
      simp at this
    · rintro pre post rfl
      apply news_kept hn hs
      intro a ha
      apply hfirst
      cases pre with
      | nil => simp at ha
      | cons b pre => simpa using ha

theorem conserves_three : Conserves 3 (started {} [] 0 (.zeros _)) [.null, datagram 8, datagram 7, datagram 8] :=
  (conserves_iff (by decide) {} [] 0 (.zeros _) _).2 ⟨by decide +kernel, by decide +kernel⟩

/-- One datagram is lost as soon as it comes. -/
theorem not_conserves_one : ¬ Conserves 5 (started {} [] 0 (.zeros _)) [datagram 7] := by
  rintro ⟨-, hkeep⟩
  refine first_lost (n := 5) (by decide) (started_fresh {} [] 0 (.zeros _))
    (p := .parsed ⟨0, 1, 0, 2, 96, 1, 7, 0, 7⟩ ⟨0, 3, 1, 0, 0, 0⟩ [0x65] []) ?_ (hkeep [datagram 7] [] rfl)
  decide +kernel

end RtcClient.RTPSessionReceiver
