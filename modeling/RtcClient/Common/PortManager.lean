import RtcClient.Lib.Jitter
import RtcClient.Lib.Runs
import Mathlib.Data.List.Nodup
import Mathlib.Data.List.Perm.Lattice
import Mathlib.Order.Nat
/-!
# The UDP ports

`PortManager`: ports move between the vector of available ports and the set of
ports in use. Every operation permutes the two together (`Keeps`), so no port is
lost and none is there twice. What the operating system says at each probe is an
argument of `get_udp_port`.
-/

namespace RtcClient

open Lib

structure PortManager where
  m_initialized : Bool := false
  m_available_ports : List UInt16 := []
  /-- A `std::set`, in increasing order. -/
  m_ports_in_use : List UInt16 := []
deriving DecidableEq, Repr

namespace PortManager

/-! ## Operations -/

/-- `std::set::insert`. -/
def insert_port (p : UInt16) (in_use : List UInt16) : List UInt16 := insertKey UInt16.toNat p in_use

theorem toNat_succ {i end_ : UInt16} (h : i < end_) : (i + 1).toNat = i.toNat + 1 := by
  have h' : i.toNat < end_.toNat := UInt16.lt_iff_toNat_lt.1 h
  have hlt := end_.toNat_lt
  rw [UInt16.toNat_add]
  exact Nat.mod_eq_of_lt (by simp; omega)

/-- `for (uint16_t i = start; i < end; i++)`. -/
def initialize_loop (i end_ : UInt16) (ports : List UInt16) : List UInt16 :=
  if i < end_ then initialize_loop (i + 1) end_ (ports ++ [i]) else ports
termination_by end_.toNat - i.toNat
decreasing_by
  have h : i.toNat < end_.toNat := UInt16.lt_iff_toNat_lt.1 ‹_›
  have hi := toNat_succ ‹_›
  omega

def initialize_udp_ports (m : PortManager) (start end_ : UInt16) : PortManager :=
  if m.m_initialized then m
  else { m_initialized := true, m_available_ports := initialize_loop start end_ [], m_ports_in_use := [] }

/-- When no port is available, those in use become available again. -/
def recycle (m : PortManager) : PortManager :=
  if m.m_available_ports.isEmpty then
    { m with m_available_ports := m.m_available_ports ++ m.m_ports_in_use, m_ports_in_use := [] }
  else m

/-- How the probing of ports ended. -/
structure Probing where
  found : Bool
  port : UInt16
  available : List UInt16
  in_use : List UInt16
  /-- The ports probed, with the answers. -/
  probes : List (UInt16 × Bool)

/-- The loop over the available ports; `check k p` is the answer of `check_available` at the
`k`-th probe. -/
def probe_loop (check : Nat → UInt16 → Bool) (k : Nat) (port : UInt16) (in_use : List UInt16) : List UInt16 → Probing
  | [] => ⟨false, port, [], in_use, []⟩
  | p :: rest =>
    if check k p then ⟨true, p, rest, insert_port p in_use, [(p, true)]⟩
    else
      let r := probe_loop check (k + 1) p (insert_port p in_use) rest
      { r with probes := (p, false) :: r.probes }

/-- What a call gives its caller; `probes` is a ghost log. -/
structure Answer where
  result : Bool
  port : UInt16
  probes : List (UInt16 × Bool) := []
deriving DecidableEq, Repr

def get_udp_port (m : PortManager) (port : UInt16) (check : Nat → UInt16 → Bool) : PortManager × Answer :=
  let m := m.recycle
  let r := probe_loop check 0 port m.m_ports_in_use m.m_available_ports
  let m := { m with m_available_ports := r.available, m_ports_in_use := r.in_use }
  if r.found then (m, ⟨true, r.port, r.probes⟩) else (m.recycle, ⟨false, r.port, r.probes⟩)

def release_port (m : PortManager) (port : UInt16) : PortManager × Answer :=
  if port ∈ m.m_ports_in_use then
    ({ m with
        m_available_ports := m.m_available_ports ++ [port]
        m_ports_in_use := m.m_ports_in_use.erase port }, ⟨true, port, []⟩)
  else (m, ⟨false, port, []⟩)

inductive Call where
  | get_udp_port (port : UInt16) (check : Nat → UInt16 → Bool)
  | release_port (port : UInt16)

def step (m : PortManager) : Call → PortManager × Answer
  | .get_udp_port port check => m.get_udp_port port check
  | .release_port port => m.release_port port

/-! ## The ports of the range -/

theorem mem_initialize_loop (i end_ : UInt16) (ports : List UInt16) (p : UInt16) :
    p ∈ initialize_loop i end_ ports ↔ p ∈ ports ∨ (i ≤ p ∧ p < end_) := by
  fun_induction initialize_loop i end_ ports with
  | case1 i ports h ih =>
    have hi := toNat_succ h
    have hstep : p = i ∨ (i + 1 ≤ p ∧ p < end_) ↔ i ≤ p ∧ p < end_ := by
      simp only [UInt16.le_iff_toNat_le, UInt16.lt_iff_toNat_lt, ← UInt16.toNat_inj] at *
      omega
    rw [ih, ← hstep, List.mem_append, List.mem_singleton, or_assoc]
  | case2 i ports h =>
    have hnone : ¬ (i ≤ p ∧ p < end_) := by
      simp only [UInt16.le_iff_toNat_le, UInt16.lt_iff_toNat_lt] at *
      omega
    simp [hnone]

theorem initialize_loop_nodup {i end_ : UInt16} {ports : List UInt16} (hn : ports.Nodup) (hlt : ∀ p ∈ ports, p < i) :
    (initialize_loop i end_ ports).Nodup := by
  fun_induction initialize_loop i end_ ports with
  | case1 i ports h ih =>
    have hi := toNat_succ h
    apply ih
    · refine List.nodup_append.2 ⟨hn, by simp, ?_⟩
      intro a ha b hb
      rw [List.mem_singleton.1 hb]
      exact UInt16.ne_of_lt (hlt a ha)
    · intro p hp
      rw [UInt16.lt_iff_toNat_lt, hi]
      rcases List.mem_append.1 hp with hp | hp
      · have := UInt16.lt_iff_toNat_lt.1 (hlt p hp)
        omega
      · rw [List.mem_singleton.1 hp]
        omega
  | case2 => exact hn

/-- The ports `start`, ..., `end - 1`. -/
def range (start end_ : UInt16) : List UInt16 := initialize_loop start end_ []

theorem mem_range (start end_ p : UInt16) : p ∈ range start end_ ↔ start ≤ p ∧ p < end_ := by
  simp [range, mem_initialize_loop]

theorem initialize_loop_length (i end_ : UInt16) (ports : List UInt16) :
    (initialize_loop i end_ ports).length = ports.length + (end_.toNat - i.toNat) := by
  fun_induction initialize_loop i end_ ports with
  | case1 i ports h ih =>
    have hi := toNat_succ h
    have hlt := UInt16.lt_iff_toNat_lt.1 h
    rw [ih, List.length_append, List.length_singleton]
    omega
  | case2 i ports h =>
    have hge : ¬ i.toNat < end_.toNat := fun hlt => h (UInt16.lt_iff_toNat_lt.2 hlt)
    omega

theorem range_length (start end_ : UInt16) : (range start end_).length = end_.toNat - start.toNat := by
  simp [range, initialize_loop_length]

theorem range_nodup (start end_ : UInt16) : (range start end_).Nodup := initialize_loop_nodup .nil (by simp)

/-! ## Operations permute the ports -/

/-- The available ports and those in use are, together, the given ports. -/
structure Holds (available in_use ports : List UInt16) : Prop where
  increasing : Increasing UInt16.toNat in_use
  perm : (available ++ in_use).Perm ports

/-- The first available port comes into use. -/
theorem Holds.take {p : UInt16} {rest in_use ports : List UInt16} (h : Holds (p :: rest) in_use ports)
    (hn : ports.Nodup) : Holds rest (insert_port p in_use) ports := by
  have hnodup := h.perm.nodup_iff.2 hn
  have hp : p.toNat ∉ in_use.map UInt16.toNat := by
    intro hmem
    obtain ⟨q, hq, he⟩ := List.mem_map.1 hmem
    rw [UInt16.toNat_inj.1 he] at hq
    exact (List.nodup_append.1 hnodup).2.2 p (by simp) p hq rfl
  refine ⟨insertKey_increasing h.increasing hp, List.Perm.trans ?_ h.perm⟩
  calc (rest ++ insert_port p in_use).Perm (rest ++ p :: in_use) := (insertKey_perm h.increasing hp).append_left _
    _ |>.Perm (p :: rest ++ in_use) := List.perm_middle

/-- What the probing has done to the ports, whatever the answers were. -/
structure Probed (available ports : List UInt16) (r : Probing) : Prop where
  holds : Holds r.available r.in_use ports
  found : r.found = true → r.port ∈ r.in_use ∧ r.probes.getLast? = some (r.port, true)
  unfound : r.found = false → r.available = []
  length : r.probes.length ≤ available.length

theorem mem_insert_port {p : UInt16} {rest in_use ports : List UInt16} (h : Holds (p :: rest) in_use ports)
    (hn : ports.Nodup) : p ∈ insert_port p in_use := by
  have hp : p ∈ rest ++ insert_port p in_use := (h.take hn).perm.mem_iff.2 (h.perm.mem_iff.1 (by simp))
  have hrest : p ∉ rest := by
    have := (List.nodup_append.1 (h.perm.nodup_iff.2 hn)).1
    exact (List.nodup_cons.1 this).1
  exact (List.mem_append.1 hp).resolve_left hrest

theorem probe_loop_probed (check : Nat → UInt16 → Bool) {ports : List UInt16} (hn : ports.Nodup) (k : Nat)
    (port : UInt16) {in_use available : List UInt16} (h : Holds available in_use ports) :
    Probed available ports (probe_loop check k port in_use available) := by
  induction available generalizing k port in_use with
  | nil => exact ⟨h, by simp [probe_loop], fun _ => rfl, by simp [probe_loop]⟩
  | cons p rest ih =>
    unfold probe_loop
    split
    · exact ⟨h.take hn, fun _ => ⟨mem_insert_port h hn, rfl⟩, by simp, by simp⟩
    · have hr := ih (k + 1) p (h.take hn)
      refine ⟨hr.holds, fun hf => ⟨(hr.found hf).1, ?_⟩, hr.unfound, ?_⟩
      · rw [List.getLast?_cons, (hr.found hf).2]
        rfl
      · have := hr.length
        simpa using this

/-- The manager holds exactly the given ports. -/
def Keeps (ports : List UInt16) (m : PortManager) : Prop := Holds m.m_available_ports m.m_ports_in_use ports

theorem Keeps.recycle {ports : List UInt16} {m : PortManager} (h : Keeps ports m) : Keeps ports m.recycle := by
  unfold PortManager.recycle
  split
  · refine ⟨List.Pairwise.nil, ?_⟩
    rw [List.append_nil]
    exact h.perm
  · exact h

/-- `get_udp_port` keeps the ports, and gives out one it was just told is available. -/
theorem Keeps.get_udp_port {ports : List UInt16} {m : PortManager} (h : Keeps ports m) (hn : ports.Nodup)
    (port : UInt16) (check : Nat → UInt16 → Bool) :
    Keeps ports (m.get_udp_port port check).1 ∧
      (m.get_udp_port port check).2.probes.length ≤ ports.length ∧
      ((m.get_udp_port port check).2.result = true →
        (m.get_udp_port port check).2.port ∈ (m.get_udp_port port check).1.m_ports_in_use ∧
        (m.get_udp_port port check).2.probes.getLast? = some ((m.get_udp_port port check).2.port, true)) := by
  have hr := h.recycle
  have hp := probe_loop_probed check hn 0 port hr
  have hlen : m.recycle.m_available_ports.length ≤ ports.length := by
    rw [← hr.perm.length_eq, List.length_append]
    omega
  unfold PortManager.get_udp_port
  dsimp only
  split
  · exact ⟨hp.holds, hp.length.trans hlen, fun _ => hp.found ‹_›⟩
  · have hk : Keeps ports { m.recycle with m_available_ports := _, m_ports_in_use := _ } := hp.holds
    exact ⟨hk.recycle, hp.length.trans hlen, by simp⟩

theorem Keeps.release_port {ports : List UInt16} {m : PortManager} (h : Keeps ports m) (port : UInt16) :
    Keeps ports (m.release_port port).1 := by
  unfold PortManager.release_port
  split
  · rename_i hmem
    refine ⟨h.increasing.sublist List.erase_sublist, List.Perm.trans ?_ h.perm⟩
    dsimp only
    rw [List.append_assoc]
    exact (List.perm_cons_erase hmem).symm.append_left _
  · exact h

theorem Keeps.step {ports : List UInt16} {m : PortManager} (h : Keeps ports m) (hn : ports.Nodup) (c : Call) :
    Keeps ports (step m c).1 := by
  cases c with
  | get_udp_port port check => exact (h.get_udp_port hn port check).1
  | release_port port => exact h.release_port port

theorem keeps (start end_ : UInt16) (calls : List Call) :
    Keeps (range start end_) (final step (({} : PortManager).initialize_udp_ports start end_) calls) := by
  refine final_rule step (Keeps (range start end_)) (fun _ c h => h.step (range_nodup start end_) c) ?_ calls
  refine ⟨List.Pairwise.nil, ?_⟩
  exact .of_eq (List.append_nil _)

/-- After every sequence of calls, whatever the system answers, the available ports have no
duplicates, none is in use, and with those in use they are the ports of the range; the next
`get_udp_port` probes each port at most once and succeeds only with a port of the range that
it has just been told is available. -/
theorem ports_conserved (start end_ : UInt16) (calls : List Call) :
    let m := final step (({} : PortManager).initialize_udp_ports start end_) calls
    m.m_available_ports.Nodup ∧ m.m_ports_in_use.Nodup ∧ m.m_available_ports.Disjoint m.m_ports_in_use ∧
      (∀ p, p ∈ m.m_available_ports ∨ p ∈ m.m_ports_in_use ↔ start ≤ p ∧ p < end_) ∧
      ∀ port check, (m.get_udp_port port check).2.probes.length ≤ end_.toNat - start.toNat ∧
        ((m.get_udp_port port check).2.result = true →
          start ≤ (m.get_udp_port port check).2.port ∧ (m.get_udp_port port check).2.port < end_ ∧
          (m.get_udp_port port check).2.port ∈ (m.get_udp_port port check).1.m_ports_in_use ∧
          (m.get_udp_port port check).2.probes.getLast? = some ((m.get_udp_port port check).2.port, true)) := by
  intro m
  have h : Keeps (range start end_) m := keeps start end_ calls
  have hn := List.nodup_append.1 (h.perm.nodup_iff.2 (range_nodup start end_))
  refine ⟨hn.1, hn.2.1, fun p hp hq => hn.2.2 p hp p hq rfl, fun p => ?_, fun port check => ?_⟩
  · rw [← List.mem_append, h.perm.mem_iff, mem_range]
  · obtain ⟨hk, hlen, hfound⟩ := h.get_udp_port (range_nodup start end_) port check
    refine ⟨hlen.trans (range_length start end_).le, fun hr => ?_⟩
    have hmem := hk.perm.mem_iff.1 (List.mem_append.2 (.inr (hfound hr).1))
    have hrange := (mem_range _ _ _).1 hmem
    exact ⟨hrange.1, hrange.2, hfound hr⟩

/-- Two ports, the first busy: the second is given out. -/
theorem ports_conserved_busy :
    let m := final step (({} : PortManager).initialize_udp_ports 30000 30002) []
    let check : Nat → UInt16 → Bool := fun _ p => p == 30001
    (m.get_udp_port 0 check).2.result = true ∧ (30000 : UInt16) ≤ (m.get_udp_port 0 check).2.port :=
  ⟨by decide +kernel, (((ports_conserved 30000 30002 []).2.2.2.2 0 _).2 (by decide +kernel)).1⟩

/-! ## When no port is given out -/

/-- The manager when the process starts to use it, before or after its initialization. -/
def started : Option (UInt16 × UInt16) → PortManager
  | none => {}
  | some (start, end_) => ({} : PortManager).initialize_udp_ports start end_

/-- The ports it manages. -/
def managed : Option (UInt16 × UInt16) → List UInt16
  | none => []
  | some (start, end_) => range start end_

theorem keeps_started (r : Option (UInt16 × UInt16)) (calls : List Call) :
    Keeps (managed r) (final step (started r) calls) := by
  cases r with
  | none =>
    apply final_rule step (Keeps []) (fun _ c h => h.step .nil c)
    exact ⟨List.Pairwise.nil, List.Perm.refl []⟩
  | some r => exact keeps r.1 r.2 calls

/-- With answers that do not change, probing finds a port just when there is one among those it probes. -/
theorem probe_loop_found (check : UInt16 → Bool) (available : List UInt16) :
    ∀ k port in_use, (probe_loop (fun _ p => check p) k port in_use available).found = true ↔
      ∃ p ∈ available, check p = true := by
  induction available with
  | nil =>
    intro k port in_use
    simp [probe_loop]
  | cons p rest ih =>
    intro k port in_use
    by_cases hp : check p = true
    · rw [probe_loop, if_pos hp]
      exact iff_of_true rfl ⟨p, by simp, hp⟩
    · rw [probe_loop, if_neg hp]
      refine (ih _ _ _).trans ?_
      simp [hp]

/-- What is probed: the available ports or, if there are none, those in use. -/
theorem get_udp_port_result (m : PortManager) (port : UInt16) (check : UInt16 → Bool) :
    (m.get_udp_port port (fun _ p => check p)).2.result = true ↔
      (∃ p ∈ m.m_available_ports, check p = true) ∨
        m.m_available_ports = [] ∧ ∃ p ∈ m.m_ports_in_use, check p = true := by
  have hresult : (m.get_udp_port port (fun _ p => check p)).2.result =
      (probe_loop (fun _ p => check p) 0 port m.recycle.m_ports_in_use m.recycle.m_available_ports).found := by
    unfold get_udp_port
    dsimp only
    split <;> simp_all
  rw [hresult, probe_loop_found, recycle]
  cases hports : m.m_available_ports with
  | nil => simp
  | cons p rest => simp [hports]

/-- A call says that there is no port just when there is none, unless only ports in use
would do: they become available after the probing. -/
theorem exhaustion_real_iff (r : Option (UInt16 × UInt16)) (calls : List Call) (port : UInt16)
    (check : UInt16 → Bool) :
    let m := final step (started r) calls
    ((m.get_udp_port port (fun _ p => check p)).2.result = true ↔ ∃ p ∈ managed r, check p = true) ↔
      m.m_available_ports = [] ∨ (∃ p ∈ m.m_available_ports, check p = true) ∨
        ∀ p ∈ m.m_ports_in_use, check p = false := by
  intro m
  have hmanaged : (∃ p ∈ managed r, check p = true) ↔
      (∃ p ∈ m.m_available_ports, check p = true) ∨ ∃ p ∈ m.m_ports_in_use, check p = true := by
    simp only [← (keeps_started r calls).perm.mem_iff, List.mem_append, or_and_right, exists_or]
    rfl
  have hall : (∀ p ∈ m.m_ports_in_use, check p = false) ↔ ¬ ∃ p ∈ m.m_ports_in_use, check p = true := by
    simp
  rw [get_udp_port_result, hmanaged, hall]
  by_cases havailable : ∃ p ∈ m.m_available_ports, check p = true
  · simp only [havailable, true_or, or_true]
  · by_cases hin_use : ∃ p ∈ m.m_ports_in_use, check p = true
    · simp only [havailable, hin_use, false_or, and_true, not_true_eq_false, or_false, iff_true]
    · simp only [havailable, hin_use, false_or, and_false, not_false_eq_true, or_true]

/-- The first port is given out, the second is busy: the next call finds none, though the
first is free again. -/
theorem exhaustion_false :
    let m := final step (started (some (30000, 30002))) [.get_udp_port 0 (fun _ _ => true)]
    let check : UInt16 → Bool := fun p => p == 30000
    (m.get_udp_port 0 (fun _ p => check p)).2.result = false ∧
      ∃ p ∈ managed (some (30000, 30002)), check p = true :=
  ⟨by decide +kernel, 30000, by decide +kernel, rfl⟩

end PortManager

end RtcClient
