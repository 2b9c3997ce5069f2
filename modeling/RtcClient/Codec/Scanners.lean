import RtcClient.Codec.StartCode
/-!
# Scanning a stream for NAL units

`codec_utils` goes over the NAL units of a stream in four functions. They differ in
what they do with the type of a unit; the loop is `scan_loop`. It visits the units of
`spans` in order.
-/

namespace RtcClient

open Lib

/-- `while (nalStart < end && !*(nalStart++));`. -/
def skip_code (data : Buffer) (nalStart stop : Nat) : Nat :=
  if nalStart < stop then
    if data.get nalStart = 0 then skip_code data (nalStart + 1) stop else nalStart + 1
  else nalStart
termination_by stop - nalStart

theorem le_skip_code (data : Buffer) (nalStart stop : Nat) : nalStart ≤ skip_code data nalStart stop := by
  fun_induction skip_code data nalStart stop <;> omega

theorem lt_skip_code (data : Buffer) {nalStart stop : Nat} (h : nalStart < stop) :
    nalStart < skip_code data nalStart stop := by
  unfold skip_code
  have := le_skip_code data (nalStart + 1) stop
  split_ifs <;> omega

theorem skip_code_of_le (data : Buffer) {nalStart stop : Nat} (h : stop ≤ nalStart) :
    skip_code data nalStart stop = nalStart := by
  unfold skip_code
  rw [if_neg (by omega)]

/-- The search ends at `stop` at the latest. -/
theorem avc_find_start_code_le (data : Buffer) (addr start stop : Nat) :
    avc_find_start_code data addr start stop ≤ stop := by
  rcases avc_find_start_code_found data addr start stop with h | ⟨-, c, hc⟩
  · exact Nat.le_of_eq h
  · have hbehind := hc.behind
    rcases hc.begins with h | ⟨h, -⟩ <;> omega

theorem avc_find_start_code_of_le (data : Buffer) (addr : Nat) {start stop : Nat} (h : stop ≤ start) :
    avc_find_start_code data addr start stop = stop := by
  rcases avc_find_start_code_found data addr start stop with hs | ⟨hr, c, hc⟩
  · exact hs
  · have hle := avc_find_start_code_le data addr start stop
    omega

/-- The loop of the scanners. `on_nalu` says what is done with a unit of some type, and whether the loop ends there. -/
def scan_loop {A : Type} (on_nalu : A → UInt8 → A × Bool) (data : Buffer) (addr stop nalStart : Nat) (a : A) : A :=
  let start := skip_code data nalStart stop
  if start = stop then a
  else
    let a' := on_nalu a (data.get start &&& 0x1F)
    if a'.2 then a'.1 else scan_loop on_nalu data addr stop (avc_find_start_code data addr start stop) a'.1
termination_by (stop - nalStart) + (nalStart - stop)
decreasing_by
  by_cases h : nalStart < stop
  · have := lt_avc_find_start_code data addr (lt_skip_code data h) h
    have := avc_find_start_code_le data addr (skip_code data nalStart stop) stop
    omega
  · have hskip := skip_code_of_le data (Nat.not_lt.1 h)
    have := avc_find_start_code_of_le data addr (hskip ▸ Nat.not_lt.1 h)
    omega

/-- The scanners start at the first start code. -/
def scan {A : Type} (on_nalu : A → UInt8 → A × Bool) (data : Buffer) (addr size : Nat) (a : A) : A :=
  scan_loop on_nalu data addr size (avc_find_start_code data addr 0 size) a

def avc_find_key_frame (data : Buffer) (addr size : Nat) : Bool :=
  scan (fun found type => if type = 5 ∨ type = 1 then (decide (type = 5), true) else (found, false)) data addr size
    false

def avc_find_sps_pps_idr (data : Buffer) (addr size : Nat) : Bool :=
  scan (fun found type => if type = 5 ∨ type = 7 ∨ type = 8 then (true, true) else (found, false)) data addr size false

/-- `count` is an `int`. -/
def count_avc_key_frames (data : Buffer) (addr size : Nat) : Int :=
  scan (fun count type => (if type = 5 then int32 (count + 1) else count, false)) data addr size 0

/-! ## The units a scanner visits -/

/-- The units from a start code on: where each begins and where the search for the next code ends. -/
def spans (data : Buffer) (addr stop startCode : Nat) : List (Nat × Nat) :=
  if startCode < stop then
    let start := skip_code data startCode stop
    let nextStart := avc_find_start_code data addr start stop
    (start, nextStart) :: spans data addr stop nextStart
  else []
termination_by stop - startCode
decreasing_by
  have := lt_avc_find_start_code data addr (lt_skip_code data ‹startCode < stop›) ‹startCode < stop›
  omega

/-- The byte its type is in, for each unit. -/
def types (data : Buffer) (us : List (Nat × Nat)) : List UInt8 := us.map (fun u => data.get u.1 &&& 0x1F)

/-- A run over types that may end early. -/
def visit {A : Type} (on_nalu : A → UInt8 → A × Bool) : List UInt8 → A → A
  | [], a => a
  | type :: rest, a => if (on_nalu a type).2 then (on_nalu a type).1 else visit on_nalu rest (on_nalu a type).1

/-- The code at `c` ends the skipping behind its 01. -/
theorem skip_code_at {data : Buffer} {stop c : Nat} (hc : StartCodeAt data c) (hstop : c + 3 < stop) :
    skip_code data c stop = c + 3 := by
  obtain ⟨h0, h1, h2⟩ := hc
  have hone : data.get (c + 2) ≠ 0 := by rw [h2]; decide
  unfold skip_code
  rw [if_pos (by omega), if_pos h0]
  unfold skip_code
  rw [if_pos (by omega), if_pos h1]
  unfold skip_code
  rw [if_pos (by omega), if_neg hone]

theorem CodeBegins.skip_code {data : Buffer} {stop r c : Nat} (h : CodeBegins data stop r c) :
    skip_code data r stop = c + 3 := by
  have hbehind := h.behind
  rcases h.begins with rfl | ⟨rfl, hzero⟩
  · exact skip_code_at h.code hbehind
  · unfold RtcClient.skip_code
    rw [if_pos (by omega), if_pos hzero]
    exact skip_code_at h.code hbehind

/-- A search that has found a start code, or nothing. -/
def AtCode (data : Buffer) (stop r : Nat) : Prop := r = stop ∨ ∃ c, CodeBegins data stop r c

theorem avc_find_start_code_atCode (data : Buffer) (addr start stop : Nat) :
    AtCode data stop (avc_find_start_code data addr start stop) := by
  rcases avc_find_start_code_found data addr start stop with h | ⟨-, hc⟩
  · exact .inl h
  · exact .inr hc

/-- Behind a start code there is a byte, so the skipping ends at `stop` only where no code was found. -/
theorem AtCode.skip_code_eq_iff {data : Buffer} {stop r : Nat} (h : AtCode data stop r) :
    skip_code data r stop = stop ↔ r = stop := by
  rcases h with rfl | ⟨c, hc⟩
  · exact iff_of_true (skip_code_of_le data (Nat.le_refl _)) rfl
  · have hskip := hc.skip_code
    have hbehind := hc.behind
    rcases hc.begins with h | ⟨h, -⟩ <;> omega

theorem AtCode.exists_code {data : Buffer} {stop r : Nat} (h : AtCode data stop r) (hlt : r < stop) :
    ∃ c, CodeBegins data stop r c := by
  rcases h with rfl | hc
  · exact absurd hlt (Nat.lt_irrefl _)
  · exact hc

theorem AtCode.le {data : Buffer} {stop r : Nat} (h : AtCode data stop r) : r ≤ stop := by
  rcases h with rfl | ⟨c, hc⟩
  · exact Nat.le_refl _
  · have hbehind := hc.behind
    rcases hc.begins with h | ⟨h, -⟩ <;> omega

theorem spans_stop (data : Buffer) (addr stop : Nat) : spans data addr stop stop = [] := by
  rw [spans, if_neg (Nat.lt_irrefl _)]

theorem spans_cons {data : Buffer} {addr stop r : Nat} (h : AtCode data stop r) (hne : skip_code data r stop ≠ stop) :
    spans data addr stop r = (skip_code data r stop, avc_find_start_code data addr (skip_code data r stop) stop) ::
      spans data addr stop (avc_find_start_code data addr (skip_code data r stop) stop) := by
  have hlt : r < stop := Nat.lt_of_le_of_ne h.le (fun heq => hne (h.skip_code_eq_iff.2 heq))
  rw [spans, if_pos hlt]

/-- A scanner visits the types of the units, in order. -/
theorem scan_loop_eq {A : Type} (on_nalu : A → UInt8 → A × Bool) (data : Buffer) (addr stop nalStart : Nat) (a : A)
    (h : AtCode data stop nalStart) :
    scan_loop on_nalu data addr stop nalStart a = visit on_nalu (types data (spans data addr stop nalStart)) a := by
  fun_induction scan_loop on_nalu data addr stop nalStart a with
  | case1 nalStart a start hstart =>
    obtain rfl := h.skip_code_eq_iff.1 hstart
    rw [spans_stop]
    rfl
  | case2 nalStart a start hstart a' hend =>
    rw [spans_cons h hstart]
    exact (if_pos hend).symm
  | case3 nalStart a start hstart a' hend ih =>
    rw [spans_cons h hstart]
    refine (ih (avc_find_start_code_atCode data addr start stop)).trans ?_
    exact (if_neg hend).symm

theorem scan_eq {A : Type} (on_nalu : A → UInt8 → A × Bool) (data : Buffer) (addr size : Nat) (a : A) :
    scan on_nalu data addr size a =
      visit on_nalu (types data (spans data addr size (avc_find_start_code data addr 0 size))) a :=
  scan_loop_eq on_nalu data addr size _ a (avc_find_start_code_atCode data addr 0 size)

/-- Types that change nothing may be left out. -/
theorem visit_filter {A : Type} (on_nalu : A → UInt8 → A × Bool) (p : UInt8 → Bool)
    (h : ∀ a type, p type = false → on_nalu a type = (a, false)) (ts : List UInt8) :
    ∀ a, visit on_nalu ts a = visit on_nalu (ts.filter p) a := by
  induction ts with
  | nil => intro a; rfl
  | cons type rest ih =>
    intro a
    by_cases hp : p type = true
    · rw [List.filter_cons_of_pos hp]
      simp only [visit]
      rw [ih]
    · have hstep := h a type (by simpa using hp)
      rw [List.filter_cons_of_neg hp]
      simp only [visit, hstep]
      exact ih a

end RtcClient
