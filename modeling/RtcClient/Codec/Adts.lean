import RtcClient.Lib.Reading
/-!
# Counting AAC frames

`count_aac_frames` walks over ADTS headers by the length each one gives. A header whose
length is 0 stops it where it is: with any number of rounds it is not done
(`loop_stuck`). `adts_headers` lists the headers on the way.
-/

namespace RtcClient

open Lib Lib.Reading

/-! ## The functions -/

structure ADTSHeader where
  syncword : UInt16 := 0
  id : UInt8
  layer : UInt8
  protection_absent : UInt8
  profile : UInt8
  sampling_freq_index : UInt8
  private_bit : UInt8
  channel_cfg : UInt8
  original_copy : UInt8
  home : UInt8
  copyright_identification_bit : UInt8
  copyright_identification_start : UInt8
  aac_frame_length : UInt16
  adts_buffer_fullness : UInt16
  number_of_raw_data_blocks_in_frame : UInt8
deriving DecidableEq, Repr

/-- `(data[0] == 0xFF) && ((data[1] & 0xF0) == 0xF0)`, for the data at `off`. -/
def sync_word (data : Buffer) (off : Nat) : Reading Bool :=
  both (equals data off 0xFF) (do return decide ((← byte data (off + 1)) &&& 0xF0 = 0xF0))

/-- The fields, which `parse_adts_header` reads behind the sync word. -/
def adts_fields (data : Buffer) (off : Nat) : Reading ADTSHeader := do
  let data1 ← byte data (off + 1)
  let data2 ← byte data (off + 2)
  let data3 ← byte data (off + 3)
  let data4 ← byte data (off + 4)
  let data5 ← byte data (off + 5)
  let data6 ← byte data (off + 6)
  return {
    id := (data1 &&& 0x08) >>> 3
    layer := (data1 &&& 0x06) >>> 1
    protection_absent := data1 &&& 0x01
    profile := (data2 &&& 0xC0) >>> 6
    sampling_freq_index := (data2 &&& 0x3C) >>> 2
    private_bit := (data2 &&& 0x02) >>> 1
    channel_cfg := ((data2 &&& 0x01) <<< 2) ||| ((data3 &&& 0xC0) >>> 6)
    original_copy := (data3 &&& 0x20) >>> 5
    home := (data3 &&& 0x10) >>> 4
    copyright_identification_bit := (data3 &&& 0x08) >>> 3
    copyright_identification_start := (data3 &&& 0x04) >>> 2
    aac_frame_length := ((data3.toUInt16 &&& 0x03) <<< 11) ||| ((data4.toUInt16 &&& 0xFF) <<< 3) |||
      ((data5 &&& 0xE0) >>> 5).toUInt16
    adts_buffer_fullness := ((data5.toUInt16 &&& 0x1F) <<< 6) ||| ((data6.toUInt16 &&& 0xFC) >>> 2)
    number_of_raw_data_blocks_in_frame := data6 &&& 0x03 }

/-- The header, if the function returns true. -/
def parse_adts_header (data : Buffer) (off data_len : Nat) : Reading (Option ADTSHeader) :=
  if data_len < 7 then pure none
  else guarded (sync_word data off) (do return some (← adts_fields data off))

/-- The loop, for a number of rounds; `none` if it is not done by then. `currentPos + 7` does not wrap, since no
buffer is that long. -/
def count_aac_loop (data : Buffer) (size : Nat) : (rounds currentPos : Nat) → (count : Int) → Reading (Option Int)
  | 0, _, _ => pure none
  | rounds + 1, currentPos, count =>
    if currentPos + 7 ≤ size then
      let header := parse_adts_header data currentPos 7
      match header.value with
      | some h =>
        header.after (count_aac_loop data size rounds (currentPos + h.aac_frame_length.toNat) (int32 (count + 1)))
      | none => header.after (pure (some count))
    else pure (some count)

def count_aac_frames (data : Buffer) (size rounds : Nat) : Reading (Option Int) := count_aac_loop data size rounds 0 0

/-! ## Headers -/

/-- A header begins at `pos`. -/
def HeaderAt (data : Buffer) (size pos : Nat) : Prop :=
  pos + 7 ≤ size ∧ data.get pos = 0xFF ∧ 240 ≤ (data.get (pos + 1)).toNat

instance (data : Buffer) (size pos : Nat) : Decidable (HeaderAt data size pos) :=
  inferInstanceAs (Decidable (_ ∧ _ ∧ _))

/-- The 13 bits of its frame length. -/
def frame_length (data : Buffer) (pos : Nat) : Nat :=
  (data.get (pos + 3)).toNat % 4 * 2048 + (data.get (pos + 4)).toNat * 8 + (data.get (pos + 5)).toNat / 32

/-- The headers from `pos` on, each where the length of the one before says. After a length of 0 the walk
comes to the same header again. -/
def adts_headers (data : Buffer) (size pos : Nat) : List Nat :=
  if HeaderAt data size pos then
    pos :: if frame_length data pos = 0 then [] else adts_headers data size (pos + frame_length data pos)
  else []
termination_by size - pos
decreasing_by
  have hinside := (‹HeaderAt data size pos›).1
  omega

theorem high_nibble (x : UInt8) : x &&& 0xF0 = 0xF0 ↔ 240 ≤ x.toNat :=
  forall_byte (P := fun x => x &&& 0xF0 = 0xF0 ↔ 240 ≤ x.toNat) (by decide +kernel) x

theorem sync_word_value (data : Buffer) (off : Nat) :
    (sync_word data off).value = true ↔ data.get off = 0xFF ∧ 240 ≤ (data.get (off + 1)).toNat := by
  rw [sync_word, value_both, Bool.and_eq_true, value_equals, decide_eq_true_iff, ← high_nibble]
  exact and_congr_right fun _ => decide_eq_true_iff

/-- The three parts of the length do not overlap. -/
theorem frame_length_eq (data : Buffer) (off : Nat) :
    (adts_fields data off).value.aac_frame_length.toNat = frame_length data off := by
  have hvalue : (adts_fields data off).value.aac_frame_length =
      (((data.get (off + 3)).toUInt16 &&& 0x03) <<< 11) ||| (((data.get (off + 4)).toUInt16 &&& 0xFF) <<< 3) |||
        ((data.get (off + 5) &&& 0xE0) >>> 5).toUInt16 := rfl
  rw [hvalue, frame_length]
  generalize data.get (off + 3) = a
  generalize data.get (off + 4) = b
  generalize data.get (off + 5) = c
  have ha := a.toNat_lt
  have hb := b.toNat_lt
  have hc := c.toNat_lt
  have e1 : a.toNat &&& 3 = a.toNat % 4 := Nat.and_two_pow_sub_one_eq_mod _ 2
  have e2 : b.toNat &&& 255 = b.toNat := by
    rw [Nat.and_two_pow_sub_one_eq_mod _ 8]
    omega
  have e3 : (c.toNat &&& 224) >>> 5 = c.toNat / 32 := by
    rw [Nat.shiftRight_and_distrib, Nat.shiftRight_eq_div_pow, show 224 >>> 5 = 2 ^ 3 - 1 from rfl,
      Nat.and_two_pow_sub_one_eq_mod]
    omega
  have hlow : b.toNat <<< 3 < 2 ^ 11 := by
    rw [Nat.shiftLeft_eq]
    omega
  have e4 : (a.toNat % 4) <<< 11 % 65536 = (a.toNat % 4) <<< 11 := Nat.mod_eq_of_lt (by rw [Nat.shiftLeft_eq]; omega)
  have e5 : b.toNat <<< 3 % 65536 = b.toNat <<< 3 := Nat.mod_eq_of_lt (by omega)
  have e6 : (a.toNat % 4) <<< 11 + b.toNat <<< 3 = (a.toNat % 4 * 256 + b.toNat) <<< 3 := by
    simp only [Nat.shiftLeft_eq]
    omega
  simp only [UInt16.toNat_or, UInt16.toNat_shiftLeft, UInt16.toNat_and, UInt8.toNat_toUInt16, UInt8.toNat_shiftRight,
    UInt8.toNat_and, UInt16.reduceToNat, UInt8.reduceToNat, Nat.reduceMod, Nat.reducePow, e1, e2, e3, e4, e5]
  rw [← Nat.shiftLeft_add_eq_or_of_lt hlow, e6, ← Nat.shiftLeft_add_eq_or_of_lt (by omega), Nat.shiftLeft_eq]
  omega

theorem parse_adts_header_eq (data : Buffer) (off : Nat) :
    (parse_adts_header data off 7).value =
      if data.get off = 0xFF ∧ 240 ≤ (data.get (off + 1)).toNat then some (adts_fields data off).value else none := by
  rw [parse_adts_header, if_neg (by decide), value_guarded]
  by_cases h : (sync_word data off).value = true
  · rw [if_pos h, if_pos ((sync_word_value data off).1 h)]
    rfl
  · rw [if_neg h, if_neg (fun hs => h ((sync_word_value data off).2 hs))]

theorem within_parse_adts_header (data : Buffer) (off : Nat) :
    Within off (off + 7) (parse_adts_header data off 7) := by
  rw [parse_adts_header, if_neg (by decide)]
  apply Within.guarded
  · exact .both (.equals (by omega)) (.bind (.byte (by omega)) (.pure _))
  · apply Within.bind _ (.pure _)
    intro i hi
    have hmem : i ∈ [off + 1, off + 2, off + 3, off + 4, off + 5, off + 6] := hi
    simp only [List.mem_cons, List.not_mem_nil, or_false] at hmem
    omega

/-! ## The loop -/

section
variable {data : Buffer} {size : Nat}

/-- A round at a header goes on behind it. -/
theorem loop_header {pos : Nat} (h : HeaderAt data size pos) (rounds : Nat) (count : Int) :
    (count_aac_loop data size (rounds + 1) pos count).value =
      (count_aac_loop data size rounds (pos + frame_length data pos) (int32 (count + 1))).value := by
  rw [count_aac_loop, if_pos h.1]
  dsimp only
  rw [parse_adts_header_eq, if_pos h.2]
  change ((parse_adts_header data pos 7).after _).value = _
  rw [value_after, frame_length_eq]

/-- Without one the loop is done. -/
theorem loop_no_header {pos : Nat} (h : ¬ HeaderAt data size pos) (rounds : Nat) (count : Int) :
    (count_aac_loop data size (rounds + 1) pos count).value = some count := by
  by_cases hsize : pos + 7 ≤ size
  · rw [count_aac_loop, if_pos hsize]
    dsimp only
    rw [parse_adts_header_eq, if_neg (fun hsync => h ⟨hsize, hsync⟩)]
    rfl
  · rw [count_aac_loop, if_neg hsize, value_pure]

theorem within_count_aac_loop (data : Buffer) (size rounds : Nat) :
    ∀ pos count, Within 0 size (count_aac_loop data size rounds pos count) := by
  induction rounds with
  | zero =>
    intro pos count
    exact .pure _
  | succ rounds ih =>
    intro pos count
    rw [count_aac_loop]
    apply Within.ite
    · intro hsize
      have hheader : Within 0 size (parse_adts_header data pos 7) :=
        (within_parse_adts_header data pos).mono (Nat.zero_le _) hsize
      dsimp only
      cases (parse_adts_header data pos 7).value with
      | some h => exact hheader.after (ih _ _)
      | none => exact hheader.after (.pure _)
    · intro _
      exact .pure _

theorem adts_headers_cons {pos : Nat} (h : HeaderAt data size pos) (hlen : frame_length data pos ≠ 0) :
    adts_headers data size pos = pos :: adts_headers data size (pos + frame_length data pos) := by
  rw [adts_headers, if_pos h, if_neg hlen]

theorem adts_headers_nil {pos : Nat} (h : ¬ HeaderAt data size pos) : adts_headers data size pos = [] := by
  rw [adts_headers, if_neg h]

theorem adts_headers_eq_nil {pos : Nat} (hl : adts_headers data size pos = []) : ¬ HeaderAt data size pos := by
  intro h
  rw [adts_headers, if_pos h] at hl
  cases hl

/-- The walk begins at `pos`, if it begins anywhere. -/
theorem adts_headers_eq_cons {pos q : Nat} {l : List Nat} (hl : adts_headers data size pos = q :: l)
    (hlen : frame_length data q ≠ 0) :
    HeaderAt data size pos ∧ pos = q ∧ adts_headers data size (pos + frame_length data pos) = l := by
  have h : HeaderAt data size pos := by
    by_contra h
    rw [adts_headers_nil h] at hl
    cases hl
  obtain rfl : pos = q := by
    rw [adts_headers, if_pos h] at hl
    exact (List.cons.inj hl).1
  rw [adts_headers_cons h hlen] at hl
  exact ⟨h, rfl, (List.cons.inj hl).2⟩

/-- A header of length 0 on the way keeps the loop going for ever. -/
theorem loop_stuck (rounds : Nat) : ∀ pos count, (∃ q ∈ adts_headers data size pos, frame_length data q = 0) →
    (count_aac_loop data size rounds pos count).value = none := by
  induction rounds with
  | zero =>
    intro pos count _
    rfl
  | succ rounds ih =>
    intro pos count hzero
    by_cases h : HeaderAt data size pos
    · rw [loop_header h]
      apply ih
      by_cases hlen : frame_length data pos = 0
      · rwa [hlen, Nat.add_zero]
      · obtain ⟨q, hq, hqzero⟩ := hzero
        rw [adts_headers_cons h hlen] at hq
        rcases List.mem_cons.1 hq with rfl | hq
        · exact absurd hqzero hlen
        · exact ⟨q, hq, hqzero⟩
    · rw [adts_headers_nil h] at hzero
      obtain ⟨q, hq, -⟩ := hzero
      cases hq

/-- Otherwise it is done in the round after the last header, and has counted them all. -/
theorem loop_done (l : List Nat) : ∀ pos (k : Nat), adts_headers data size pos = l →
    (∀ q ∈ l, frame_length data q ≠ 0) →
    (count_aac_loop data size (l.length + 1) pos (int32 k)).value = some (int32 (k + l.length : Nat)) ∧
      ∀ rounds count, (count_aac_loop data size rounds pos (int32 k)).value = some count →
        count = int32 (k + l.length : Nat) := by
  induction l with
  | nil =>
    intro pos k hl hlen
    have h := adts_headers_eq_nil hl
    refine ⟨loop_no_header h 0 _, fun rounds count hdone => ?_⟩
    cases rounds with
    | zero => cases hdone
    | succ rounds =>
      rw [loop_no_header h] at hdone
      exact (Option.some.inj hdone).symm
  | cons q l ih =>
    intro pos k hl hlen
    obtain ⟨h, rfl, hrest⟩ := adts_headers_eq_cons hl (hlen q (by simp))
    obtain ⟨hdone, hall⟩ := ih (pos + frame_length data pos) (k + 1) hrest (fun r hr => hlen r (by simp [hr]))
    have hsum : k + (pos :: l).length = k + 1 + l.length := by
      rw [List.length_cons]
      omega
    have hnext : int32 (int32 k + 1) = int32 (k + 1 : Nat) := int32_add_one k
    rw [hsum]
    refine ⟨?_, fun rounds count hcount => ?_⟩
    · rw [List.length_cons, loop_header h, hnext]
      exact hdone
    · cases rounds with
      | zero => cases hcount
      | succ rounds =>
        rw [loop_header h, hnext] at hcount
        exact hall rounds count hcount

end

/-- Counting ends with the number of headers, reading only inside, just when no header on
the way has length 0 and their number fits an `int`. -/
theorem count_aac_frames_iff (data : Buffer) :
    (∃ rounds, (count_aac_frames data data.bytes.length rounds).value =
        some ((adts_headers data data.bytes.length 0).length : Int) ∧
        ∀ i ∈ (count_aac_frames data data.bytes.length rounds).reads, i < data.bytes.length) ↔
      (∀ pos ∈ adts_headers data data.bytes.length 0, frame_length data pos ≠ 0) ∧
        (adts_headers data data.bytes.length 0).length < 2 ^ 31 := by
  have hzero : int32 (0 : Nat) = 0 := by decide
  constructor
  · rintro ⟨rounds, hcount, -⟩
    have hlen : ∀ pos ∈ adts_headers data data.bytes.length 0, frame_length data pos ≠ 0 := by
      intro pos hpos h
      have hstuck := loop_stuck rounds 0 0 ⟨pos, hpos, h⟩
      rw [count_aac_frames, hstuck] at hcount
      cases hcount
    obtain ⟨-, hall⟩ := loop_done _ 0 0 rfl hlen
    rw [hzero, Nat.zero_add] at hall
    exact ⟨hlen, (int32_eq_iff _).1 (hall rounds _ hcount).symm⟩
  · rintro ⟨hlen, hfits⟩
    obtain ⟨hdone, -⟩ := loop_done _ 0 0 rfl hlen
    rw [hzero, Nat.zero_add, int32_of_lt hfits] at hdone
    exact ⟨_, hdone, fun i hi => ((within_count_aac_loop data _ _ 0 0) i hi).2⟩

/-- A header whose 13 bits are all zero. -/
theorem count_aac_frames_stuck :
    ¬ ∃ rounds count, (count_aac_frames ⟨[0xFF, 0xF1, 0x50, 0x80, 0, 0x1F, 0xFC], []⟩ 7 rounds).value = some count := by
  rintro ⟨rounds, count, h⟩
  have hzero : ∃ q ∈ adts_headers ⟨[0xFF, 0xF1, 0x50, 0x80, 0, 0x1F, 0xFC], []⟩ 7 0,
      frame_length ⟨[0xFF, 0xF1, 0x50, 0x80, 0, 0x1F, 0xFC], []⟩ q = 0 := by
    refine ⟨0, ?_, by decide⟩
    rw [adts_headers, if_pos (by decide)]
    simp
  rw [count_aac_frames, loop_stuck rounds 0 0 hzero] at h
  cases h

end RtcClient
