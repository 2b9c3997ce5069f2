import RtcClient.Codec.BitReader
import RtcClient.Codec.EmulationPrevention
import RtcClient.Codec.SpsSyntax
/-!
# Decoding a sequence parameter set

`h264_decode_sps` reads some forty elements. `none` is a read outside the buffer, a shift
of 1 by 31 or more, an array of negative length, or a division by zero. Where a read behind
the size that is left counts too (`h264_decode_sps_within`), an `Sps` is what is read: there
is a result just for buffers that begin with the code of one (`h264_decode_sps_safe_iff`).
-/

namespace RtcClient

open Lib

/-! ## The function -/

/-- What the out parameters point to. -/
structure VideoSize where
  width : Int
  height : Int
  fps : Int
deriving DecidableEq, Repr

variable {A T : Type}

/-- `if (u(1, data, StartBit)) { r }`. -/
def optional (data : Bytes) (r : StateT Nat Option A) : StateT Nat Option (Option A) := do
  let present ← u 1 data
  when (present ≠ 0) r

/-- The elements of the profiles with a chroma format. Of the scaling lists only the flags are read. -/
def decode_chroma_format (data : Bytes) (size : Nat) : StateT Nat Option Unit := do
  let chroma_format_idc := int32 (← Ue data size)
  let _residual_colour_transform_flag ← when (chroma_format_idc = 3) (u 1 data)
  let _bit_depth_luma_minus8 ← Ue data size
  let _bit_depth_chroma_minus8 ← Ue data size
  let _qpprime_y_zero_transform_bypass_flag ← u 1 data
  let _seq_scaling_list_present_flag ← optional data (times 8 (u 1 data))
  return ()

/-- `new int[length]`, filled by `r`. -/
def new_array (length : Int) (r : StateT Nat Option A) : StateT Nat Option (List A) :=
  if length < 0 then failure else times length.toNat r

def decode_order_cycle (data : Bytes) (size : Nat) : StateT Nat Option Unit := do
  let _delta_pic_order_always_zero_flag ← u 1 data
  let _offset_for_non_ref_pic ← Se data size
  let _offset_for_top_to_bottom_field ← Se data size
  let num_ref_frames_in_pic_order_cnt_cycle := int32 (← Ue data size)
  let _offset_for_ref_frame ← new_array num_ref_frames_in_pic_order_cnt_cycle (Se data size)
  return ()

def decode_pic_order_cnt (data : Bytes) (size : Nat) : StateT Nat Option Unit := do
  let pic_order_cnt_type := int32 (← Ue data size)
  let _log2_max_pic_order_cnt_lsb_minus4 ← when (pic_order_cnt_type = 0) (Ue data size)
  let _offsets ← when (pic_order_cnt_type = 1) (decode_order_cycle data size)
  return ()

def decode_cropping (data : Bytes) (size : Nat) : StateT Nat Option Unit := do
  let _frame_crop_left_offset ← Ue data size
  let _frame_crop_right_offset ← Ue data size
  let _frame_crop_top_offset ← Ue data size
  let _frame_crop_bottom_offset ← Ue data size
  return ()

def decode_sar (data : Bytes) : StateT Nat Option Unit := do
  let _sar_width ← u 16 data
  let _sar_height ← u 16 data
  return ()

def decode_aspect_ratio (data : Bytes) : StateT Nat Option Unit := do
  let aspect_ratio_idc ← u 8 data
  let _sar ← when (aspect_ratio_idc = 255) (decode_sar data)
  return ()

def decode_colour_description (data : Bytes) : StateT Nat Option Unit := do
  let _colour_primaries ← u 8 data
  let _transfer_characteristics ← u 8 data
  let _matrix_coefficients ← u 8 data
  return ()

def decode_video_signal_type (data : Bytes) : StateT Nat Option Unit := do
  let _video_format ← u 3 data
  let _video_full_range_flag ← u 1 data
  let _colour_description ← optional data (decode_colour_description data)
  return ()

def decode_chroma_loc (data : Bytes) (size : Nat) : StateT Nat Option Unit := do
  let _chroma_sample_loc_type_top_field ← Ue data size
  let _chroma_sample_loc_type_bottom_field ← Ue data size
  return ()

/-- `a / b` for two `int`s. -/
def divide (a b : Int) : StateT Nat Option Int := if b = 0 then failure else return a.tdiv b

/-- The product is of type `int`. -/
def decode_timing (data : Bytes) : StateT Nat Option Int := do
  let num_units_in_tick := int32 (← u 32 data)
  let time_scale := int32 (← u 32 data)
  divide time_scale (int32 (2 * num_units_in_tick))

def decode_vui (data : Bytes) (size : Nat) : StateT Nat Option (Option Int) := do
  let _aspect_ratio ← optional data (decode_aspect_ratio data)
  let _overscan_appropriate_flag ← optional data (u 1 data)
  let _video_signal_type ← optional data (decode_video_signal_type data)
  let _chroma_loc ← optional data (decode_chroma_loc data size)
  optional data (decode_timing data)

def decode_profile (data : Bytes) (size : Nat) : StateT Nat Option Nat := do
  let profile_idc ← u 8 data
  let _constraint_set0_flag ← u 1 data
  let _constraint_set1_flag ← u 1 data
  let _constraint_set2_flag ← u 1 data
  let _constraint_set3_flag ← u 1 data
  let _reserved_zero_4bits ← u 4 data
  let _level_idc ← u 8 data
  let _seq_parameter_set_id ← Ue data size
  return profile_idc

/-- `*width` and `*height`. -/
def decode_frame (data : Bytes) (size : Nat) : StateT Nat Option (Int × Int) := do
  let pic_width_in_mbs_minus1 := int32 (← Ue data size)
  let pic_height_in_map_units_minus1 := int32 (← Ue data size)
  let frame_mbs_only_flag ← u 1 data
  let _mb_adaptive_frame_field_flag ← when (frame_mbs_only_flag = 0) (u 1 data)
  let _direct_8x8_inference_flag ← u 1 data
  let _frame_cropping ← optional data (decode_cropping data size)
  return (int32 ((pic_width_in_mbs_minus1 + 1) * 16), int32 ((pic_height_in_map_units_minus1 + 1) * 16))

/-- The part for `nal_unit_type == 7`. -/
def decode_sps (data : Bytes) (size : Nat) (out : VideoSize) : StateT Nat Option VideoSize := do
  let profile_idc ← decode_profile data size
  let _chroma_format ← when (profile_idc = 100 ∨ profile_idc = 110 ∨ profile_idc = 122 ∨ profile_idc = 144)
    (decode_chroma_format data size)
  let _log2_max_frame_num_minus4 ← Ue data size
  let _pic_order_cnt ← decode_pic_order_cnt data size
  let _num_ref_frames ← Ue data size
  let _gaps_in_frame_num_value_allowed_flag ← u 1 data
  let (width, height) ← decode_frame data size
  let fps ← optional data (decode_vui data size)
  return { width, height, fps := fps.join.getD out.fps }

def decode_nal (data : Bytes) (size : Nat) (out : VideoSize) : StateT Nat Option (Bool × VideoSize) := do
  let _forbidden_zero_bit ← u 1 data
  let _nal_ref_idc ← u 2 data
  let nal_unit_type ← u 5 data
  if nal_unit_type = 7 then
    let out ← decode_sps data size out
    return (true, out)
  else return (false, out)

/-- The result, and what the out parameters point to afterwards. `u` knows no size: behind the `size` that is left it
reads the bytes that the removal leaves where they were. -/
def h264_decode_sps (data : Bytes) (size : Nat) (out : VideoSize) : Option (Bool × VideoSize) := do
  let (data, size) ← de_emulation_prevention data size
  let (result, _) ← decode_nal data size out 0
  return result

/-- The call where also a read behind the `size` that is left gives `none`. -/
def h264_decode_sps_within (data : Bytes) (size : Nat) (out : VideoSize) : Option (Bool × VideoSize) := do
  let (data, size) ← de_emulation_prevention data size
  let (result, _) ← decode_nal (data.take size) size out 0
  return result

/-! ## What is read -/

/-- The codes that the reader takes. -/
@[simps] def taken : Writing (Option Bool) Element Element Bits where
  bit := some
  ue := Element.encode
  se := Element.encode
  scaling_lists := fun flags => flags.flatMap fun b => [some b]

theorem taken_u {n : Nat} (k : BitVec n) : taken.u k = (fixed n k.toNat).map some := rfl

section
variable {A T : Type}

/-- A part behind its flag. -/
@[simps] def optional_coding (c : Coding (Option Bool) T A) : Coding (Option Bool) (Option T) (Option A) :=
  ⟨fun o => ∀ t ∈ o, c.Valid t, taken.optional c.encode, fun o => o.map c.value⟩

theorem reads_optional {buf : Bytes} {r : StateT Nat Option A} {c : Coding (Option Bool) T A}
    (h : BitReads buf r c) : BitReads buf (optional buf r) (optional_coding c) := by
  have hread : BitReads buf (optional buf r) _ :=
    (reads_flag buf).bind fun b _ => Reads.when (b.toNat ≠ 0) fun _ => h
  apply hread.of_surjective (fun o => (o.isSome, o))
  · intro o
    cases o <;> simp
  · rintro ⟨b, o⟩ ⟨-, hsome, -⟩
    refine ⟨o, ?_⟩
    cases b <;> cases o <;> simp_all
  · intro o
    cases o <;> rfl
  · intro o _
    rfl

end

section
variable (buf : Bytes)

theorem reads_chroma_loc :
    BitReads buf (decode_chroma_loc buf buf.length) ⟨fun _ => True, Sps.ChromaLoc.encode taken, fun _ => ()⟩ := by
  have hread : BitReads buf (decode_chroma_loc buf buf.length) _ :=
    (reads_Ue buf).bind fun _ _ => (reads_Ue buf).bind fun _ _ => Reads.pure ()
  apply hread.of_surjective (fun c => (c.chroma_sample_loc_type_top_field, c.chroma_sample_loc_type_bottom_field, ()))
  · intro c
    simp
  · rintro ⟨top, bottom, -⟩ -
    exact ⟨⟨top, bottom⟩, rfl⟩
  · intro c
    simp [Sps.ChromaLoc.encode]
  · intro c _
    rfl

theorem reads_cropping :
    BitReads buf (decode_cropping buf buf.length) ⟨fun _ => True, Sps.Cropping.encode taken, fun _ => ()⟩ := by
  have hread : BitReads buf (decode_cropping buf buf.length) _ :=
    (reads_Ue buf).bind fun _ _ => (reads_Ue buf).bind fun _ _ => (reads_Ue buf).bind fun _ _ =>
      (reads_Ue buf).bind fun _ _ => Reads.pure ()
  apply hread.of_surjective (fun c => (c.frame_crop_left_offset, c.frame_crop_right_offset,
    c.frame_crop_top_offset, c.frame_crop_bottom_offset, ()))
  · intro c
    simp
  · rintro ⟨left, right, top, bottom, -⟩ -
    exact ⟨⟨left, right, top, bottom⟩, rfl⟩
  · intro c
    simp [Sps.Cropping.encode]
  · intro c _
    rfl

theorem reads_sar : BitReads buf (decode_sar buf) ⟨fun _ => True, Sps.Sar.encode taken, fun _ => ()⟩ := by
  have hread : BitReads buf (decode_sar buf) _ :=
    (reads_u buf 16 (by decide)).bind fun _ _ => (reads_u buf 16 (by decide)).bind fun _ _ => Reads.pure ()
  apply hread.of_surjective (fun c => (c.sar_width, c.sar_height, ()))
  · intro c
    simp
  · rintro ⟨width, height, -⟩ -
    exact ⟨⟨width, height⟩, rfl⟩
  · intro c
    simp [Sps.Sar.encode, taken_u]
  · intro c _
    rfl

theorem reads_aspect_ratio :
    BitReads buf (decode_aspect_ratio buf)
      ⟨fun a => a.sar.isSome ↔ a.aspect_ratio_idc = 255, Sps.AspectRatio.encode taken, fun _ => ()⟩ := by
  have hread : BitReads buf (decode_aspect_ratio buf) _ :=
    (reads_u buf 8 (by decide)).bind fun idc _ => (Reads.when (idc.toNat = 255) fun _ => reads_sar buf).bind fun _ _ =>
      Reads.pure ()
  apply hread.of_surjective (fun a => (a.aspect_ratio_idc, a.sar, ()))
  · intro a
    simp [BitVec.toNat_eq]
  · rintro ⟨idc, sar, -⟩ -
    exact ⟨⟨idc, sar⟩, rfl⟩
  · intro a
    simp [Sps.AspectRatio.encode, Writing.present, taken_u]
  · intro a _
    rfl

theorem reads_colour_description :
    BitReads buf (decode_colour_description buf) ⟨fun _ => True, Sps.ColourDescription.encode taken, fun _ => ()⟩ := by
  have hread : BitReads buf (decode_colour_description buf) _ :=
    (reads_u buf 8 (by decide)).bind fun _ _ => (reads_u buf 8 (by decide)).bind fun _ _ =>
      (reads_u buf 8 (by decide)).bind fun _ _ => Reads.pure ()
  apply hread.of_surjective (fun c => (c.colour_primaries, c.transfer_characteristics, c.matrix_coefficients, ()))
  · intro c
    simp
  · rintro ⟨primaries, transfer, matrix, -⟩ -
    exact ⟨⟨primaries, transfer, matrix⟩, rfl⟩
  · intro c
    simp [Sps.ColourDescription.encode, taken_u]
  · intro c _
    rfl

theorem reads_video_signal_type :
    BitReads buf (decode_video_signal_type buf) ⟨fun _ => True, Sps.VideoSignalType.encode taken, fun _ => ()⟩ := by
  have hread : BitReads buf (decode_video_signal_type buf) _ :=
    (reads_u buf 3 (by decide)).bind fun _ _ => (reads_flag buf).bind fun _ _ =>
      (reads_optional (reads_colour_description buf)).bind fun _ _ => Reads.pure ()
  apply hread.of_surjective (fun v => (v.video_format, v.video_full_range_flag, v.colour_description, ()))
  · intro v
    simp
  · rintro ⟨format, range, colour, -⟩ -
    exact ⟨⟨format, range, colour⟩, rfl⟩
  · intro v
    simp [Sps.VideoSignalType.encode, taken_u]
  · intro v _
    rfl

/-- The divisor, computed as an `int`. -/
theorem divisor_eq_zero_iff {n : Nat} (h : n < 2 ^ 32) : int32 (2 * int32 n) = 0 ↔ n = 0 ∨ n = 2 ^ 31 := by
  rw [int32, int32, Int.bmod_def, Int.bmod_def]
  split_ifs <;> omega

/-- The timing information for which the division is defined. -/
structure Sps.Timing.Divides (t : Sps.Timing) : Prop where
  nonzero : t.num_units_in_tick.toNat ≠ 0
  half : t.num_units_in_tick.toNat ≠ 2 ^ 31

def Sps.Timing.fps (t : Sps.Timing) : Int :=
  (int32 t.time_scale.toNat).tdiv (int32 (2 * int32 t.num_units_in_tick.toNat))

theorem reads_timing :
    BitReads buf (decode_timing buf) ⟨Sps.Timing.Divides, Sps.Timing.encode taken, Sps.Timing.fps⟩ := by
  have hread : BitReads buf (decode_timing buf) _ :=
    (reads_u buf 32 (by decide)).bind fun n _ => (reads_u buf 32 (by decide)).bind fun t _ =>
      Reads.check (int32 (2 * int32 n.toNat) = 0) ((int32 t.toNat).tdiv (int32 (2 * int32 n.toNat)))
  apply hread.of_surjective (fun t => (t.num_units_in_tick, t.time_scale, ()))
  · intro t
    have hdivisor := divisor_eq_zero_iff t.num_units_in_tick.isLt
    simp only [Coding.bind_Valid, unsigned_Valid, Coding.check_Valid, hdivisor, true_and, not_or]
    exact ⟨fun h => ⟨h.nonzero, h.half⟩, fun h => ⟨h.1, h.2⟩⟩
  · rintro ⟨n, t, -⟩ -
    exact ⟨⟨n, t⟩, rfl⟩
  · intro t
    simp [Sps.Timing.encode, taken_u]
  · intro t _
    simp [Sps.Timing.fps]

theorem reads_vui :
    BitReads buf (decode_vui buf buf.length)
      ⟨fun v => v.Consistent ∧ ∀ t ∈ v.timing, t.Divides, Sps.Vui.encode taken,
        fun v => v.timing.map Sps.Timing.fps⟩ := by
  have hread : BitReads buf (decode_vui buf buf.length) _ :=
    (reads_optional (reads_aspect_ratio buf)).bind fun _ _ => (reads_optional (reads_flag buf)).bind fun _ _ =>
      (reads_optional (reads_video_signal_type buf)).bind fun _ _ =>
        (reads_optional (reads_chroma_loc buf)).bind fun _ _ => reads_optional (reads_timing buf)
  apply hread.of_surjective
    (fun v => (v.aspect_ratio, v.overscan_appropriate_flag, v.video_signal_type, v.chroma_loc, v.timing))
  · intro v
    simp only [Coding.bind_Valid, optional_coding_Valid, Coding.map_Valid, flag_Valid, implies_true, true_and]
    exact and_congr_left' ⟨fun h => h.sar, fun h => ⟨h⟩⟩
  · rintro ⟨aspect, overscan, video, chroma_loc, timing⟩ -
    exact ⟨⟨aspect, overscan, video, chroma_loc, timing⟩, rfl⟩
  · intro v
    simp [Sps.Vui.encode]
    rfl
  · intro v _
    simp

theorem int32_value (e : Element) : int32 e.value = e.value := by
  apply int32_of_lt
  cases e with
  | coded k =>
    have hk := k.isLt
    change (k : Nat) < _
    omega
  | missing => decide

theorem int32_value_eq_iff (e : Element) (n : Nat) : int32 e.value = n ↔ e.value = n := by
  rw [int32_value]
  exact Int.natCast_inj

theorem reads_chroma_format :
    BitReads buf (decode_chroma_format buf buf.length)
      ⟨fun c => c.Consistent Element.value ∧ ∀ l ∈ c.scaling_lists, l.length = 8, Sps.ChromaFormat.encode taken,
        fun _ => ()⟩ := by
  have hread : BitReads buf (decode_chroma_format buf buf.length) _ :=
    (reads_Ue buf).bind fun e _ => (Reads.when (int32 e.value = 3) fun _ => reads_flag buf).bind fun _ _ =>
      (reads_Ue buf).bind fun _ _ => (reads_Ue buf).bind fun _ _ => (reads_flag buf).bind fun _ _ =>
        (reads_optional (Reads.times 8 (reads_flag buf))).bind fun _ _ => Reads.pure ()
  apply hread.of_surjective (fun c => (c.chroma_format_idc, c.residual_colour_transform_flag, c.bit_depth_luma_minus8,
    c.bit_depth_chroma_minus8, c.qpprime_y_zero_transform_bypass_flag, c.scaling_lists, ()))
  · intro c
    have hidc := int32_value_eq_iff c.chroma_format_idc 3
    simp only [Nat.cast_ofNat] at hidc
    simp only [Coding.bind_Valid, Coding.when_Valid, optional_coding_Valid, Coding.times_Valid, Coding.map_Valid,
      Element.coding_Valid, flag_Valid, Coding.pure_Valid, hidc, implies_true, and_true, true_and]
    exact and_congr_left' ⟨fun h => h.residual, fun h => ⟨h⟩⟩
  · rintro ⟨idc, residual, luma, chroma, qpprime, lists, -⟩ -
    exact ⟨⟨idc, residual, luma, chroma, qpprime, lists⟩, rfl⟩
  · intro c
    simp [Sps.ChromaFormat.encode, Writing.present]
    rfl
  · intro c _
    rfl

theorem reads_new_array {A T : Type} {r : StateT Nat Option A} {c : Coding (Option Bool) T A} (e : Element)
    (h : BitReads buf r c) : BitReads buf (new_array (int32 e.value) r) (c.times e.value) := by
  rw [new_array, int32_value, if_neg (by omega), Int.toNat_natCast]
  exact Reads.times e.value h

theorem reads_order_cycle :
    BitReads buf (decode_order_cycle buf buf.length)
      ⟨fun c => c.offset_for_ref_frame.length = c.num_ref_frames_in_pic_order_cnt_cycle.value,
        Sps.OrderCycle.encode taken, fun _ => ()⟩ := by
  have hread : BitReads buf (decode_order_cycle buf buf.length) _ :=
    (reads_flag buf).bind fun _ _ => (reads_Se buf).bind fun _ _ => (reads_Se buf).bind fun _ _ =>
      (reads_Ue buf).bind fun e _ => (reads_new_array buf e (reads_Se buf)).bind fun _ _ => Reads.pure ()
  apply hread.of_surjective (fun c => (c.delta_pic_order_always_zero_flag, c.offset_for_non_ref_pic,
    c.offset_for_top_to_bottom_field, c.num_ref_frames_in_pic_order_cnt_cycle, c.offset_for_ref_frame, ()))
  · intro c
    simp
  · rintro ⟨delta, non_ref, top_bottom, num, offsets, -⟩ -
    exact ⟨⟨delta, non_ref, top_bottom, num, offsets⟩, rfl⟩
  · intro c
    simp [Sps.OrderCycle.encode]
    rfl
  · intro c _
    rfl

theorem reads_pic_order_cnt :
    BitReads buf (decode_pic_order_cnt buf buf.length)
      ⟨Sps.PicOrderCnt.Consistent Element.value, Sps.PicOrderCnt.encode taken, fun _ => ()⟩ := by
  have hread : BitReads buf (decode_pic_order_cnt buf buf.length) _ :=
    (reads_Ue buf).bind fun e _ => (Reads.when (int32 e.value = 0) fun _ => reads_Ue buf).bind fun _ _ =>
      (Reads.when (int32 e.value = 1) fun _ => reads_order_cycle buf).bind fun _ _ => Reads.pure ()
  apply hread.of_surjective (fun c => (c.pic_order_cnt_type, c.log2_max_pic_order_cnt_lsb_minus4, c.cycle, ()))
  · intro c
    have hlsb := int32_value_eq_iff c.pic_order_cnt_type 0
    have hcycle := int32_value_eq_iff c.pic_order_cnt_type 1
    simp only [Nat.cast_one, Nat.cast_zero] at hlsb hcycle
    simp only [Coding.bind_Valid, Coding.when_Valid, Element.coding_Valid, Coding.pure_Valid, hlsb,
      hcycle, implies_true, and_true, true_and]
    exact ⟨fun h => ⟨h.lsb, h.cycle, h.offsets⟩, fun h => ⟨h.1, h.2.1, h.2.2⟩⟩
  · rintro ⟨type, lsb, cycle, -⟩ -
    exact ⟨⟨type, lsb, cycle⟩, rfl⟩
  · intro c
    simp [Sps.PicOrderCnt.encode, Writing.present]
    rfl
  · intro c _
    rfl

/-- The sets whose codes are taken. -/
structure Sps.Readable (s : Sps Element Element Bits) : Prop where
  consistent : s.Consistent Element.value
  flags : ∀ c ∈ s.chroma_format, ∀ l ∈ c.scaling_lists, l.length = 8
  divides : ∀ v ∈ s.vui, ∀ t ∈ v.timing, t.Divides

/-- What the decoder makes of a set. -/
def Sps.size (out : VideoSize) (s : Sps Element Element Bits) : VideoSize where
  width := int32 ((s.frame.pic_width_in_mbs_minus1.value + 1) * 16)
  height := int32 ((s.frame.pic_height_in_map_units_minus1.value + 1) * 16)
  fps := ((s.vui.map fun v => v.timing.map Sps.Timing.fps).join).getD out.fps

theorem reads_profile :
    BitReads buf (decode_profile buf buf.length)
      ⟨fun _ => True, Sps.Profile.encode taken, fun p => p.profile_idc.toNat⟩ := by
  have hread : BitReads buf (decode_profile buf buf.length) _ :=
    (reads_u buf 8 (by decide)).bind fun profile _ => (reads_flag buf).bind fun _ _ => (reads_flag buf).bind fun _ _ =>
      (reads_flag buf).bind fun _ _ => (reads_flag buf).bind fun _ _ => (reads_u buf 4 (by decide)).bind fun _ _ =>
      (reads_u buf 8 (by decide)).bind fun _ _ => (reads_Ue buf).bind fun _ _ => Reads.pure profile.toNat
  apply hread.of_surjective (fun p => (p.profile_idc, p.constraint_set0_flag, p.constraint_set1_flag,
    p.constraint_set2_flag, p.constraint_set3_flag, p.reserved_zero_4bits, p.level_idc, p.seq_parameter_set_id, ()))
  · intro p
    simp
  · rintro ⟨profile, set0, set1, set2, set3, reserved, level, id, -⟩ -
    exact ⟨⟨profile, set0, set1, set2, set3, reserved, level, id⟩, rfl⟩
  · intro p
    simp [Sps.Profile.encode, taken_u]
  · intro p _
    rfl

theorem reads_frame :
    BitReads buf (decode_frame buf buf.length)
      ⟨Sps.Frame.Consistent, Sps.Frame.encode taken, fun f =>
        (int32 ((f.pic_width_in_mbs_minus1.value + 1) * 16),
          int32 ((f.pic_height_in_map_units_minus1.value + 1) * 16))⟩ := by
  have hread : BitReads buf (decode_frame buf buf.length) _ :=
    (reads_Ue buf).bind fun width _ => (reads_Ue buf).bind fun height _ => (reads_flag buf).bind fun mbs_only _ =>
      (Reads.when (mbs_only.toNat = 0) fun _ => reads_flag buf).bind fun _ _ => (reads_flag buf).bind fun _ _ =>
      (reads_optional (reads_cropping buf)).bind fun _ _ =>
      Reads.pure (int32 ((int32 width.value + 1) * 16), int32 ((int32 height.value + 1) * 16))
  apply hread.of_surjective (fun f => (f.pic_width_in_mbs_minus1, f.pic_height_in_map_units_minus1,
    f.frame_mbs_only_flag, f.mb_adaptive_frame_field_flag, f.direct_8x8_inference_flag, f.cropping, ()))
  · intro f
    simp only [Coding.bind_Valid, Coding.when_Valid, Coding.map_Valid, Element.coding_Valid, flag_Valid,
      optional_coding_Valid, Coding.pure_Valid, Bool.toNat_eq_zero, implies_true, and_true, true_and]
    exact ⟨fun h => h.mb_adaptive, fun h => ⟨h⟩⟩
  · rintro ⟨width, height, mbs_only, mb_adaptive, direct, cropping, -⟩ -
    exact ⟨⟨width, height, mbs_only, mb_adaptive, direct, cropping⟩, rfl⟩
  · intro f
    simp [Sps.Frame.encode, Writing.present]
    rfl
  · intro f _
    simp [int32_value]

theorem reads_sps (out : VideoSize) :
    BitReads buf (decode_sps buf buf.length out) ⟨Sps.Readable, Sps.encode taken, Sps.size out⟩ := by
  have hread : BitReads buf (decode_sps buf buf.length out) _ :=
    (reads_profile buf).bind fun profile _ =>
      (Reads.when (profile.profile_idc.toNat = 100 ∨ profile.profile_idc.toNat = 110 ∨ profile.profile_idc.toNat = 122 ∨
        profile.profile_idc.toNat = 144) fun _ => reads_chroma_format buf).bind fun _ _ =>
      (reads_Ue buf).bind fun _ _ => (reads_pic_order_cnt buf).bind fun _ _ => (reads_Ue buf).bind fun _ _ =>
      (reads_flag buf).bind fun _ _ => (reads_frame buf).bind fun frame _ =>
      (reads_optional (reads_vui buf)).bind fun vui _ =>
      Reads.pure (VideoSize.mk (int32 ((frame.pic_width_in_mbs_minus1.value + 1) * 16))
        (int32 ((frame.pic_height_in_map_units_minus1.value + 1) * 16))
        ((vui.map fun v => v.timing.map Sps.Timing.fps).join.getD out.fps))
  apply hread.of_surjective (fun s => (s.profile, s.chroma_format, s.log2_max_frame_num_minus4, s.pic_order_cnt,
    s.num_ref_frames, s.gaps_in_frame_num_value_allowed_flag, s.frame, s.vui, ()))
  · intro s
    have hprofile : s.profile.HasChromaFormat ↔ s.profile.profile_idc.toNat = 100 ∨ s.profile.profile_idc.toNat = 110 ∨
        s.profile.profile_idc.toNat = 122 ∨ s.profile.profile_idc.toNat = 144 := by
      simp [Sps.Profile.HasChromaFormat, BitVec.toNat_eq]
    simp only [Coding.bind_Valid, Coding.when_Valid, Coding.map_Valid, Element.coding_Valid, flag_Valid,
      optional_coding_Valid, Coding.pure_Valid, ← hprofile, and_true, true_and]
    constructor
    · rintro ⟨⟨hchroma, hformat, hcnt, hframe, hvui⟩, hflags, hdivides⟩
      exact ⟨⟨hchroma, fun c hc => ⟨hformat c hc, hflags c hc⟩⟩, hcnt, hframe, fun v hv => ⟨hvui v hv, hdivides v hv⟩⟩
    · rintro ⟨⟨hchroma, hformat⟩, hcnt, hframe, hvui⟩
      exact ⟨⟨hchroma, fun c hc => (hformat c hc).1, hcnt, hframe, fun v hv => (hvui v hv).1⟩,
        fun c hc => (hformat c hc).2, fun v hv => (hvui v hv).2⟩
  · rintro ⟨profile, chroma_format, log2, pic_order_cnt, num_ref_frames, gaps, frame, vui, -⟩ -
    exact ⟨⟨profile, chroma_format, log2, pic_order_cnt, num_ref_frames, gaps, frame, vui⟩, rfl⟩
  · intro s
    simp [Sps.encode, Writing.present]
  · intro s _
    rfl

/-! ## A unit -/

end

/-- What the decoder reads of a unit. -/
structure Nal where
  forbidden_zero_bit : Bool
  nal_ref_idc : BitVec 2
  nal_unit_type : BitVec 5
  sps : Option (Sps Element Element Bits)

namespace Nal

def encode (n : Nal) : List (Option Bool) :=
  [some n.forbidden_zero_bit] ++ taken.u n.nal_ref_idc ++ taken.u n.nal_unit_type ++
  Writing.present (Sps.encode taken) n.sps

/-- Only a sequence parameter set is read further. -/
structure Readable (n : Nal) : Prop where
  type : n.sps.isSome ↔ n.nal_unit_type = 7
  sps : ∀ s ∈ n.sps, s.Readable

def result (out : VideoSize) (n : Nal) : Bool × VideoSize :=
  (n.sps.map (Sps.size out)).elim (false, out) (true, ·)

end Nal

/-- The last part of `decode_nal`. -/
theorem decode_rest_eq (buf : Bytes) (size : Nat) (out : VideoSize) (nal_unit_type : Nat) :
    (if nal_unit_type = 7 then do
        let out ← decode_sps buf size out
        return (true, out)
      else return (false, out) : StateT Nat Option (Bool × VideoSize)) =
      (fun o => o.elim (false, out) (true, ·)) <$> when (nal_unit_type = 7) (decode_sps buf size out) := by
  unfold when
  by_cases htype : nal_unit_type = 7
  · rw [if_pos htype, if_pos htype, Functor.map_map]
    rfl
  · rw [if_neg htype, if_neg htype]
    rfl

theorem reads_nal (buf : Bytes) (out : VideoSize) :
    BitReads buf (decode_nal buf buf.length out) ⟨Nal.Readable, Nal.encode, Nal.result out⟩ := by
  have hrest (type : BitVec 5) := (Reads.when (type.toNat = 7) fun _ => reads_sps buf out).map
    (fun o => o.elim (false, out) (true, ·))
  simp only [← decode_rest_eq] at hrest
  have hread : BitReads buf (decode_nal buf buf.length out) _ :=
    (reads_flag buf).bind fun _ _ => (reads_u buf 2 (by decide)).bind fun _ _ =>
      (reads_u buf 5 (by decide)).bind fun type _ => hrest type
  apply hread.of_surjective (fun n => (n.forbidden_zero_bit, n.nal_ref_idc, n.nal_unit_type, n.sps))
  · intro n
    have htype : n.nal_unit_type = 7 ↔ n.nal_unit_type.toNat = 7 := by simp [BitVec.toNat_eq]
    simp only [Coding.bind_Valid, Coding.map_Valid, Coding.when_Valid, flag_Valid, unsigned_Valid, ← htype, true_and]
    exact ⟨fun h => ⟨h.type, h.sps⟩, fun h => ⟨h.1, h.2⟩⟩
  · rintro ⟨forbidden, ref, type, sps⟩ -
    exact ⟨⟨forbidden, ref, type, sps⟩, rfl⟩
  · intro n
    simp [Nal.encode, Writing.present, taken_u]
  · intro n _
    rfl

/-! ## Fewer bytes to read -/

section
variable (buf : Bytes) (k size : Nat)

theorem finds_optional {A : Type} {r r' : StateT Nat Option A} (h : Finds r r') :
    Finds (optional (buf.take k) r) (optional buf r') :=
  (finds_u buf k 1).bind fun present => h.when (present ≠ 0)

theorem finds_chroma_format : Finds (decode_chroma_format (buf.take k) size) (decode_chroma_format buf size) :=
  (finds_Ue buf k size).bind fun idc => ((finds_u buf k 1).when (int32 idc = 3)).bind fun _ =>
    (finds_Ue buf k size).bind fun _ => (finds_Ue buf k size).bind fun _ => (finds_u buf k 1).bind fun _ =>
      (finds_optional buf k ((finds_u buf k 1).times 8)).bind fun _ => .refl _

theorem finds_new_array {A : Type} {r r' : StateT Nat Option A} (length : Int) (h : Finds r r') :
    Finds (new_array length r) (new_array length r') := by
  unfold new_array
  by_cases hneg : length < 0
  · rw [if_pos hneg, if_pos hneg]
    exact .refl _
  · rw [if_neg hneg, if_neg hneg]
    exact h.times _

theorem finds_order_cycle : Finds (decode_order_cycle (buf.take k) size) (decode_order_cycle buf size) :=
  (finds_u buf k 1).bind fun _ => (finds_Se buf k size).bind fun _ => (finds_Se buf k size).bind fun _ =>
    (finds_Ue buf k size).bind fun num => (finds_new_array (int32 num) (finds_Se buf k size)).bind fun _ => .refl _

theorem finds_pic_order_cnt : Finds (decode_pic_order_cnt (buf.take k) size) (decode_pic_order_cnt buf size) :=
  (finds_Ue buf k size).bind fun type => ((finds_Ue buf k size).when (int32 type = 0)).bind fun _ =>
    ((finds_order_cycle buf k size).when (int32 type = 1)).bind fun _ => .refl _

theorem finds_cropping : Finds (decode_cropping (buf.take k) size) (decode_cropping buf size) :=
  (finds_Ue buf k size).bind fun _ => (finds_Ue buf k size).bind fun _ => (finds_Ue buf k size).bind fun _ =>
    (finds_Ue buf k size).bind fun _ => .refl _

theorem finds_sar : Finds (decode_sar (buf.take k)) (decode_sar buf) :=
  (finds_u buf k 16).bind fun _ => (finds_u buf k 16).bind fun _ => .refl _

theorem finds_aspect_ratio : Finds (decode_aspect_ratio (buf.take k)) (decode_aspect_ratio buf) :=
  (finds_u buf k 8).bind fun idc => ((finds_sar buf k).when (idc = 255)).bind fun _ => .refl _

theorem finds_colour_description : Finds (decode_colour_description (buf.take k)) (decode_colour_description buf) :=
  (finds_u buf k 8).bind fun _ => (finds_u buf k 8).bind fun _ => (finds_u buf k 8).bind fun _ => .refl _

theorem finds_video_signal_type : Finds (decode_video_signal_type (buf.take k)) (decode_video_signal_type buf) :=
  (finds_u buf k 3).bind fun _ => (finds_u buf k 1).bind fun _ =>
    (finds_optional buf k (finds_colour_description buf k)).bind fun _ => .refl _

theorem finds_chroma_loc : Finds (decode_chroma_loc (buf.take k) size) (decode_chroma_loc buf size) :=
  (finds_Ue buf k size).bind fun _ => (finds_Ue buf k size).bind fun _ => .refl _

theorem finds_timing : Finds (decode_timing (buf.take k)) (decode_timing buf) :=
  (finds_u buf k 32).bind fun _ => (finds_u buf k 32).bind fun _ => .refl _

theorem finds_vui : Finds (decode_vui (buf.take k) size) (decode_vui buf size) :=
  (finds_optional buf k (finds_aspect_ratio buf k)).bind fun _ => (finds_optional buf k (finds_u buf k 1)).bind fun _ =>
    (finds_optional buf k (finds_video_signal_type buf k)).bind fun _ =>
      (finds_optional buf k (finds_chroma_loc buf k size)).bind fun _ => finds_optional buf k (finds_timing buf k)

theorem finds_profile : Finds (decode_profile (buf.take k) size) (decode_profile buf size) :=
  (finds_u buf k 8).bind fun _ => (finds_u buf k 1).bind fun _ => (finds_u buf k 1).bind fun _ =>
    (finds_u buf k 1).bind fun _ => (finds_u buf k 1).bind fun _ => (finds_u buf k 4).bind fun _ =>
      (finds_u buf k 8).bind fun _ => (finds_Ue buf k size).bind fun _ => .refl _

theorem finds_frame : Finds (decode_frame (buf.take k) size) (decode_frame buf size) :=
  (finds_Ue buf k size).bind fun _ => (finds_Ue buf k size).bind fun _ => (finds_u buf k 1).bind fun mbs_only =>
    ((finds_u buf k 1).when (mbs_only = 0)).bind fun _ => (finds_u buf k 1).bind fun _ =>
      (finds_optional buf k (finds_cropping buf k size)).bind fun _ => .refl _

theorem finds_sps (out : VideoSize) : Finds (decode_sps (buf.take k) size out) (decode_sps buf size out) :=
  (finds_profile buf k size).bind fun idc =>
    ((finds_chroma_format buf k size).when (idc = 100 ∨ idc = 110 ∨ idc = 122 ∨ idc = 144)).bind fun _ =>
      (finds_Ue buf k size).bind fun _ => (finds_pic_order_cnt buf k size).bind fun _ =>
        (finds_Ue buf k size).bind fun _ => (finds_u buf k 1).bind fun _ => (finds_frame buf k size).bind fun _ =>
          (finds_optional buf k (finds_vui buf k size)).bind fun _ => .refl _

theorem finds_nal (out : VideoSize) : Finds (decode_nal (buf.take k) size out) (decode_nal buf size out) := by
  refine (finds_u buf k 1).bind fun _ => (finds_u buf k 2).bind fun _ => (finds_u buf k 5).bind fun type => ?_
  by_cases htype : type = 7
  · rw [if_pos htype, if_pos htype]
    exact (finds_sps buf k size out).bind fun _ => .refl _
  · rw [if_neg htype, if_neg htype]
    exact .refl _

end

/-! ## The whole call -/

/-- A call that reads inside the size that is left is the call. -/
theorem h264_decode_sps_of_within {data : Bytes} {size : Nat} {out : VideoSize} {r : Bool × VideoSize}
    (h : h264_decode_sps_within data size out = some r) : h264_decode_sps data size out = some r := by
  obtain ⟨⟨buf, left⟩, hprevention, hrest⟩ := Option.bind_eq_some_iff.1 h
  obtain ⟨x, hrun, hr⟩ := Option.bind_eq_some_iff.1 hrest
  have hwhole := finds_nal buf left left out 0 x hrun
  exact Option.bind_eq_some_iff.2 ⟨_, hprevention, Option.bind_eq_some_iff.2 ⟨x, hwhole, hr⟩⟩

theorem h264_decode_sps_within_eq (data : Bytes) (out : VideoSize) (hlen : 2 ≤ data.length) (hmax : data.length ≤ 2 ^ 31) :
    h264_decode_sps_within data data.length out = (decode_nal (strip data) (strip data).length out 0).map Prod.fst := by
  obtain ⟨buf, hrun, htake⟩ := de_emulation_prevention_eq data hlen hmax
  rw [h264_decode_sps_within, hrun, Option.bind_eq_bind, Option.bind_some]
  simp only [htake]
  cases decode_nal (strip data) (strip data).length out 0 <;> rfl

theorem h264_decode_sps_within_iff (data : Bytes) (out : VideoSize) (r : Bool × VideoSize) :
    h264_decode_sps_within data data.length out = some r ↔
      2 ≤ data.length ∧ data.length ≤ 2 ^ 31 ∧
        ∃ n : Nal, n.Readable ∧ Begins (seen (strip data)) 0 n.encode ∧ n.result out = r := by
  have hsize : (h264_decode_sps_within data data.length out).isSome → 2 ≤ data.length ∧ data.length ≤ 2 ^ 31 := by
    intro h
    apply (de_emulation_prevention_isSome data).1
    obtain ⟨r, hr⟩ := Option.isSome_iff_exists.1 h
    obtain ⟨left, hleft, -⟩ := Option.bind_eq_some_iff.1 hr
    rw [hleft]
    rfl
  have hnal := reads_nal (strip data) out 0
  constructor
  · intro hr
    obtain ⟨hlen, hmax⟩ := hsize (hr ▸ rfl)
    rw [h264_decode_sps_within_eq data out hlen hmax] at hr
    obtain ⟨⟨r', s⟩, hrun, rfl⟩ := Option.map_eq_some_iff.1 hr
    obtain ⟨n, hn, hcode, hvalue, -⟩ := (hnal r' s).1 hrun
    exact ⟨hlen, hmax, n, hn, hcode, hvalue⟩
  · rintro ⟨hlen, hmax, n, hn, hcode, rfl⟩
    rw [h264_decode_sps_within_eq data out hlen hmax]
    exact Option.map_eq_some_iff.2 ⟨_, (hnal _ _).2 ⟨n, hn, hcode, rfl, rfl⟩, rfl⟩

/-- All reads, shifts, lengths and divisors are as they should be just for such buffers. -/
theorem h264_decode_sps_safe_iff (data : Bytes) (out : VideoSize) :
    (h264_decode_sps_within data data.length out).isSome ↔
      2 ≤ data.length ∧ data.length ≤ 2 ^ 31 ∧
        ∃ n : Nal, n.Readable ∧ Begins (seen (strip data)) 0 n.encode := by
  rw [Option.isSome_iff_exists]
  constructor
  · rintro ⟨r, hr⟩
    obtain ⟨hlen, hmax, n, hn, hcode, -⟩ := (h264_decode_sps_within_iff data out r).1 hr
    exact ⟨hlen, hmax, n, hn, hcode⟩
  · rintro ⟨hlen, hmax, n, hn, hcode⟩
    exact ⟨n.result out, (h264_decode_sps_within_iff data out _).2 ⟨hlen, hmax, n, hn, hcode, rfl⟩⟩

/-- A unit that ends behind its profile. -/
theorem h264_decode_sps_truncated :
    ¬ ∀ (data : Bytes) (out : VideoSize), (h264_decode_sps_within data data.length out).isSome := by
  intro h
  have hrun := h [0x67, 0x42] ⟨0, 0, 0⟩
  rw [h264_decode_sps_within_eq _ _ (by decide) (by decide)] at hrun
  have hstrip : strip [0x67, 0x42] = [0x67, 0x42] := by simp [strip]
  rw [hstrip] at hrun
  revert hrun
  decide +kernel

end RtcClient
