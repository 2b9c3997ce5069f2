import RtcClient.Codec.Sps
/-!
# The dimensions of a sequence parameter set

A set as the standard writes it, with its scaling lists, in a unit with emulation
prevention bytes. The decoder takes no account of cropping and of field pictures, and it
does not skip the contents of scaling lists: `sps_dimensions_iff` says when the sizes are
the standard's.
-/

namespace RtcClient

open Lib

/-! ## The standard's sets -/

/-- Eight scaling lists, each absent or given by its `delta_scale` elements. -/
abbrev ScalingLists := List (Option (List Int))

abbrev SeqParameterSet := Sps Nat Int ScalingLists

def standard : Writing Bool Nat Int ScalingLists where
  bit := id
  ue := ue
  se := se
  scaling_lists := fun lists => lists.flatMap fun list =>
    match list with
    | none => [false]
    | some deltas => true :: deltas.flatMap se

/-- The elements of a list of `left` more coefficients: after a scale of 0 none follow. -/
def DeltaScales : Nat → Int → List Int → Prop
  | 0, _, deltas => deltas = []
  | _ + 1, _, [] => False
  | left + 1, lastScale, delta :: deltas =>
    -128 ≤ delta ∧ delta ≤ 127 ∧
      if (lastScale + delta + 256) % 256 = 0 then deltas = []
      else DeltaScales left ((lastScale + delta + 256) % 256) deltas

/-- Six lists of 16 and two of 64 coefficients. -/
structure ScalingLists.Valid (lists : ScalingLists) : Prop where
  length : lists.length = 8
  deltas : ∀ i deltas, lists[i]? = some (some deltas) → DeltaScales (if i < 6 then 16 else 64) 8 deltas

namespace Sps

/-- 4:2:0. -/
structure ChromaFormat.Valid (c : ChromaFormat Nat ScalingLists) : Prop where
  chroma_format_idc : c.chroma_format_idc = 1
  bit_depth_luma : c.bit_depth_luma_minus8 ≤ 6
  bit_depth_chroma : c.bit_depth_chroma_minus8 ≤ 6
  scaling_lists : ∀ lists ∈ c.scaling_lists, lists.Valid

/-- The range of an offset. -/
def OffsetRange (v : Int) : Prop := -2 ^ 31 + 1 ≤ v ∧ v ≤ 2 ^ 31 - 1

structure OrderCycle.Valid (c : OrderCycle Nat Int) : Prop where
  non_ref : OffsetRange c.offset_for_non_ref_pic
  top_to_bottom : OffsetRange c.offset_for_top_to_bottom_field
  number : c.num_ref_frames_in_pic_order_cnt_cycle ≤ 255
  offsets : ∀ v ∈ c.offset_for_ref_frame, OffsetRange v

structure PicOrderCnt.Valid (c : PicOrderCnt Nat Int) : Prop where
  type : c.pic_order_cnt_type ≤ 2
  lsb : ∀ k ∈ c.log2_max_pic_order_cnt_lsb_minus4, k ≤ 12
  cycle : ∀ o ∈ c.cycle, o.Valid

namespace Frame

/-- The luma columns cropped, in units of two. -/
def cropped_columns (f : Frame Nat) : Nat :=
  f.cropping.elim 0 fun c => c.frame_crop_left_offset + c.frame_crop_right_offset

def cropped_rows (f : Frame Nat) : Nat :=
  f.cropping.elim 0 fun c => c.frame_crop_top_offset + c.frame_crop_bottom_offset

/-- `2 - frame_mbs_only_flag`. -/
def fields (f : Frame Nat) : Nat := 2 - f.frame_mbs_only_flag.toNat

def width (f : Frame Nat) : Int := 16 * (f.pic_width_in_mbs_minus1 + 1) - 2 * f.cropped_columns

def height (f : Frame Nat) : Int :=
  16 * f.fields * (f.pic_height_in_map_units_minus1 + 1) - 2 * f.fields * f.cropped_rows

/-- Sizes that fit an `int` (the levels allow far less), of which cropping leaves something. -/
structure Valid (f : Frame Nat) : Prop where
  columns : 16 * (f.pic_width_in_mbs_minus1 + 1) < 2 ^ 31
  rows : 16 * f.fields * (f.pic_height_in_map_units_minus1 + 1) < 2 ^ 31
  width : 0 < f.width
  height : 0 < f.height

end Frame

structure Vui.Valid (v : Vui Nat) : Prop where
  chroma_loc : ∀ c ∈ v.chroma_loc, c.chroma_sample_loc_type_top_field ≤ 5 ∧ c.chroma_sample_loc_type_bottom_field ≤ 5
  timing : ∀ t ∈ v.timing, t.num_units_in_tick ≠ 0 ∧ t.time_scale ≠ 0

/-- The ranges of the elements, for the profiles with 4:2:0 only. -/
structure Valid (s : SeqParameterSet) : Prop where
  consistent : s.Consistent id
  profile_idc : s.profile.profile_idc.toNat ∈ [66, 77, 88, 100, 110, 122]
  id : s.profile.seq_parameter_set_id ≤ 31
  chroma_format : ∀ c ∈ s.chroma_format, c.Valid
  log2_max_frame_num : s.log2_max_frame_num_minus4 ≤ 12
  pic_order_cnt : s.pic_order_cnt.Valid
  num_ref_frames : s.num_ref_frames ≤ 16
  frame : s.frame.Valid
  vui : ∀ v ∈ s.vui, v.Valid

end Sps

/-- The bits of a unit of type 7 down to the timing information. -/
def read_bits (nal_ref_idc : BitVec 2) (s : SeqParameterSet) : Bits :=
  [false] ++ standard.u nal_ref_idc ++ standard.u (7 : BitVec 5) ++ s.encode standard

/-- `vui_rest` are the elements behind the timing information. -/
def unit_bits (nal_ref_idc : BitVec 2) (s : SeqParameterSet) (vui_rest : Bits) : Bits :=
  read_bits nal_ref_idc s ++ vui_rest

/-- A one, and zeros up to the end of a byte. -/
def rbsp_trailing_bits (n : Nat) : Bits := true :: List.replicate (7 - n % 8) false

/-- The bytes of the unit before emulation prevention. -/
def raw_unit (nal_ref_idc : BitVec 2) (s : SeqParameterSet) (vui_rest : Bits) : Bytes :=
  let bits := unit_bits nal_ref_idc s vui_rest
  pack (bits ++ rbsp_trailing_bits bits.length)

def nal_unit (nal_ref_idc : BitVec 2) (s : SeqParameterSet) (vui_rest : Bits) : Bytes :=
  emulate 0 (raw_unit nal_ref_idc s vui_rest)

/-- The bytes of the unit in which the elements down to the timing information lie. -/
def read_part (nal_ref_idc : BitVec 2) (s : SeqParameterSet) (vui_rest : Bits) : Bytes :=
  emulate 0 ((raw_unit nal_ref_idc s vui_rest).take (((read_bits nal_ref_idc s).length + 7) / 8))

/-! ## What the decoder makes of a set -/

namespace Sps

/-- Both kinds of cropping are small. -/
theorem Frame.Valid.cropping {f : Frame Nat} (h : f.Valid) : f.cropped_columns < 2 ^ 30 ∧ f.cropped_rows < 2 ^ 30 := by
  obtain ⟨hcolumns, hrows, hwidth, hheight⟩ := h
  unfold Frame.width at hwidth
  unfold Frame.height Frame.fields at hheight
  unfold Frame.fields at hrows
  cases hmbs : f.frame_mbs_only_flag <;> rw [hmbs] at hrows hheight <;>
    simp only [Bool.toNat_false, Bool.toNat_true] at hrows hheight <;> omega

/-- The sizes are small. -/
theorem Frame.Valid.small {f : Frame Nat} (h : f.Valid) :
    f.pic_width_in_mbs_minus1 + 1 < 2 ^ 27 ∧ f.pic_height_in_map_units_minus1 + 1 < 2 ^ 27 := by
  have hcolumns := h.columns
  have hrows := h.rows
  unfold Frame.fields at hrows
  cases hmbs : f.frame_mbs_only_flag <;> rw [hmbs] at hrows <;>
    simp only [Bool.toNat_false, Bool.toNat_true] at hrows <;> omega

/-- The offsets whose codes the decoder can take. -/
structure OrderCycle.Short (c : OrderCycle Nat Int) : Prop where
  non_ref : ShortOffset c.offset_for_non_ref_pic
  top_to_bottom : ShortOffset c.offset_for_top_to_bottom_field
  offsets : ∀ v ∈ c.offset_for_ref_frame, ShortOffset v

/-- No element of the set makes the decoder shift too far or divide by zero. -/
structure Decodable (s : SeqParameterSet) : Prop where
  offsets : ∀ o ∈ s.pic_order_cnt.cycle, o.Short
  timing : ∀ v ∈ s.vui, ∀ t ∈ v.timing, t.num_units_in_tick.toNat ≠ 2 ^ 31

/-- The scaling lists are absent or have no contents. -/
def Listless (s : SeqParameterSet) : Prop :=
  ∀ c ∈ s.chroma_format, ∀ lists ∈ c.scaling_lists, ∀ list ∈ lists, list = none

/-- The size of the macroblocks, and the rate of the timing information. -/
def macroblocks (out : VideoSize) (s : SeqParameterSet) : VideoSize where
  width := 16 * (s.frame.pic_width_in_mbs_minus1 + 1)
  height := 16 * (s.frame.pic_height_in_map_units_minus1 + 1)
  fps := ((s.vui.map fun v => v.timing.map Timing.fps).join).getD out.fps

theorem u_map {n : Nat} (k : BitVec n) : (standard.u k).map some = taken.u k := by
  rw [Writing.u, List.map_map]
  rfl

theorem standard_u {n : Nat} (k : BitVec n) : standard.u k = fixed n k.toNat := List.map_id _

theorem AspectRatio.map_encode (a : AspectRatio) :
    (AspectRatio.encode standard a).map some = AspectRatio.encode taken a := by
  obtain ⟨idc, sar⟩ := a
  cases sar <;> simp [AspectRatio.encode, Writing.present, Sar.encode, u_map]

theorem VideoSignalType.map_encode (v : VideoSignalType) :
    (VideoSignalType.encode standard v).map some = VideoSignalType.encode taken v := by
  obtain ⟨format, range, colour⟩ := v
  cases colour <;> simp [VideoSignalType.encode, Writing.optional, ColourDescription.encode, u_map] <;> simp [standard]

theorem int32_nat_iff {k n : Nat} (h : k < 2 ^ 31) : int32 k = n ↔ k = n := by
  rw [int32_of_lt h]
  exact Int.natCast_inj

section
variable {buf : Bytes} {size limit : Nat} (hreach : InReach size limit)
include hreach

theorem takes_optional {A T : Type} {r : StateT Nat Option A} {o : Option T} {encode : T → Bits} {okay : T → Prop}
    {value : T → A} (h : ∀ t ∈ o, Takes (bit buf) limit r (encode t) (okay t) (value t)) :
    Takes (bit buf) limit (optional buf r) (standard.optional encode o) (∀ t ∈ o, okay t) (o.map value) := by
  have hread : Takes (bit buf) limit (optional buf r) _ _ _ :=
    (takes_flag hreach o.isSome).bind (Takes.when (o.isSome.toNat ≠ 0) (by cases o <;> simp) h)
  exact hread.congr (by cases o <;> rfl) (by simp)

theorem takes_profile {p : Profile Nat} (hp : p.seq_parameter_set_id ≤ 31) :
    Takes (bit buf) limit (decode_profile buf size) (p.encode standard) True p.profile_idc.toNat := by
  have hread : Takes (bit buf) limit (decode_profile buf size) _ _ _ :=
    (takes_u hreach (by decide) p.profile_idc).bind <| (takes_flag hreach p.constraint_set0_flag).bind <|
      (takes_flag hreach p.constraint_set1_flag).bind <| (takes_flag hreach p.constraint_set2_flag).bind <|
      (takes_flag hreach p.constraint_set3_flag).bind <| (takes_u hreach (by decide) p.reserved_zero_4bits).bind <|
      (takes_u hreach (by decide) p.level_idc).bind <|
      (takes_small_Ue hreach (Nat.lt_of_le_of_lt hp (by decide))).bind <| .pure p.profile_idc.toNat
  exact hread.congr (by simp [Profile.encode, standard_u]; simp [standard]) (by simp)

/-- The flags are read as they are, and nothing behind them. -/
theorem takes_scaling_lists {lists : ScalingLists} (hlists : lists.Valid) (hnone : ∀ list ∈ lists, list = none) :
    Takes (bit buf) limit (times 8 (u 1 buf)) (standard.scaling_lists lists) True (List.replicate 8 0) := by
  -- without contents the lists are eight flags, which is all that is read of them
  have hflags : lists = List.replicate 8 none := List.eq_replicate_iff.2 ⟨hlists.length, hnone⟩
  rw [hflags]
  exact (Takes.times (List.replicate 8 false) fun b _ => takes_flag hreach b).congr rfl (by simp)

theorem takes_chroma_format {c : ChromaFormat Nat ScalingLists} (hc : c.Valid) (hconsistent : c.Consistent id)
    (hnone : ∀ lists ∈ c.scaling_lists, ∀ list ∈ lists, list = none) :
    Takes (bit buf) limit (decode_chroma_format buf size) (c.encode standard) True () := by
  obtain ⟨hidc, hluma, hchroma, hlists⟩ := hc
  have hresidual : c.residual_colour_transform_flag.isSome ↔ int32 c.chroma_format_idc = (3 : Nat) := by
    rw [int32_nat_iff (by rw [hidc]; decide)]
    exact hconsistent.residual
  have hread : Takes (bit buf) limit (decode_chroma_format buf size) _ _ () :=
    (takes_small_Ue hreach (by rw [hidc]; decide)).bind <|
      (Takes.when _ hresidual fun b _ => takes_flag hreach b).bind <|
      (takes_small_Ue hreach (Nat.lt_of_le_of_lt hluma (by decide))).bind <|
      (takes_small_Ue hreach (Nat.lt_of_le_of_lt hchroma (by decide))).bind <|
      (takes_flag hreach c.qpprime_y_zero_transform_bypass_flag).bind <|
      (takes_optional hreach fun lists h => takes_scaling_lists hreach (hlists lists h) (hnone lists h)).bind <| .pure ()
  exact hread.congr (by simp [ChromaFormat.encode, standard, Writing.present]) (by simp)

theorem takes_new_array {ts : List Int} {k : Nat} (hlength : ts.length = k) (hk : k < 2 ^ 31) :
    Takes (bit buf) limit (new_array (int32 k) (Se buf size)) (ts.flatMap se) (∀ v ∈ ts, ShortOffset v)
      (ts.map fun v => Element.signed (code_num v)) := by
  rw [new_array, int32_of_lt hk, if_neg (by omega), Int.toNat_natCast, ← hlength]
  exact Takes.times ts fun v _ => takes_Se hreach v

theorem takes_order_cycle {c : OrderCycle Nat Int} (hc : c.Valid)
    (hlength : c.offset_for_ref_frame.length = c.num_ref_frames_in_pic_order_cnt_cycle) :
    Takes (bit buf) limit (decode_order_cycle buf size) (c.encode standard) c.Short () := by
  have hnumber := hc.number
  have hread : Takes (bit buf) limit (decode_order_cycle buf size) _ _ () :=
    (takes_flag hreach c.delta_pic_order_always_zero_flag).bind <| (takes_Se hreach c.offset_for_non_ref_pic).bind <|
      (takes_Se hreach c.offset_for_top_to_bottom_field).bind <|
      (takes_small_Ue hreach (Nat.lt_of_le_of_lt hnumber (by decide))).bind <|
      (takes_new_array hreach hlength (by omega)).bind <| .pure ()
  refine hread.congr (by simp [OrderCycle.encode, standard]) ?_
  constructor
  · rintro ⟨hnon_ref, htop_to_bottom, hoffsets⟩
    exact ⟨trivial, hnon_ref, htop_to_bottom, trivial, hoffsets, trivial⟩
  · rintro ⟨-, hnon_ref, htop_to_bottom, -, hoffsets, -⟩
    exact ⟨hnon_ref, htop_to_bottom, hoffsets⟩

theorem takes_pic_order_cnt {c : PicOrderCnt Nat Int} (hc : c.Valid) (hconsistent : c.Consistent id) :
    Takes (bit buf) limit (decode_pic_order_cnt buf size) (c.encode standard) (∀ o ∈ c.cycle, o.Short) () := by
  have htype : c.pic_order_cnt_type < 2 ^ 31 := Nat.lt_of_le_of_lt hc.type (by decide)
  have hlsb : c.log2_max_pic_order_cnt_lsb_minus4.isSome ↔ int32 c.pic_order_cnt_type = (0 : Nat) := by
    rw [int32_nat_iff htype]
    exact hconsistent.lsb
  have hcycle : c.cycle.isSome ↔ int32 c.pic_order_cnt_type = (1 : Nat) := by
    rw [int32_nat_iff htype]
    exact hconsistent.cycle
  have hread : Takes (bit buf) limit (decode_pic_order_cnt buf size) _ _ () :=
    (takes_small_Ue hreach (Nat.lt_of_le_of_lt hc.type (by decide))).bind <|
      (Takes.when _ hlsb fun k hk => takes_small_Ue hreach (Nat.lt_of_le_of_lt (hc.lsb k hk) (by decide))).bind <|
      (Takes.when _ hcycle fun o ho => takes_order_cycle hreach (hc.cycle o ho) (hconsistent.offsets o ho)).bind <|
      .pure ()
  exact hread.congr (by simp [PicOrderCnt.encode, standard, Writing.present]) (by simp)

theorem takes_cropping {f : Frame Nat} (hf : f.Valid) :
    ∀ c ∈ f.cropping, Takes (bit buf) limit (decode_cropping buf size) (c.encode standard) True () := by
  intro c hc
  obtain ⟨hcolumns, hrows⟩ := hf.cropping
  rw [Frame.cropped_columns, Option.mem_def.1 hc, Option.elim] at hcolumns
  rw [Frame.cropped_rows, Option.mem_def.1 hc, Option.elim] at hrows
  have hread : Takes (bit buf) limit (decode_cropping buf size) _ _ () :=
    (takes_small_Ue hreach (by omega : c.frame_crop_left_offset < 2 ^ 31 - 1)).bind <|
      (takes_small_Ue hreach (by omega : c.frame_crop_right_offset < 2 ^ 31 - 1)).bind <|
      (takes_small_Ue hreach (by omega : c.frame_crop_top_offset < 2 ^ 31 - 1)).bind <|
      (takes_small_Ue hreach (by omega : c.frame_crop_bottom_offset < 2 ^ 31 - 1)).bind <| .pure ()
  exact hread.congr (by simp [Cropping.encode, standard]) (by simp)

omit hreach in
theorem macroblocks_size {k : Nat} (h : k + 1 < 2 ^ 27) : int32 ((int32 k + 1) * 16) = 16 * (k + 1) := by
  have hsize : (((k : Int) + 1) * 16) = (16 * (k + 1) : Nat) := by
    push_cast
    ring
  have hfits : 16 * (k + 1) < 2 ^ 31 := by omega
  rw [int32_of_lt (by omega), hsize, int32_of_lt hfits]
  push_cast
  rfl

theorem takes_frame {f : Frame Nat} (hf : f.Valid) (hconsistent : f.Consistent) :
    Takes (bit buf) limit (decode_frame buf size) (f.encode standard) True
      (16 * (f.pic_width_in_mbs_minus1 + 1), 16 * (f.pic_height_in_map_units_minus1 + 1)) := by
  obtain ⟨hwidth, hheight⟩ := hf.small
  have hmb_adaptive : f.mb_adaptive_frame_field_flag.isSome ↔ f.frame_mbs_only_flag.toNat = 0 := by
    rw [hconsistent.mb_adaptive, Bool.toNat_eq_zero]
  have hread : Takes (bit buf) limit (decode_frame buf size) _ _ _ :=
    (takes_small_Ue hreach (by omega : f.pic_width_in_mbs_minus1 < 2 ^ 31 - 1)).bind <|
      (takes_small_Ue hreach (by omega : f.pic_height_in_map_units_minus1 < 2 ^ 31 - 1)).bind <|
      (takes_flag hreach f.frame_mbs_only_flag).bind <|
      (Takes.when _ hmb_adaptive fun b _ => takes_flag hreach b).bind <|
      (takes_flag hreach f.direct_8x8_inference_flag).bind <|
      (takes_optional hreach (takes_cropping hreach hf)).bind <| .pure _
  -- the sizes are those of the macroblocks, and cropping changes nothing in them
  rw [macroblocks_size hwidth, macroblocks_size hheight] at hread
  exact hread.congr (by simp [Frame.encode, standard, Writing.present]) (by simp)

theorem takes_chroma_loc {v : Vui Nat} (hv : v.Valid) :
    ∀ c ∈ v.chroma_loc, Takes (bit buf) limit (decode_chroma_loc buf size) (c.encode standard) True () := by
  intro c hc
  obtain ⟨htop, hbottom⟩ := hv.chroma_loc c hc
  have hread : Takes (bit buf) limit (decode_chroma_loc buf size) _ _ () :=
    (takes_small_Ue hreach (Nat.lt_of_le_of_lt htop (by decide))).bind <|
      (takes_small_Ue hreach (Nat.lt_of_le_of_lt hbottom (by decide))).bind <| .pure ()
  exact hread.congr (by simp [ChromaLoc.encode, standard]) (by simp)

/-- Twice 2^31 units in a tick are 0 in an `int`. -/
theorem takes_timing {t : Timing} (ht : t.num_units_in_tick ≠ 0) :
    Takes (bit buf) limit (decode_timing buf) (t.encode standard) (t.num_units_in_tick.toNat ≠ 2 ^ 31) t.fps := by
  have hnonzero : t.num_units_in_tick.toNat ≠ 0 := fun hzero => ht (BitVec.toNat_eq.2 hzero)
  have hread : Takes (bit buf) limit (decode_timing buf) _ _ t.fps :=
    (takes_u hreach (by decide) t.num_units_in_tick).bind <| (takes_u hreach (by decide) t.time_scale).bind <|
      Takes.check (int32 (2 * int32 t.num_units_in_tick.toNat) = 0) _
  refine hread.congr (by simp [Timing.encode, standard_u]) ?_
  rw [divisor_eq_zero_iff t.num_units_in_tick.isLt]
  simp [hnonzero]

theorem takes_vui {v : Vui Nat} (hv : v.Valid) (hconsistent : v.Consistent) :
    Takes (bit buf) limit (decode_vui buf size) (v.encode standard)
      (∀ t ∈ v.timing, t.num_units_in_tick.toNat ≠ 2 ^ 31) (v.timing.map Timing.fps) := by
  have hread : Takes (bit buf) limit (decode_vui buf size) _ _ _ :=
    (takes_optional hreach fun a ha =>
        (reads_aspect_ratio buf).takes hreach (hconsistent.sar a ha) (AspectRatio.map_encode a).symm).bind <|
      (takes_optional (o := v.overscan_appropriate_flag) hreach fun b _ => takes_flag hreach b).bind <|
      (takes_optional (o := v.video_signal_type) hreach fun t _ =>
        (reads_video_signal_type buf).takes hreach trivial (VideoSignalType.map_encode t).symm).bind <|
      (takes_optional hreach (takes_chroma_loc hreach hv)).bind <|
      takes_optional hreach fun t ht => takes_timing hreach (hv.timing t ht).1
  exact hread.congr (by simp [Vui.encode]; rfl) (by simp)

theorem takes_sps {s : SeqParameterSet} (hs : s.Valid) (hlistless : s.Listless) (out : VideoSize) :
    Takes (bit buf) limit (decode_sps buf size out) (s.encode standard) s.Decodable (s.macroblocks out) := by
  obtain ⟨hprofile, hchroma, hcnt, hframe, hvui⟩ := hs.consistent
  have hformat : s.chroma_format.isSome ↔ s.profile.profile_idc.toNat = 100 ∨ s.profile.profile_idc.toNat = 110 ∨
      s.profile.profile_idc.toNat = 122 ∨ s.profile.profile_idc.toNat = 144 := by
    rw [hprofile]
    simp [Profile.HasChromaFormat, BitVec.toNat_eq]
  have hread : Takes (bit buf) limit (decode_sps buf size out) _ _ (s.macroblocks out) :=
    (takes_profile hreach hs.id).bind <|
      (Takes.when _ hformat fun c hc =>
        takes_chroma_format hreach (hs.chroma_format c hc) (hchroma c hc) (hlistless c hc)).bind <|
      (takes_small_Ue hreach (Nat.lt_of_le_of_lt hs.log2_max_frame_num (by decide))).bind <|
      (takes_pic_order_cnt hreach hs.pic_order_cnt hcnt).bind <|
      (takes_small_Ue hreach (Nat.lt_of_le_of_lt hs.num_ref_frames (by decide))).bind <|
      (takes_flag hreach s.gaps_in_frame_num_value_allowed_flag).bind <|
      (takes_frame hreach hs.frame hframe).bind <|
      (takes_optional hreach fun v hv => takes_vui hreach (hs.vui v hv) (hvui v hv)).bind <| .pure _
  refine hread.congr (by simp [encode, standard, Writing.present]) ?_
  constructor
  · rintro ⟨hoffsets, htiming⟩
    simpa using ⟨hoffsets, htiming⟩
  · intro h
    simp only [true_and, and_true, implies_true] at h
    exact ⟨h.1, h.2⟩

theorem takes_nal {s : SeqParameterSet} (hs : s.Valid) (hlistless : s.Listless) (nal_ref_idc : BitVec 2)
    (out : VideoSize) :
    Takes (bit buf) limit (decode_nal buf size out) (read_bits nal_ref_idc s) s.Decodable
      (true, s.macroblocks out) := by
  have hread : Takes (bit buf) limit (decode_nal buf size out) _ _ _ :=
    (takes_flag hreach false).bind <| (takes_u hreach (by decide) nal_ref_idc).bind <|
      (takes_u hreach (by decide) (7 : BitVec 5)).bind <| (takes_sps hreach hs hlistless out).bind <| .pure _
  exact hread.congr (by simp [read_bits, standard_u]) (by simp)

end

end Sps

/-! ## The length of a set -/

namespace Sps

theorem standard_u_length {n : Nat} (k : BitVec n) : (standard.u k).length = n := by
  rw [standard_u, fixed_length]

theorem standard_ue_length {k : Nat} (h : k < 2 ^ 32 - 1) : (standard.ue k).length ≤ 63 := ue_length_le h

theorem standard_se_length {v : Int} (h : OffsetRange v) : (standard.se v).length ≤ 63 := by
  obtain ⟨hlow, hhigh⟩ := h
  apply ue_length_le
  unfold code_num
  split_ifs <;> omega

section
variable {T : Type} {write : T → Bits} {o : Option T} {n : Nat}

theorem present_length (h : ∀ t ∈ o, (write t).length ≤ n) : (Writing.present write o).length ≤ n := by
  cases o with
  | none => exact Nat.zero_le n
  | some t => exact h t rfl

theorem optional_length (h : ∀ t ∈ o, (write t).length ≤ n) : (standard.optional write o).length ≤ n + 1 := by
  cases o with
  | none => exact Nat.le_add_left 1 n
  | some t => exact Nat.succ_le_succ (h t rfl)

theorem flatMap_length {ts : List T} (h : ∀ t ∈ ts, (write t).length ≤ n) : (ts.flatMap write).length ≤ ts.length * n := by
  induction ts with
  | nil => exact Nat.zero_le _
  | cons t ts ih =>
    obtain ⟨ht, hts⟩ := List.forall_mem_cons.1 h
    have hrest := ih hts
    rw [List.flatMap_cons, List.length_append, List.length_cons, Nat.succ_mul]
    omega

end

theorem ChromaFormat.length_le {c : ChromaFormat Nat ScalingLists} (hc : c.Valid)
    (hnone : ∀ lists ∈ c.scaling_lists, ∀ list ∈ lists, list = none) : (c.encode standard).length ≤ 200 := by
  obtain ⟨hidc, hluma, hchroma, hlists⟩ := hc
  have hidc := standard_ue_length (k := c.chroma_format_idc) (by omega)
  have hluma := standard_ue_length (k := c.bit_depth_luma_minus8) (by omega)
  have hchroma := standard_ue_length (k := c.bit_depth_chroma_minus8) (by omega)
  have hresidual : (Writing.present (fun b => [standard.bit b]) c.residual_colour_transform_flag).length ≤ 1 :=
    present_length (fun _ _ => Nat.le_refl 1)
  have hmatrix : (standard.optional standard.scaling_lists c.scaling_lists).length ≤ 8 + 1 := by
    apply optional_length
    intro lists h
    have hflags : lists = List.replicate 8 none := List.eq_replicate_iff.2 ⟨(hlists lists h).length, hnone lists h⟩
    rw [hflags]
    exact Nat.le_refl 8
  simp only [ChromaFormat.encode, List.length_append, List.length_singleton]
  omega

theorem OrderCycle.length_le {c : OrderCycle Nat Int} (hc : c.Valid)
    (hlength : c.offset_for_ref_frame.length = c.num_ref_frames_in_pic_order_cnt_cycle) :
    (c.encode standard).length ≤ 17000 := by
  obtain ⟨hnon_ref, htop_to_bottom, hnumber, hoffsets⟩ := hc
  have hnon_ref := standard_se_length hnon_ref
  have htop_to_bottom := standard_se_length htop_to_bottom
  have hnum := standard_ue_length (k := c.num_ref_frames_in_pic_order_cnt_cycle) (by omega)
  have hsum : (c.offset_for_ref_frame.flatMap standard.se).length ≤ c.offset_for_ref_frame.length * 63 :=
    flatMap_length (fun v hv => standard_se_length (hoffsets v hv))
  simp only [OrderCycle.encode, List.length_append, List.length_singleton]
  omega

theorem PicOrderCnt.length_le {c : PicOrderCnt Nat Int} (hc : c.Valid) (hconsistent : c.Consistent id) :
    (c.encode standard).length ≤ 18000 := by
  obtain ⟨htype, hlsb, hcycle⟩ := hc
  have htype := standard_ue_length (k := c.pic_order_cnt_type) (by omega)
  have hlsb : (Writing.present standard.ue c.log2_max_pic_order_cnt_lsb_minus4).length ≤ 63 :=
    present_length (fun k hk => standard_ue_length (Nat.lt_of_le_of_lt (hlsb k hk) (by decide)))
  have hcycle : (Writing.present (OrderCycle.encode standard) c.cycle).length ≤ 17000 :=
    present_length (fun o ho => OrderCycle.length_le (hcycle o ho) (hconsistent.offsets o ho))
  simp only [PicOrderCnt.encode, List.length_append]
  omega

theorem Cropping.length_le {f : Frame Nat} (hf : f.Valid) :
    ∀ c ∈ f.cropping, (Cropping.encode standard c).length ≤ 252 := by
  intro c hc
  obtain ⟨hcolumns, hrows⟩ := hf.cropping
  rw [Frame.cropped_columns, Option.mem_def.1 hc, Option.elim] at hcolumns
  rw [Frame.cropped_rows, Option.mem_def.1 hc, Option.elim] at hrows
  have hleft := standard_ue_length (k := c.frame_crop_left_offset) (by omega)
  have hright := standard_ue_length (k := c.frame_crop_right_offset) (by omega)
  have htop := standard_ue_length (k := c.frame_crop_top_offset) (by omega)
  have hbottom := standard_ue_length (k := c.frame_crop_bottom_offset) (by omega)
  simp only [Cropping.encode, List.length_append]
  omega

theorem Frame.length_le {f : Frame Nat} (hf : f.Valid) : (f.encode standard).length ≤ 400 := by
  obtain ⟨hwidth, hheight⟩ := hf.small
  have hwidth := standard_ue_length (k := f.pic_width_in_mbs_minus1) (by omega)
  have hheight := standard_ue_length (k := f.pic_height_in_map_units_minus1) (by omega)
  have hmb_adaptive : (Writing.present (fun b => [standard.bit b]) f.mb_adaptive_frame_field_flag).length ≤ 1 :=
    present_length (fun _ _ => Nat.le_refl 1)
  have hcropping := optional_length (Cropping.length_le hf)
  simp only [Frame.encode, List.length_append, List.length_singleton]
  omega

theorem AspectRatio.length_le (a : AspectRatio) : (AspectRatio.encode standard a).length ≤ 40 := by
  have hsar : (Writing.present (Sar.encode standard) a.sar).length ≤ 32 :=
    present_length (fun t _ => by simp only [Sar.encode, List.length_append, standard_u_length]; omega)
  simp only [AspectRatio.encode, List.length_append, standard_u_length]
  omega

theorem VideoSignalType.length_le (v : VideoSignalType) : (VideoSignalType.encode standard v).length ≤ 29 := by
  have hcolour : (standard.optional (ColourDescription.encode standard) v.colour_description).length ≤ 24 + 1 :=
    optional_length (fun t _ => by simp only [ColourDescription.encode, List.length_append, standard_u_length]; omega)
  simp only [VideoSignalType.encode, List.length_append, standard_u_length, List.length_singleton]
  omega

theorem Vui.length_le {v : Vui Nat} (hv : v.Valid) : (v.encode standard).length ≤ 300 := by
  have haspect := optional_length (o := v.aspect_ratio) (fun a _ => AspectRatio.length_le a)
  have hoverscan : (standard.optional (fun b => [standard.bit b]) v.overscan_appropriate_flag).length ≤ 1 + 1 :=
    optional_length (fun _ _ => Nat.le_refl 1)
  have hvideo := optional_length (o := v.video_signal_type) (fun t _ => VideoSignalType.length_le t)
  have hloc : (standard.optional (ChromaLoc.encode standard) v.chroma_loc).length ≤ 126 + 1 := by
    apply optional_length
    intro c hc
    obtain ⟨htop, hbottom⟩ := hv.chroma_loc c hc
    have htop := standard_ue_length (k := c.chroma_sample_loc_type_top_field) (by omega)
    have hbottom := standard_ue_length (k := c.chroma_sample_loc_type_bottom_field) (by omega)
    simp only [ChromaLoc.encode, List.length_append]
    omega
  have htiming : (standard.optional (Timing.encode standard) v.timing).length ≤ 64 + 1 :=
    optional_length (fun t _ => by simp only [Timing.encode, List.length_append, standard_u_length]; omega)
  simp only [Vui.encode, List.length_append]
  omega

theorem read_bits_length {s : SeqParameterSet} (hs : s.Valid) (hlistless : s.Listless) (nal_ref_idc : BitVec 2) :
    (read_bits nal_ref_idc s).length < 2 ^ 32 := by
  obtain ⟨-, hchroma, hcnt, -, -⟩ := hs.consistent
  have hid := standard_ue_length (k := s.profile.seq_parameter_set_id) (Nat.lt_of_le_of_lt hs.id (by decide))
  have hformat : (Writing.present (ChromaFormat.encode standard) s.chroma_format).length ≤ 200 :=
    present_length (fun c hc => ChromaFormat.length_le (hs.chroma_format c hc) (hlistless c hc))
  have hlog2 := standard_ue_length (Nat.lt_of_le_of_lt hs.log2_max_frame_num (by decide))
  have horder := PicOrderCnt.length_le hs.pic_order_cnt hcnt
  have hnum := standard_ue_length (Nat.lt_of_le_of_lt hs.num_ref_frames (by decide))
  have hframe := Frame.length_le hs.frame
  have hvui : (standard.optional (Vui.encode standard) s.vui).length ≤ 300 + 1 :=
    optional_length (fun v hv => Vui.length_le (hs.vui v hv))
  simp only [read_bits, Sps.encode, Profile.encode, List.length_append, List.length_singleton, standard_u_length]
  omega

end Sps

/-! ## The unit -/

theorem dvd_unit_length (bits : Bits) : 8 ∣ (bits ++ rbsp_trailing_bits bits.length).length := by
  rw [List.length_append, rbsp_trailing_bits, List.length_cons, List.length_replicate]
  omega

theorem sixteen_le_read_bits (nal_ref_idc : BitVec 2) (s : SeqParameterSet) : 16 ≤ (read_bits nal_ref_idc s).length := by
  simp only [read_bits, Sps.encode, Sps.Profile.encode, Sps.standard_u_length, List.length_append, List.length_singleton]
  omega

/-- The bytes with the bits that are read, and these bits in it. -/
theorem begins_raw_unit (nal_ref_idc : BitVec 2) (s : SeqParameterSet) (vui_rest : Bits) :
    ((read_bits nal_ref_idc s).length + 7) / 8 ≤ (raw_unit nal_ref_idc s vui_rest).length ∧
      Begins (bit (raw_unit nal_ref_idc s vui_rest)) 0 ((read_bits nal_ref_idc s).map some) := by
  have hdvd := dvd_unit_length (unit_bits nal_ref_idc s vui_rest)
  have hlen := pack_length hdvd
  have hprefix : read_bits nal_ref_idc s <+:
      unit_bits nal_ref_idc s vui_rest ++ rbsp_trailing_bits (unit_bits nal_ref_idc s vui_rest).length := by
    rw [unit_bits, List.append_assoc]
    exact List.prefix_append _ _
  have hle := hprefix.length_le
  rw [raw_unit]
  refine ⟨by omega, ?_⟩
  intro i hi
  rw [List.length_map] at hi
  rw [Nat.zero_add, bit_pack hdvd, List.getElem_map, hprefix.getElem hi]
  exact List.getElem?_eq_getElem (by omega)

/-- The decoder reads every element where the set has it: no list contents lie between them, and the removal of
emulation prevention bytes gives them back. -/
structure InPlace (nal_ref_idc : BitVec 2) (s : SeqParameterSet) (vui_rest : Bits) : Prop where
  listless : s.Listless
  clean : ¬ clash <:+: read_part nal_ref_idc s vui_rest

section
variable {s : SeqParameterSet} {nal_ref_idc : BitVec 2} {vui_rest : Bits}

/-- What is left of the unit begins with the bytes whose bits are read. -/
theorem InPlace.begins {buf : Bytes} {size : Nat} (h : InPlace nal_ref_idc s vui_rest)
    (hbuf : buf.take size = strip (nal_unit nal_ref_idc s vui_rest))
    (hsize : (strip (nal_unit nal_ref_idc s vui_rest)).length = size) :
    (read_bits nal_ref_idc s).length ≤ size * 8 ∧ Begins (bit buf) 0 ((read_bits nal_ref_idc s).map some) := by
  obtain ⟨hle, hbegins⟩ := begins_raw_unit nal_ref_idc s vui_rest
  have hleft := strip_emulate_take h.clean
  have hraw := List.take_prefix (((read_bits nal_ref_idc s).length + 7) / 8) (raw_unit nal_ref_idc s vui_rest)
  have hlength := hleft.length_le
  -- the bytes of the elements begin what is left, and what is left begins the buffer
  have hbytes : (raw_unit nal_ref_idc s vui_rest).take (((read_bits nal_ref_idc s).length + 7) / 8) <+: buf := by
    rw [← nal_unit, ← hbuf] at hleft
    exact hleft.trans (List.take_prefix size buf)
  rw [List.length_take, Nat.min_eq_left hle, ← nal_unit, hsize] at hlength
  refine ⟨by omega, ?_⟩
  intro i hi
  have hi' := hi
  rw [List.length_map] at hi'
  rw [← hbegins i hi, Nat.zero_add, bit_prefix hbytes, bit_prefix hraw]
  all_goals
    rw [List.length_take, Nat.min_eq_left hle]
    omega

end

/-! ## The sizes -/

/-- The call gives the standard's sizes. -/
def DecodesTo (data : Bytes) (out : VideoSize) (width height : Int) : Prop :=
  ∃ out', h264_decode_sps data data.length out = some (true, out') ∧ out'.width = width ∧ out'.height = height

/-- Cropping takes nothing away, or from a field picture just what the second field adds. -/
structure Sps.Frame.Uncropped (f : Sps.Frame Nat) : Prop where
  columns : f.cropped_columns = 0
  rows : f.cropped_rows = if f.frame_mbs_only_flag then 0 else 4 * (f.pic_height_in_map_units_minus1 + 1)

theorem Sps.Frame.uncropped_iff (f : Sps.Frame Nat) :
    f.Uncropped ↔ 16 * (f.pic_width_in_mbs_minus1 + 1 : Int) = f.width ∧
      16 * (f.pic_height_in_map_units_minus1 + 1 : Int) = f.height := by
  rw [width, height, fields]
  constructor
  · rintro ⟨hcolumns, hrows⟩
    cases hmbs : f.frame_mbs_only_flag <;> simp only [hmbs, if_true, if_false, Bool.false_eq_true] at hrows <;>
      simp only [Bool.toNat_false, Bool.toNat_true] <;> omega
  · rintro ⟨hwidth, hheight⟩
    refine ⟨by omega, ?_⟩
    cases hmbs : f.frame_mbs_only_flag <;> rw [hmbs] at hheight <;>
      simp only [Bool.toNat_false, Bool.toNat_true] at hheight <;> simp <;> omega

theorem two_le_nal_unit (nal_ref_idc : BitVec 2) (s : SeqParameterSet) (vui_rest : Bits) :
    2 ≤ (nal_unit nal_ref_idc s vui_rest).length := by
  have hbits := sixteen_le_read_bits nal_ref_idc s
  have hraw := (begins_raw_unit nal_ref_idc s vui_rest).1
  have hemulate := emulate_length_le 0 (raw_unit nal_ref_idc s vui_rest)
  rw [nal_unit]
  omega

/-- A unit whose elements are read in their places gives the macroblock sizes, or the call fails. -/
theorem decoded_in_place {s : SeqParameterSet} (hs : s.Valid) {nal_ref_idc : BitVec 2} {vui_rest : Bits}
    (hplace : InPlace nal_ref_idc s vui_rest) (hmax : (nal_unit nal_ref_idc s vui_rest).length ≤ 2 ^ 31)
    (out : VideoSize) :
    (s.Decodable → h264_decode_sps (nal_unit nal_ref_idc s vui_rest) (nal_unit nal_ref_idc s vui_rest).length out =
        some (true, s.macroblocks out)) ∧
      (¬ s.Decodable →
        h264_decode_sps (nal_unit nal_ref_idc s vui_rest) (nal_unit nal_ref_idc s vui_rest).length out = none) := by
  obtain ⟨buf, hrun, htake⟩ := de_emulation_prevention_eq _ (two_le_nal_unit nal_ref_idc s vui_rest) hmax
  obtain ⟨hinside, hbegins⟩ := hplace.begins htake rfl
  have hreach := InReach.mk hinside (Sps.read_bits_length hs hplace.listless nal_ref_idc)
  obtain ⟨hok, hfail⟩ := Sps.takes_nal hreach hs hplace.listless nal_ref_idc out 0 hbegins (Nat.zero_add _).le
  rw [h264_decode_sps, hrun, Option.bind_eq_bind, Option.bind_some]
  constructor
  · intro hdecodable
    simp only [hok hdecodable]
    rfl
  · intro hdecodable
    simp only [hfail hdecodable]
    rfl

/-- Of a unit whose elements are read in their places the decoder gives the standard's sizes just if the unit is not
too long, no element makes it fail, and nothing is cropped. -/
theorem sps_dimensions_iff (s : SeqParameterSet) (hs : s.Valid) (nal_ref_idc : BitVec 2) (vui_rest : Bits)
    (hplace : InPlace nal_ref_idc s vui_rest) (out : VideoSize) :
    DecodesTo (nal_unit nal_ref_idc s vui_rest) out s.frame.width s.frame.height ↔
      (nal_unit nal_ref_idc s vui_rest).length ≤ 2 ^ 31 ∧ s.Decodable ∧ s.frame.Uncropped := by
  rw [Sps.Frame.uncropped_iff]
  by_cases hmax : (nal_unit nal_ref_idc s vui_rest).length ≤ 2 ^ 31
  · obtain ⟨hok, hfail⟩ := decoded_in_place hs hplace hmax out
    constructor
    · rintro ⟨out', hout, hwidth, hheight⟩
      by_cases hdecodable : s.Decodable
      · obtain rfl := congrArg Prod.snd (Option.some.inj ((hok hdecodable).symm.trans hout))
        exact ⟨hmax, hdecodable, hwidth, hheight⟩
      · cases (hfail hdecodable).symm.trans hout
    · rintro ⟨-, hdecodable, hwidth, hheight⟩
      exact ⟨_, hok hdecodable, hwidth, hheight⟩
  · -- the index of the removal does not fit its type
    refine iff_of_false ?_ (fun h => hmax h.1)
    rintro ⟨out', hout, -⟩
    rw [h264_decode_sps, de_emulation_prevention_large (Nat.lt_of_not_le hmax)] at hout
    cases hout

/-- 1920 x 1080 as 120 x 68 macroblocks of which 8 rows are cropped. -/
def full_hd : SeqParameterSet where
  profile := ⟨66, true, true, false, false, 0, 40, 0⟩
  chroma_format := none
  log2_max_frame_num_minus4 := 0
  pic_order_cnt := ⟨2, none, none⟩
  num_ref_frames := 1
  gaps_in_frame_num_value_allowed_flag := false
  frame := ⟨119, 67, true, none, true, some ⟨0, 0, 0, 4⟩⟩
  vui := none

theorem full_hd_valid : full_hd.Valid where
  consistent :=
    { profile := by simp [full_hd, Sps.Profile.HasChromaFormat]
      chroma_format := (fun c hc => nomatch hc)
      pic_order_cnt := ⟨by decide, by decide, (fun o ho => nomatch ho)⟩
      frame := ⟨by decide⟩
      vui := (fun v hv => nomatch hv) }
  profile_idc := by decide
  id := by decide
  chroma_format := (fun c hc => nomatch hc)
  log2_max_frame_num := by decide
  pic_order_cnt := ⟨by decide, (fun k hk => nomatch hk), (fun o ho => nomatch ho)⟩
  num_ref_frames := by decide
  frame := ⟨by decide, by decide, by decide, by decide⟩
  vui := (fun v hv => nomatch hv)

theorem full_hd_in_place : InPlace 3 full_hd [] := by
  refine ⟨(fun c hc => nomatch hc), ?_⟩
  have hpart : read_part 3 full_hd [] = [0x67, 0x42, 0xC0, 0x28, 0xDA, 0x01, 0xE0, 0x08, 0x9F, 0x95] := by
    decide +kernel
  rw [hpart]
  decide

theorem sps_dimensions_iff_full_hd :
    DecodesTo (nal_unit 3 full_hd []) ⟨0, 0, 0⟩ full_hd.frame.width full_hd.frame.height ↔
      (nal_unit 3 full_hd []).length ≤ 2 ^ 31 ∧ full_hd.Decodable ∧ full_hd.frame.Uncropped :=
  sps_dimensions_iff full_hd full_hd_valid 3 [] full_hd_in_place ⟨0, 0, 0⟩

/-- The height of full HD comes out as 1088. -/
theorem sps_dimensions_uncropped :
    ¬ ∀ s : SeqParameterSet, s.Valid → ∀ (nal_ref_idc : BitVec 2) (vui_rest : Bits) (out : VideoSize),
      DecodesTo (nal_unit nal_ref_idc s vui_rest) out s.frame.width s.frame.height := by
  intro h
  have hmax : (nal_unit 3 full_hd []).length ≤ 2 ^ 31 := by
    have hunit : nal_unit 3 full_hd [] = [0x67, 0x42, 0xC0, 0x28, 0xDA, 0x01, 0xE0, 0x08, 0x9F, 0x95] := by
      decide +kernel
    rw [hunit]
    decide
  have hdecodable : full_hd.Decodable := ⟨(fun o ho => nomatch ho), (fun v hv => nomatch hv)⟩
  obtain ⟨out', hout, -, hheight⟩ := h full_hd full_hd_valid 3 [] ⟨0, 0, 0⟩
  rw [(decoded_in_place full_hd_valid full_hd_in_place hmax _).1 hdecodable] at hout
  obtain rfl := congrArg Prod.snd (Option.some.inj hout)
  exact absurd hheight (by decide)

end RtcClient
