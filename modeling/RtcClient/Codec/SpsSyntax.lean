import RtcClient.Lib.Bits
/-!
# The syntax of a sequence parameter set

The elements of `seq_parameter_set_data` in their order, down to the timing information.
How an element of variable length is written, and what a scaling matrix holds, is left
open: the decoder takes other codes than the standard gives.
-/

namespace RtcClient

open Lib

/-- How the parts of a set are written. -/
structure Writing (α E I S : Type) where
  bit : Bool → α
  ue : E → List α
  se : I → List α
  scaling_lists : S → List α

namespace Writing

variable {α E I S T : Type}

def u (w : Writing α E I S) {n : Nat} (k : BitVec n) : List α := (fixed n k.toNat).map w.bit

/-- A flag, and a part if it is set. -/
def optional (w : Writing α E I S) (write : T → List α) : Option T → List α
  | none => [w.bit false]
  | some t => w.bit true :: write t

/-- A part that is there or not, without a flag. -/
def present (write : T → List α) (o : Option T) : List α := o.elim [] write

end Writing

namespace Sps

/-- The elements of the profiles with a chroma format. -/
structure ChromaFormat (E S : Type) where
  chroma_format_idc : E
  residual_colour_transform_flag : Option Bool
  bit_depth_luma_minus8 : E
  bit_depth_chroma_minus8 : E
  qpprime_y_zero_transform_bypass_flag : Bool
  scaling_lists : Option S

structure OrderCycle (E I : Type) where
  delta_pic_order_always_zero_flag : Bool
  offset_for_non_ref_pic : I
  offset_for_top_to_bottom_field : I
  num_ref_frames_in_pic_order_cnt_cycle : E
  offset_for_ref_frame : List I

structure PicOrderCnt (E I : Type) where
  pic_order_cnt_type : E
  log2_max_pic_order_cnt_lsb_minus4 : Option E
  cycle : Option (OrderCycle E I)

structure Cropping (E : Type) where
  frame_crop_left_offset : E
  frame_crop_right_offset : E
  frame_crop_top_offset : E
  frame_crop_bottom_offset : E

structure Sar where
  sar_width : BitVec 16
  sar_height : BitVec 16

structure AspectRatio where
  aspect_ratio_idc : BitVec 8
  sar : Option Sar

structure ColourDescription where
  colour_primaries : BitVec 8
  transfer_characteristics : BitVec 8
  matrix_coefficients : BitVec 8

structure VideoSignalType where
  video_format : BitVec 3
  video_full_range_flag : Bool
  colour_description : Option ColourDescription

structure ChromaLoc (E : Type) where
  chroma_sample_loc_type_top_field : E
  chroma_sample_loc_type_bottom_field : E

structure Timing where
  num_units_in_tick : BitVec 32
  time_scale : BitVec 32

structure Vui (E : Type) where
  aspect_ratio : Option AspectRatio
  overscan_appropriate_flag : Option Bool
  video_signal_type : Option VideoSignalType
  chroma_loc : Option (ChromaLoc E)
  timing : Option Timing

structure Profile (E : Type) where
  profile_idc : BitVec 8
  constraint_set0_flag : Bool
  constraint_set1_flag : Bool
  constraint_set2_flag : Bool
  constraint_set3_flag : Bool
  reserved_zero_4bits : BitVec 4
  level_idc : BitVec 8
  seq_parameter_set_id : E

structure Frame (E : Type) where
  pic_width_in_mbs_minus1 : E
  pic_height_in_map_units_minus1 : E
  frame_mbs_only_flag : Bool
  mb_adaptive_frame_field_flag : Option Bool
  direct_8x8_inference_flag : Bool
  cropping : Option (Cropping E)

end Sps

structure Sps (E I S : Type) where
  profile : Sps.Profile E
  chroma_format : Option (Sps.ChromaFormat E S)
  log2_max_frame_num_minus4 : E
  pic_order_cnt : Sps.PicOrderCnt E I
  num_ref_frames : E
  gaps_in_frame_num_value_allowed_flag : Bool
  frame : Sps.Frame E
  vui : Option (Sps.Vui E)

namespace Sps

section
variable {α E I S : Type} (w : Writing α E I S)

def ChromaFormat.encode (c : ChromaFormat E S) : List α :=
  w.ue c.chroma_format_idc ++
  Writing.present (fun b => [w.bit b]) c.residual_colour_transform_flag ++
  w.ue c.bit_depth_luma_minus8 ++
  w.ue c.bit_depth_chroma_minus8 ++
  [w.bit c.qpprime_y_zero_transform_bypass_flag] ++
  w.optional w.scaling_lists c.scaling_lists

def OrderCycle.encode (c : OrderCycle E I) : List α :=
  [w.bit c.delta_pic_order_always_zero_flag] ++
  w.se c.offset_for_non_ref_pic ++
  w.se c.offset_for_top_to_bottom_field ++
  w.ue c.num_ref_frames_in_pic_order_cnt_cycle ++
  c.offset_for_ref_frame.flatMap w.se

def PicOrderCnt.encode (c : PicOrderCnt E I) : List α :=
  w.ue c.pic_order_cnt_type ++
  Writing.present w.ue c.log2_max_pic_order_cnt_lsb_minus4 ++
  Writing.present (OrderCycle.encode w) c.cycle

def Cropping.encode (c : Cropping E) : List α :=
  w.ue c.frame_crop_left_offset ++
  w.ue c.frame_crop_right_offset ++
  w.ue c.frame_crop_top_offset ++
  w.ue c.frame_crop_bottom_offset

def Sar.encode (s : Sar) : List α := w.u s.sar_width ++ w.u s.sar_height

def AspectRatio.encode (a : AspectRatio) : List α :=
  w.u a.aspect_ratio_idc ++ Writing.present (Sar.encode w) a.sar

def ColourDescription.encode (c : ColourDescription) : List α :=
  w.u c.colour_primaries ++ w.u c.transfer_characteristics ++ w.u c.matrix_coefficients

def VideoSignalType.encode (v : VideoSignalType) : List α :=
  w.u v.video_format ++
  [w.bit v.video_full_range_flag] ++
  w.optional (ColourDescription.encode w) v.colour_description

def ChromaLoc.encode (c : ChromaLoc E) : List α :=
  w.ue c.chroma_sample_loc_type_top_field ++ w.ue c.chroma_sample_loc_type_bottom_field

def Timing.encode (t : Timing) : List α := w.u t.num_units_in_tick ++ w.u t.time_scale

def Vui.encode (v : Vui E) : List α :=
  w.optional (AspectRatio.encode w) v.aspect_ratio ++
  w.optional (fun b => [w.bit b]) v.overscan_appropriate_flag ++
  w.optional (VideoSignalType.encode w) v.video_signal_type ++
  w.optional (ChromaLoc.encode w) v.chroma_loc ++
  w.optional (Timing.encode w) v.timing

def Profile.encode (p : Profile E) : List α :=
  w.u p.profile_idc ++
  [w.bit p.constraint_set0_flag] ++
  [w.bit p.constraint_set1_flag] ++
  [w.bit p.constraint_set2_flag] ++
  [w.bit p.constraint_set3_flag] ++
  w.u p.reserved_zero_4bits ++
  w.u p.level_idc ++
  w.ue p.seq_parameter_set_id

def Frame.encode (f : Frame E) : List α :=
  w.ue f.pic_width_in_mbs_minus1 ++
  w.ue f.pic_height_in_map_units_minus1 ++
  [w.bit f.frame_mbs_only_flag] ++
  Writing.present (fun b => [w.bit b]) f.mb_adaptive_frame_field_flag ++
  [w.bit f.direct_8x8_inference_flag] ++
  w.optional (Cropping.encode w) f.cropping

def encode (s : Sps E I S) : List α :=
  Profile.encode w s.profile ++
  Writing.present (ChromaFormat.encode w) s.chroma_format ++
  w.ue s.log2_max_frame_num_minus4 ++
  PicOrderCnt.encode w s.pic_order_cnt ++
  w.ue s.num_ref_frames ++
  [w.bit s.gaps_in_frame_num_value_allowed_flag] ++
  Frame.encode w s.frame ++
  w.optional (Vui.encode w) s.vui

end

/-! ## Which parts are there -/

section
variable {E I S : Type} (value : E → Nat)

structure ChromaFormat.Consistent (c : ChromaFormat E S) : Prop where
  residual : c.residual_colour_transform_flag.isSome ↔ value c.chroma_format_idc = 3

structure PicOrderCnt.Consistent (c : PicOrderCnt E I) : Prop where
  lsb : c.log2_max_pic_order_cnt_lsb_minus4.isSome ↔ value c.pic_order_cnt_type = 0
  cycle : c.cycle.isSome ↔ value c.pic_order_cnt_type = 1
  offsets : ∀ o ∈ c.cycle, o.offset_for_ref_frame.length = value o.num_ref_frames_in_pic_order_cnt_cycle

structure Vui.Consistent (v : Vui E) : Prop where
  sar : ∀ a ∈ v.aspect_ratio, a.sar.isSome ↔ a.aspect_ratio_idc = 255

structure Frame.Consistent (f : Frame E) : Prop where
  mb_adaptive : f.mb_adaptive_frame_field_flag.isSome ↔ f.frame_mbs_only_flag = false

/-- The profiles that the decoder takes for those with a chroma format. -/
def Profile.HasChromaFormat (p : Profile E) : Prop :=
  p.profile_idc = 100 ∨ p.profile_idc = 110 ∨ p.profile_idc = 122 ∨ p.profile_idc = 144

/-- The parts are there that the elements before them call for. -/
structure Consistent (s : Sps E I S) : Prop where
  profile : s.chroma_format.isSome ↔ s.profile.HasChromaFormat
  chroma_format : ∀ c ∈ s.chroma_format, c.Consistent value
  pic_order_cnt : s.pic_order_cnt.Consistent value
  frame : s.frame.Consistent
  vui : ∀ v ∈ s.vui, v.Consistent

end

end Sps

end RtcClient
