import RtcClient.App.Senders
import RtcClient.Lib.Runs
/-!
# Media after joining

Two questions about every run of calls and messages: can the room send media while
it is in a conference, and does the media go to that conference only? Both fail, one
after a conference was left, the other when a second response arrives. The theorems
say exactly in which runs they hold. They are proved on `Senders` and carried over by
`senders_step`.
-/

namespace RtcClient

open Lib

/-! ## What holds of the senders in every run -/

/-- Data given to the session reaches a transmitter with somewhere to send it. -/
def Session.Ready (s : Session) : Prop :=
  s.initialized = true ∧ s.ssrc.isSome = true ∧ ∃ ds, s.destinations = some ds ∧ ds ≠ []

theorem Session.Ready.add {s : Session} (h : s.Ready) (addr : IPAddrV4) : (s.add addr).Ready := by
  obtain ⟨hi, hs, ds, hd, hne⟩ := h
  simp [Session.add, Session.Ready, hi, hs, hd]

/-- A session that can be started starts without destinations. -/
theorem Session.start_new {s : Session} (h : s.initialized = false) (ssrc : UInt32) (ok : Bool) :
    s.start ssrc ok = if ok then (⟨true, some ssrc, some []⟩, true) else ({}, false) := by
  simp [Session.start, h]

theorem Session.start_old {s : Session} (h : s.initialized = true) (ssrc : UInt32) (ok : Bool) :
    s.start ssrc ok = (s, true) := by
  simp [Session.start, h]

/-- The session sends to the target only, under its SSRC. -/
def Session.SendsTo (s : Session) (t : Target) : Prop := s.ssrc = some t.ssrc ∧ s.destinations = some [t.addr]

namespace Senders

def Ready (s : Senders) : Prop := ∃ a v, s.audio = some a ∧ s.video = some v ∧ a.Ready ∧ v.Ready

structure Inv (s : Senders) : Prop where
  initialized : s.initialized = s.client
  pair : s.audio = none ↔ s.video = none
  gone : s.client = false → s.audio = none
  sending : s.send_initialized = true → s.Ready
  idle_video : s.send_initialized = false → ∀ v, s.video = some v → v.initialized = false
  /-- The audio session is initialised first; it stays so if the video session then fails. -/
  idle_audio : s.send_initialized = false → ∀ a, s.audio = some a →
    a.initialized = false ∨ ∃ ssrc, a = ⟨true, some ssrc, some []⟩

/-- What `connect` does, in a state with the invariant. -/
inductive Connects (s : Senders) (audioOk videoOk : Bool) : Senders → Prop where
  | missing (ha : s.audio = none) : Connects s audioOk videoOk s
  | again (a v : Session) (ha : s.audio = some a) (hv : s.video = some v) (hs : s.send_initialized = true) :
      Connects s audioOk videoOk
        { s with audio := some (a.add s.audioTarget.addr), video := some (v.add s.videoTarget.addr) }
  | audioFails (a v : Session) (ha : s.audio = some a) (hv : s.video = some v) (hs : s.send_initialized = false)
      (hi : a.initialized = false) (hok : audioOk = false) :
      Connects s audioOk videoOk { s with audio := some {}, video := some v }
  | videoFails (a v : Session) (ha : s.audio = some a) (hv : s.video = some v) (hs : s.send_initialized = false)
      (hok : videoOk = false) (ssrc : UInt32) :
      Connects s audioOk videoOk { s with audio := some ⟨true, some ssrc, some []⟩, video := some {} }
  | starts (a v : Session) (ha : s.audio = some a) (hv : s.video = some v) (hs : s.send_initialized = false)
      (hi : a.initialized = true ∨ audioOk = true) (hok : videoOk = true) (ssrc : UInt32)
      (hssrc : some ssrc = if a.initialized then a.ssrc else some s.audioTarget.ssrc) :
      Connects s audioOk videoOk
        { s with
          send_initialized := true
          audio := some ⟨true, some ssrc, some [s.audioTarget.addr]⟩
          video := some ⟨true, some s.videoTarget.ssrc, some [s.videoTarget.addr]⟩ }

theorem connect_connects {s : Senders} (h : s.Inv) (audioOk videoOk : Bool) :
    Connects s audioOk videoOk (s.connect audioOk videoOk) := by
  unfold connect
  cases ha : s.audio with
  | none => exact .missing ha
  | some a =>
  cases hv : s.video with
  | none => exact absurd (h.pair.2 hv) (by simp [ha])
  | some v =>
  dsimp only
  by_cases hs : s.send_initialized = true
  · rw [if_pos hs]
    exact .again a v ha hv hs
  · rw [if_neg hs]
    replace hs : s.send_initialized = false := by simpa using hs
    have hvi := h.idle_video hs v hv
    rw [Session.start_new hvi]
    -- an earlier attempt may have got as far as the audio session
    rcases h.idle_audio hs a ha with hi | ⟨ssrc, rfl⟩
    · rw [Session.start_new hi]
      cases audioOk with
      | false => exact .audioFails a v ha hv hs hi rfl
      | true =>
        cases videoOk with
        | false => exact .videoFails a v ha hv hs rfl _
        | true => exact .starts a v ha hv hs (.inr rfl) rfl _ (by simp [hi])
    · rw [Session.start_old rfl]
      cases videoOk with
      | false => exact .videoFails _ v ha hv hs rfl ssrc
      | true => exact .starts _ v ha hv hs (.inl rfl) rfl ssrc rfl

theorem Inv.release (s : Senders) : s.release.Inv where
  initialized := rfl
  pair := by simp [Senders.release]
  gone := fun _ => rfl
  sending := by simp [Senders.release]
  idle_video := by simp [Senders.release]
  idle_audio := by simp [Senders.release]

theorem Inv.retarget {s : Senders} (h : s.Inv) (audioTarget videoTarget : Target) :
    Inv { s with audioTarget := audioTarget, videoTarget := videoTarget } :=
  ⟨h.initialized, h.pair, h.gone, h.sending, h.idle_video, h.idle_audio⟩

theorem Inv.connect {s : Senders} (h : s.Inv) (audioOk videoOk : Bool) : (s.connect audioOk videoOk).Inv := by
  have hc := connect_connects h audioOk videoOk
  generalize s.connect audioOk videoOk = t at hc
  have hclient : ∀ a, s.audio = some a → s.client = true := by
    intro a ha
    by_contra hn
    exact absurd (h.gone (by simpa using hn)) (by simp [ha])
  cases hc with
  | missing => exact h
  | again a v ha hv hs =>
    obtain ⟨a', v', ha', hv', hra, hrv⟩ := h.sending hs
    obtain rfl : a = a' := by simpa [ha] using ha'
    obtain rfl : v = v' := by simpa [hv] using hv'
    exact ⟨h.initialized, by simp, by simp [hclient a ha], fun _ => ⟨_, _, rfl, rfl, hra.add _, hrv.add _⟩,
      by simp [hs], by simp [hs]⟩
  | audioFails a v ha hv hs hi hok =>
    exact ⟨h.initialized, by simp, by simp [hclient a ha], by simp [hs],
      by rintro _ _ ⟨⟩; exact h.idle_video hs v hv, by simp⟩
  | videoFails a v ha hv hs hok ssrc =>
    exact ⟨h.initialized, by simp, by simp [hclient a ha], by simp [hs], by simp, by simp⟩
  | starts a v ha hv hs hi hok ssrc hssrc =>
    exact ⟨h.initialized, by simp, by simp [hclient a ha], fun _ => by simp [Ready, Session.Ready], by simp, by simp⟩

/-- A room that is not initialised has no client, hence no session that could be sending. -/
theorem Inv.restart_idle {s : Senders} (h : s.Inv) (ok : Bool) : (s.act (.restart ok)).send_initialized = false := by
  have hs : (if s.initialized then s.release else s).send_initialized = false := by
    split
    · rfl
    · rename_i hi
      by_contra hn
      obtain ⟨a, -, ha, -⟩ := h.sending (by simpa using hn)
      have hnone := h.gone (by rw [← h.initialized]; simpa using hi)
      simp [ha] at hnone
  cases ok with
  | false => rfl
  | true => exact hs

theorem Inv.act {s : Senders} (h : s.Inv) (act : Action) : (s.act act).Inv := by
  cases act with
  | skip => exact h
  | enter audioTarget videoTarget audioOk videoOk =>
    exact (h.retarget audioTarget videoTarget).connect audioOk videoOk
  | leave audioTarget videoTarget => exact ⟨h.initialized, by simp [Senders.act], fun _ => rfl, by simp [Senders.act],
      by simp [Senders.act], by simp [Senders.act]⟩
  | restart ok =>
    cases ok with
    | false => exact .release _
    | true =>
      have hs := h.restart_idle true
      exact ⟨rfl, by simp [Senders.act], by simp [Senders.act], by simp [hs], by simp [Senders.act],
        by simp [Senders.act]⟩
  | free => exact .release s

/-! ## Going to the current conference only -/

def Current (s : Senders) : Prop :=
  s.send_initialized = true →
    (∃ a, s.audio = some a ∧ a.SendsTo s.audioTarget) ∧ (∃ v, s.video = some v ∧ v.SendsTo s.videoTarget)

/-- Nothing is left of an earlier response when the next one arrives: no session sends yet, and if
the audio session is initialised, then for the new SSRC, unless the video session fails again. -/
def Fresh (s : Senders) (audioTarget : Target) (videoOk : Bool) : Prop :=
  s.send_initialized = false ∧
    ∀ a, s.audio = some a → a.initialized = true → a.ssrc = some audioTarget.ssrc ∨ videoOk = false

theorem connect_current_iff {s : Senders} (h : s.Inv) (audioOk videoOk : Bool) :
    (s.connect audioOk videoOk).Current ↔ s.Fresh s.audioTarget videoOk := by
  have hc := connect_connects h audioOk videoOk
  generalize s.connect audioOk videoOk = t at hc
  cases hc with
  | missing ha =>
    have hs : s.send_initialized = false := by
      by_contra hn
      obtain ⟨a, -, ha', -⟩ := h.sending (by simpa using hn)
      simp [ha] at ha'
    simp [Current, Fresh, hs, ha]
  | again a v ha hv hs =>
    -- a ready session has a destination already, so now it has two
    obtain ⟨a', v', ha', hv', hra, hrv⟩ := h.sending hs
    obtain rfl : a = a' := by simpa [ha] using ha'
    obtain ⟨hi, -, ds, hd, hne⟩ := hra
    simp [Current, Fresh, hs, Session.SendsTo, Session.add, hi, hd, hne]
  | audioFails a v ha hv hs hi hok => simp [Current, Fresh, hs, ha, hi]
  | videoFails a v ha hv hs hok ssrc => simp [Current, Fresh, hs, hok]
  | starts a v ha hv hs hi hok ssrc hssrc =>
    cases hai : a.initialized with
    | false =>
      rw [hai] at hssrc
      simp only [Bool.false_eq_true, if_false, Option.some.injEq] at hssrc
      simp [Current, Fresh, hs, ha, hai, hssrc, Session.SendsTo]
    | true =>
      rw [hai, if_pos rfl] at hssrc
      simp [Current, Fresh, hs, ha, hai, ← hssrc, hok, Session.SendsTo]

end Senders

/-- A property of the session behind a pointer that may be null. -/
theorem exists_session {α : Type} (session : α → Session) (o : Option α) (P : Session → Prop) :
    (∃ s, o.map session = some s ∧ P s) ↔ ∃ x, o = some x ∧ P (session x) := by
  cases o <;> simp

/-- The transmitter has this one destination, and the builder writes this SSRC. -/
def RTPSessionAudio.SendsTo (s : RTPSessionAudio) (addr : IPAddrV4) (ssrc : UInt32) : Prop :=
  ∃ builder transmitter, s.m_aac_rtp_builder = some builder ∧ s.m_transmitter = some transmitter ∧
    builder.m_ssrc = ssrc ∧ transmitter.m_destinations = [addr]

def RTPSessionVideo.SendsTo (s : RTPSessionVideo) (addr : IPAddrV4) (ssrc : UInt32) : Prop :=
  ∃ builder transmitter, s.m_h264_rtp_builder = some builder ∧ s.m_transmitter = some transmitter ∧
    builder.m_ssrc = ssrc ∧ transmitter.m_destinations = [addr]

theorem RTPSessionAudio.sendsTo_iff (s : RTPSessionAudio) (t : Target) :
    s.SendsTo t.addr t.ssrc ↔ s.session.SendsTo t := by
  unfold SendsTo Session.SendsTo session
  cases s.m_aac_rtp_builder <;> cases s.m_transmitter <;> simp

theorem RTPSessionVideo.sendsTo_iff (s : RTPSessionVideo) (t : Target) :
    s.SendsTo t.addr t.ssrc ↔ s.session.SendsTo t := by
  unfold SendsTo Session.SendsTo session
  cases s.m_h264_rtp_builder <;> cases s.m_transmitter <;> simp

namespace LiveMeetingRoom

/-- While the senders are initialised, each sends to the room's push address only and
writes the room's SSRC. -/
def MediaCurrent (room : LiveMeetingRoom) : Prop :=
  room.m_rtp_send_initialized = true →
    (∃ audio, room.m_rtp_audio_sender = some audio ∧
      audio.SendsTo (IPAddrV4.new room.m_audio_push_ip room.m_audio_push_port.toNat) room.m_audio_ssrc) ∧
    (∃ video, room.m_rtp_video_sender = some video ∧
      video.SendsTo (IPAddrV4.new room.m_video_push_ip room.m_video_push_port.toNat) room.m_video_ssrc)

theorem mediaCurrent_iff (room : LiveMeetingRoom) : room.MediaCurrent ↔ room.senders.Current := by
  unfold MediaCurrent Senders.Current senders
  rw [exists_session, exists_session]
  refine imp_congr Iff.rfl (and_congr ?_ ?_)
  · exact exists_congr (fun audio => and_congr Iff.rfl (audio.sendsTo_iff room.audioTarget))
  · exact exists_congr (fun video => and_congr Iff.rfl (video.sendsTo_iff room.videoTarget))

/-- If the call is a response the room enters a conference with, nothing is left of an
earlier one: the senders are not initialised, and an audio session that is (the video
session failed then) has the SSRC of this response, unless the video session fails again. -/
def FreshResponse (room : LiveMeetingRoom) (c : Call) : Prop :=
  ∀ opcode params env, room.processed c = some (opcode, params, env) → room.enters opcode params = true →
    room.m_rtp_send_initialized = false ∧
    ∀ audio, room.m_rtp_audio_sender = some audio → audio.m_initialize = true →
      audio.m_aac_rtp_builder.map (·.m_ssrc) = some (readSSRC params (ascii "audio_ssrc")) ∨ env.video.ok = false

theorem freshResponse_enters {room : LiveMeetingRoom} {c : Call} {opcode : Int} {params : JsonObject}
    {env : MessageEnv} (hp : room.processed c = some (opcode, params, env)) (he : room.enters opcode params = true) :
    room.FreshResponse c ↔ room.senders.Fresh (readAudioTarget params) env.video.ok := by
  constructor
  · intro h
    obtain ⟨hs, ha⟩ := h opcode params env hp he
    refine ⟨hs, ?_⟩
    intro a hsession hi
    obtain ⟨audio, haudio, rfl⟩ := Option.map_eq_some_iff.1 hsession
    exact ha audio haudio hi
  · rintro ⟨hs, ha⟩ opcode' params' env' hp' -
    obtain ⟨rfl, rfl, rfl⟩ : opcode = opcode' ∧ params = params' ∧ env = env' := by simpa [hp] using hp'
    exact ⟨hs, fun audio haudio hi => ha audio.session (by simp [senders, haudio]) hi⟩

theorem freshResponse_other {room : LiveMeetingRoom} {c : Call}
    (h : ∀ opcode params env, room.processed c = some (opcode, params, env) → room.enters opcode params = false) :
    room.FreshResponse c := by
  intro opcode params env hp he
  rw [h opcode params env hp] at he
  cases he

/-- A step keeps the media current exactly if it is a fresh response, or none. -/
theorem step_mediaCurrent {room : LiveMeetingRoom} (hi : room.senders.Inv) (hcur : room.MediaCurrent) (c : Call) :
    (room.step c).1.MediaCurrent ↔ room.FreshResponse c := by
  rw [mediaCurrent_iff, senders_step]
  have hact := room.action_acts c
  generalize room.action c = act at hact
  cases hact with
  | enters opcode params env hp he =>
    rw [freshResponse_enters hp he]
    exact Senders.connect_current_iff (hi.retarget _ _) env.audio.ok env.video.ok
  | leaves opcode params env _ _ hp _ => exact iff_of_true (fun h => by cases h) (freshResponse_other hp)
  | init ip port thread audio video hc =>
    subst hc
    refine iff_of_true (fun h => ?_) (freshResponse_other (by simp [processed]))
    rw [hi.restart_idle] at h
    cases h
  | un_init hc =>
    subst hc
    exact iff_of_true (fun h => by cases h) (freshResponse_other (by simp [processed]))
  | other hp hc => exact iff_of_true ((mediaCurrent_iff room).1 hcur) (freshResponse_other hp)

theorem new_inv (video_ssrc audio_ssrc : UInt32) (video_push_port audio_push_port : UInt16) :
    (new video_ssrc audio_ssrc video_push_port audio_push_port).senders.Inv :=
  ⟨rfl, by simp [new, senders], fun _ => rfl, by simp [new, senders], by simp [new, senders], by simp [new, senders]⟩

theorem step_inv (room : LiveMeetingRoom) (c : Call) (h : room.senders.Inv) : (room.step c).1.senders.Inv := by
  rw [senders_step]
  exact h.act _

/-- The media goes to the current conference only, all along a run, exactly if every
response the room enters a conference with is fresh. -/
theorem media_current_iff (video_ssrc audio_ssrc : UInt32) (video_push_port audio_push_port : UInt16)
    (calls : List Call) :
    (∀ pre post, calls = pre ++ post →
      (final step (new video_ssrc audio_ssrc video_push_port audio_push_port) pre).MediaCurrent) ↔
    Along step FreshResponse (new video_ssrc audio_ssrc video_push_port audio_push_port) calls := by
  refine along_iff step MediaCurrent (fun room => room.senders.Inv) (fun _ => True) step_inv ?_
    (new_inv _ _ _ _) ?_ calls (fun _ _ => trivial)
  · intro room c hi _ hcur
    exact step_mediaCurrent hi hcur c
  · intro h
    cases h

/-- A system that has everything the senders ask for. -/
def sampleEnv : MessageEnv where
  audio := ⟨true, 40000, true⟩
  video := ⟨true, 40002, true⟩
  thread := true
  receivers _ _ := ⟨0, false, .zeros _, .zeros _, .zeros _⟩

/-- The server's answer to a create request: the conference gets its SSRCs and ports from `n`. -/
def created (n : Nat) : Call :=
  .message (some (app_response_json (ascii "200") (ascii "OK") TYPE_CONFERENCE_CREATE (ascii "7") [
    (ascii "conference_id", common_to_string n), (ascii "user_id", ascii "ann"), (ascii "user_uuid", ascii "a1"),
    (ascii "video_ssrc", common_to_string (n + 1)), (ascii "audio_ssrc", common_to_string (n + 2)),
    (ascii "push_video_ip", ascii "10.0.0.1"), (ascii "push_video_port", common_to_string (n + 3)),
    (ascii "push_audio_ip", ascii "10.0.0.1"), (ascii "push_audio_port", common_to_string (n + 4))])) sampleEnv

/-- A create request sent at the given second. -/
def create (nowSeconds : UInt64) : Call :=
  .signal_create_conference (ascii "ann") (ascii "Ann") ⟨nowSeconds, ascii "7", true⟩

/-- A create request without an answer is sent again after six seconds; then both answers arrive. -/
def twice : List Call := [.init (ascii "10.0.0.1") 8080 true true true, create 0, create 6, created 100, created 200]

/-- The first conference's address stays a destination. -/
theorem not_media_current_twice : ¬ ∀ calls, (final step (new 0 0 0 0) calls).MediaCurrent := by
  intro h
  obtain ⟨⟨audio, ha, builder, transmitter, -, ht, -, hd⟩, -⟩ := h twice (by decide +kernel)
  have htwo : ((final step (new 0 0 0 0) twice).m_rtp_audio_sender.bind (·.m_transmitter)).map
      (·.m_destinations.length) = some 2 := by decide +kernel
  simp [ha, ht, hd] at htwo

end LiveMeetingRoom

/-! ## Being able to send -/

namespace Senders

theorem Inv.ready_sending {s : Senders} (h : s.Inv) (hr : s.Ready) : s.send_initialized = true := by
  obtain ⟨a, v, -, hv, -, hrv⟩ := hr
  by_contra hn
  have hi := h.idle_video (by simpa using hn) v hv
  rw [hrv.1] at hi
  cases hi

theorem connect_client {s : Senders} (h : s.Inv) (audioOk videoOk : Bool) :
    (s.connect audioOk videoOk).client = s.client := by
  have hc := connect_connects h audioOk videoOk
  generalize s.connect audioOk videoOk = t at hc
  cases hc <;> rfl

theorem connect_audio_none {s : Senders} (h : s.Inv) (audioOk videoOk : Bool) :
    (s.connect audioOk videoOk).audio = none ↔ s.audio = none := by
  have hc := connect_connects h audioOk videoOk
  generalize s.connect audioOk videoOk = t at hc
  cases hc with
  | missing => rfl
  | again _ _ ha | audioFails _ _ ha | videoFails _ _ ha | starts _ _ ha => simp [ha]

/-- `connect` makes the senders ready if they exist and can be made, unless they are ready already. -/
theorem connect_ready_iff {s : Senders} (h : s.Inv) (audioOk videoOk : Bool) :
    (s.connect audioOk videoOk).Ready ↔
      s.audio ≠ none ∧ (s.send_initialized = true ∨
        ((∃ a, s.audio = some a ∧ a.initialized = true) ∨ audioOk = true) ∧ videoOk = true) := by
  have hinv := h.connect audioOk videoOk
  have hc := connect_connects h audioOk videoOk
  generalize s.connect audioOk videoOk = t at hc hinv
  cases hc with
  | missing ha =>
    have hn : ¬ s.Ready := by
      rintro ⟨a, v, ha', -⟩
      simp [ha] at ha'
    simp [hn, ha]
  | again a v ha hv hs => exact iff_of_true (hinv.sending hs) ⟨by simp [ha], .inl hs⟩
  | audioFails a v ha hv hs hi hok =>
    refine iff_of_false (fun hr => ?_) (by simp [hs, ha, hi, hok])
    exact absurd (hinv.ready_sending hr) (by simp [hs])
  | videoFails a v ha hv hs hok ssrc =>
    refine iff_of_false (fun hr => ?_) (by simp [hs, hok])
    exact absurd (hinv.ready_sending hr) (by simp [hs])
  | starts a v ha hv hs hi hok ssrc hssrc =>
    exact iff_of_true (hinv.sending rfl) ⟨by simp [ha], .inr ⟨by simpa [ha] using hi, hok⟩⟩

end Senders

/-- The session is initialised and has a destination. -/
def RTPSessionAudio.Ready (s : RTPSessionAudio) : Prop :=
  s.m_initialize = true ∧ s.m_aac_rtp_builder.isSome = true ∧
    ∃ transmitter, s.m_transmitter = some transmitter ∧ transmitter.m_destinations ≠ []

def RTPSessionVideo.Ready (s : RTPSessionVideo) : Prop :=
  s.m_initialize = true ∧ s.m_h264_rtp_builder.isSome = true ∧
    ∃ transmitter, s.m_transmitter = some transmitter ∧ transmitter.m_destinations ≠ []

theorem RTPSessionAudio.ready_iff (s : RTPSessionAudio) : s.Ready ↔ s.session.Ready := by
  simp [Ready, Session.Ready, session]

theorem RTPSessionVideo.ready_iff (s : RTPSessionVideo) : s.Ready ↔ s.session.Ready := by
  simp [Ready, Session.Ready, session]

namespace LiveMeetingRoom

/-- Both senders exist, are initialised and have a destination. -/
def MediaReady (room : LiveMeetingRoom) : Prop :=
  ∃ audio video, room.m_rtp_audio_sender = some audio ∧ room.m_rtp_video_sender = some video ∧
    audio.Ready ∧ video.Ready

theorem mediaReady_iff (room : LiveMeetingRoom) : room.MediaReady ↔ room.senders.Ready := by
  constructor
  · rintro ⟨audio, video, ha, hv, hra, hrv⟩
    exact ⟨audio.session, video.session, by simp [senders, ha], by simp [senders, hv], audio.ready_iff.1 hra,
      video.ready_iff.1 hrv⟩
  · rintro ⟨a, v, ha, hv, hra, hrv⟩
    obtain ⟨audio, haudio, rfl⟩ := Option.map_eq_some_iff.1 ha
    obtain ⟨video, hvideo, rfl⟩ := Option.map_eq_some_iff.1 hv
    exact ⟨audio, video, haudio, hvideo, audio.ready_iff.2 hra, video.ready_iff.2 hrv⟩

/-- A room and what has happened to it. -/
structure Tracked where
  room : LiveMeetingRoom
  /-- The room has entered a conference, and no EXIT, STOP, CLOSING or `un_initialize` was processed since. -/
  joined : Bool
  /-- An EXIT, STOP or CLOSING was processed since the last successful `initialize`. -/
  left : Bool

namespace Tracked

def step (t : Tracked) (c : Call) : Tracked × Output :=
  ({ room := (t.room.step c).1
     joined :=
       match t.room.action c with
       | .enter _ _ _ _ => true
       | .leave _ _ => false
       | .free => false
       | _ => t.joined
     left :=
       match t.room.action c with
       | .leave _ _ => true
       | .restart true => false
       | _ => t.left },
    (t.room.step c).2)

/-- While the room is in a conference, it can send. -/
def CanSend (t : Tracked) : Prop := t.joined = true → t.room.MediaReady

/-- What the senders need to be connected once more: memory for the sessions that are not initialised. -/
def HasMemory (room : LiveMeetingRoom) (env : MessageEnv) : Prop :=
  room.m_rtp_send_initialized = true ∨
    ((∃ audio, room.m_rtp_audio_sender = some audio ∧ audio.m_initialize = true) ∨ env.audio.allocated = true) ∧
      env.video.allocated = true

/-- The room enters a conference only if it has left none since it was initialised, and with enough
memory; and it is not initialised again while it is in one. -/
def Steady (t : Tracked) (c : Call) : Prop :=
  (∀ opcode params env, t.room.processed c = some (opcode, params, env) → t.room.enters opcode params = true →
    t.left = false ∧ HasMemory t.room env) ∧
  (∀ ip port thread audio video, c = .init ip port thread audio video → t.joined = false)

/-- UDP sockets can be created and bound. -/
def SocketsBound (c : Call) : Prop :=
  ∀ json env, c = .message json env → env.audio.bound = true ∧ env.video.bound = true

/-- With a client, the senders are missing exactly if a conference was left. -/
def Inv (t : Tracked) : Prop :=
  t.room.senders.Inv ∧ (t.room.senders.client = true → (t.left = true ↔ t.room.senders.audio = none))

theorem Inv.step {t : Tracked} (h : t.Inv) (c : Call) : (t.step c).1.Inv := by
  refine ⟨step_inv t.room c h.1, ?_⟩
  change (t.room.step c).1.senders.client = true → _
  have hs : (t.step c).1.room.senders = t.room.senders.act (t.room.action c) := senders_step t.room c
  rw [hs, senders_step]
  unfold Tracked.step
  dsimp only
  cases t.room.action c with
  | skip => exact h.2
  | enter audioTarget videoTarget audioOk videoOk =>
    have hr := h.1.retarget audioTarget videoTarget
    intro hclient
    refine (h.2 ?_).trans (Senders.connect_audio_none hr audioOk videoOk).symm
    exact (Senders.connect_client hr audioOk videoOk).symm.trans hclient
  | leave audioTarget videoTarget => exact fun _ => iff_of_true rfl rfl
  | restart ok =>
    cases ok with
    | false => intro hn; cases hn
    | true => exact fun _ => iff_of_false (by simp) (by simp [Senders.act])
  | free => intro hn; cases hn

/-- A message is processed only with a client. -/
theorem processed_client {room : LiveMeetingRoom} {c : Call} {m : Int × JsonObject × MessageEnv}
    (h : room.processed c = some m) : room.senders.client = true := by
  cases c with
  | message json env =>
    by_contra hn
    replace hn : room.m_websocket_client.isSome = false := by simpa [senders] using hn
    simp [processed, hn] at h
  | _ => cases h

theorem processed_env {room : LiveMeetingRoom} {json : Option JsonObject} {opcode : Int} {params : JsonObject}
    {env env' : MessageEnv} (h : room.processed (.message json env') = some (opcode, params, env)) : env' = env := by
  simp only [processed] at h
  split at h
  · obtain ⟨m, -, hm⟩ := Option.map_eq_some_iff.1 h
    exact (Prod.mk.inj (Prod.mk.inj hm).2).2
  · cases h

theorem processed_bound {room : LiveMeetingRoom} {c : Call} {opcode : Int} {params : JsonObject} {env : MessageEnv}
    (h : room.processed c = some (opcode, params, env)) (hb : SocketsBound c) :
    env.audio.ok = env.audio.allocated ∧ env.video.ok = env.video.allocated := by
  cases c with
  | message json env' =>
    obtain ⟨ha, hv⟩ := hb json env' rfl
    obtain rfl := processed_env h
    simp [SessionEnv.ok, ha, hv]
  | _ => cases h

theorem hasMemory_iff (room : LiveMeetingRoom) (env : MessageEnv) :
    HasMemory room env ↔ room.senders.send_initialized = true ∨
      ((∃ a, room.senders.audio = some a ∧ a.initialized = true) ∨ env.audio.allocated = true) ∧
        env.video.allocated = true := by
  unfold HasMemory senders
  rw [exists_session]
  exact Iff.rfl

theorem steady_enters {t : Tracked} {c : Call} {opcode : Int} {params : JsonObject} {env : MessageEnv}
    (hp : t.room.processed c = some (opcode, params, env)) (he : t.room.enters opcode params = true) :
    t.Steady c ↔ t.left = false ∧ HasMemory t.room env := by
  constructor
  · intro h
    exact h.1 opcode params env hp he
  · intro h
    refine ⟨?_, ?_⟩
    · intro opcode' params' env' hp' _
      obtain ⟨-, -, rfl⟩ : opcode = opcode' ∧ params = params' ∧ env = env' := by simpa [hp] using hp'
      exact h
    · rintro ip port thread audio video rfl
      cases hp

theorem steady_other {t : Tracked} {c : Call}
    (hp : ∀ opcode params env, t.room.processed c = some (opcode, params, env) → t.room.enters opcode params = false)
    (hc : ∀ ip port thread audio video, c ≠ .init ip port thread audio video) : t.Steady c := by
  refine ⟨?_, ?_⟩
  · intro opcode params env hm he
    rw [hp opcode params env hm] at he
    cases he
  · intro ip port thread audio video hinit
    exact absurd hinit (hc ip port thread audio video)

/-- A step keeps the room able to send exactly if it is steady. -/
theorem step_canSend {t : Tracked} (h : t.Inv) (hs : t.CanSend) {c : Call} (hb : SocketsBound c) :
    (t.step c).1.CanSend ↔ t.Steady c := by
  have hroom : (t.step c).1.room.MediaReady ↔ (t.room.senders.act (t.room.action c)).Ready := by
    rw [mediaReady_iff, ← senders_step]
    rfl
  unfold CanSend
  rw [hroom]
  unfold Tracked.step
  dsimp only
  have hact := t.room.action_acts c
  generalize t.room.action c = act at hact
  cases hact with
  | enters opcode params env hp he =>
    obtain ⟨ha, hv⟩ := processed_bound hp hb
    have hleft : t.left = false ↔ t.room.senders.audio ≠ none := by
      rw [← Bool.not_eq_true, not_iff_not]
      exact h.2 (processed_client hp)
    rw [steady_enters hp he, hleft, hasMemory_iff, ← ha, ← hv]
    have hready := Senders.connect_ready_iff (h.1.retarget (readAudioTarget params) (readVideoTarget params))
      env.audio.ok env.video.ok
    exact (imp_iff_right rfl).trans hready
  | leaves opcode params env _ _ hp hc => exact iff_of_true (fun hj => by cases hj) (steady_other hp hc)
  | init ip port thread audio video hc =>
    subst hc
    have hnot : ¬ (t.room.senders.act (.restart (thread && audio && video))).Ready := by
      intro hr
      have hsend := (h.1.act _).ready_sending hr
      rw [h.1.restart_idle] at hsend
      cases hsend
    have hsteady : t.Steady (.init ip port thread audio video) ↔ t.joined = false :=
      ⟨fun hst => hst.2 ip port thread audio video rfl, fun hj => ⟨by simp [processed], fun _ _ _ _ _ _ => hj⟩⟩
    rw [hsteady, imp_iff_not hnot]
    exact iff_of_eq (Bool.not_eq_true t.joined)
  | un_init hc =>
    refine iff_of_true (fun hj => by cases hj) ?_
    subst hc
    exact steady_other (by simp [processed]) (by simp)
  | other hp hc =>
    refine iff_of_true (fun hj => ?_) (steady_other hp hc)
    exact (mediaReady_iff t.room).1 (hs hj)

/-- The room after the constructor and a successful `initialize`. -/
def started (video_ssrc audio_ssrc : UInt32) (video_push_port audio_push_port : UInt16) (ip : Bytes) (port : UInt16) :
    Tracked where
  room := ((new video_ssrc audio_ssrc video_push_port audio_push_port).init ip port true true true).1
  joined := false
  left := false

theorem started_inv (video_ssrc audio_ssrc : UInt32) (video_push_port audio_push_port : UInt16) (ip : Bytes)
    (port : UInt16) : (started video_ssrc audio_ssrc video_push_port audio_push_port ip port).Inv := by
  have hs := init_senders (new video_ssrc audio_ssrc video_push_port audio_push_port) ip port true true true
  refine ⟨?_, ?_⟩
  · unfold started
    rw [hs]
    exact (new_inv _ _ _ _).act _
  · intro _
    unfold started
    rw [hs]
    exact iff_of_false (by simp) (by simp [Senders.act])

end Tracked

open Tracked in
/-- In a run from a successful `initialize`, with sockets, the room can send whenever it is in a
conference exactly if every step is steady. -/
theorem media_ready_iff (video_ssrc audio_ssrc : UInt32) (video_push_port audio_push_port : UInt16) (ip : Bytes)
    (port : UInt16) (calls : List Call) (hb : ∀ c ∈ calls, SocketsBound c) :
    (∀ pre post, calls = pre ++ post →
      (final Tracked.step (started video_ssrc audio_ssrc video_push_port audio_push_port ip port) pre).CanSend) ↔
    Along Tracked.step Steady (started video_ssrc audio_ssrc video_push_port audio_push_port ip port) calls := by
  refine along_iff Tracked.step CanSend Tracked.Inv SocketsBound (fun t c h => h.step c) ?_
    (started_inv _ _ _ _ _ _) ?_ calls hb
  · intro t c h hbound hs
    exact step_canSend h hs hbound
  · intro hj
    cases hj

/-- The server's answer to an exit request. -/
def exited : Call :=
  .message (some (app_response_json (ascii "200") (ascii "OK") TYPE_CONFERENCE_EXIT (ascii "8") [
    (ascii "conference_id", ascii "100"), (ascii "user_uuid", ascii "a1")])) sampleEnv

/-- The room leaves a conference and enters another. -/
def rejoin : List Call :=
  [create 0, created 100, .signal_exit_conference ⟨10, ascii "8", true⟩, exited, create 20, created 200]

/-- A room that has just been initialised. -/
def sampleStart : Tracked := .started 0 0 0 0 (ascii "10.0.0.1") 8080

theorem rejoin_bound : ∀ c ∈ rejoin, Tracked.SocketsBound c := by
  intro c hc json env heq
  subst heq
  simp only [rejoin, create, created, exited, List.mem_cons, List.not_mem_nil, Call.message.injEq, reduceCtorEq,
    or_false, false_or] at hc
  rcases hc with ⟨-, rfl⟩ | ⟨-, rfl⟩ | ⟨-, rfl⟩ <;> exact ⟨rfl, rfl⟩

theorem media_ready_first :
    (final Tracked.step sampleStart (rejoin.take 2)).joined = true ∧
      (final Tracked.step sampleStart (rejoin.take 2)).CanSend := by
  have hb : ∀ c ∈ rejoin.take 2, Tracked.SocketsBound c := fun c hc => rejoin_bound c (List.mem_of_mem_take hc)
  have hsteady : Along Tracked.step Tracked.Steady sampleStart (rejoin.take 2) := by
    refine ⟨Tracked.steady_other (fun _ _ _ h => by cases h) (fun _ _ _ _ _ h => by cases h), ⟨?_, ?_⟩, trivial⟩
    · intro opcode params env hp _
      obtain rfl := Tracked.processed_env hp
      exact ⟨by decide +kernel, .inr ⟨.inr rfl, rfl⟩⟩
    · intro _ _ _ _ _ h
      cases h
  have hall := (media_ready_iff 0 0 0 0 (ascii "10.0.0.1") 8080 (rejoin.take 2) hb).2 hsteady
  exact ⟨by decide +kernel, hall _ [] (by simp)⟩

/-- After the second join there are no senders. -/
theorem not_media_ready_rejoin : ¬ ∀ calls : List Call, (∀ c ∈ calls, Tracked.SocketsBound c) →
    (final Tracked.step sampleStart calls).CanSend := by
  intro h
  obtain ⟨audio, -, ha, -⟩ := h rejoin rejoin_bound (by decide +kernel)
  have hnone : (final Tracked.step sampleStart rejoin).room.m_rtp_audio_sender.isNone = true := by decide +kernel
  simp [ha] at hnone

end LiveMeetingRoom

end RtcClient
