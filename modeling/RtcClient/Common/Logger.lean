import RtcClient.Common.Utils
import RtcClient.Lib.Reading
import Mathlib.Data.List.TakeWhile
/-!
# The logger

Six functions format a message into `szLog` and write it at once (`SYNC`) or leave it to
the queue's thread (`ASYNC`). `vsnprintf` returns the length of the whole text, not of the
part it has written, and a task is as long as that (`enqueues_text_iff`). What the log
shows ends at the NUL all the same (`async_writes_sync`).
-/

namespace RtcClient

open Lib

/-- The text a `const char*` shows, read up to its NUL. -/
def shown (s : Buffer) : Reading Bytes :=
  let text := c_str (s.bytes ++ s.beyond)
  ⟨text, List.range' 0 (text.length + 1)⟩

/-- `vsnprintf(s, n, ..)` of arguments that come to `text`: the block, and the length of
the whole text or, where that is no `int`, a negative number. -/
def vsnprintf (s : Bytes) (n : Nat) (text : Bytes) : Bytes × Int :=
  (if n = 0 then s else splice s 0 (text.take (n - 1) ++ [0]), if text.length < 2 ^ 31 then text.length else -1)

/-! ## Tasks -/

structure LogTask where
  m_file_name : Bytes
  m_line_number : Int
  m_msg_type : Bytes
  m_message : Bytes
deriving DecidableEq, Repr

/-- The constructor. `msgsize` is positive. -/
def LogTask.new (filename : Bytes) (linenumber : Int) (msgType : Bytes) (strMessage : Buffer) (msgsize : Int) :
    Reading LogTask := do
  return {
    m_file_name := c_str filename
    m_line_number := linenumber
    m_msg_type := c_str msgType
    m_message := ← Reading.bytes strMessage 0 msgsize.toNat }

@[simp] theorem LogTask.new_message (filename : Bytes) (linenumber : Int) (msgType : Bytes) (strMessage : Buffer)
    (msgsize : Int) :
    (LogTask.new filename linenumber msgType strMessage msgsize).value.m_message =
      strMessage.read 0 msgsize.toNat := rfl

inductive LogType where
  | SYNC
  | ASYNC
deriving DecidableEq, Repr

structure AppLogger where
  m_log_type : LogType := .ASYNC
deriving DecidableEq, Repr

def MSG_LOG_WRITE_TASK : Int := 1001

/-- What `write_log` prints, besides the time and its thread. -/
structure LogLine where
  pFileName : Bytes
  linenumber : Int
  msgtype : Bytes
  strMessage : Bytes
deriving DecidableEq, Repr

/-- What follows the last `/`, as `strrchr` finds it. -/
def base_name (filename : Bytes) : Bytes := (filename.reverse.takeWhile (· != 0x2F)).reverse

def write_log (filename : Bytes) (linenumber : Int) (msgtype : Bytes) (strMessage : Buffer) : Reading LogLine := do
  return {
    pFileName := base_name (c_str filename)
    linenumber := linenumber
    msgtype := c_str msgtype
    strMessage := ← shown strMessage }

/-- What a logging call does with its message. -/
inductive LogAction where
  | written (line : LogLine)
  | put (m_msg_id m_first_param m_second_param : Int) (task : LogTask)
deriving DecidableEq, Repr

namespace AppLogger

/-- The body the loggers share, but for the `msgtype`. `text` is what the format and its
arguments come to, `stack` the memory behind `szLog`. -/
def log (logger : AppLogger) (msgtype filename : Bytes) (line : Int) (text stack : Bytes) :
    Reading (Option LogAction) :=
  let (szLog, nLog) := vsnprintf (List.replicate 4096 0) 4000 text
  if nLog > 0 then
    match logger.m_log_type with
    | .SYNC => do return some (.written (← write_log filename line msgtype ⟨szLog, stack⟩))
    | .ASYNC => do
      return some (.put MSG_LOG_WRITE_TASK 0 0 (← LogTask.new filename line msgtype ⟨szLog, stack⟩ nLog))
  else return none

def info (logger : AppLogger) := logger.log (ascii "[I]")

def debug (logger : AppLogger) := logger.log (ascii "[D]")

def warning (logger : AppLogger) := logger.log (ascii "[W]")

def error (logger : AppLogger) := logger.log (ascii "[E]")

def trace (logger : AppLogger) := logger.log (ascii "[T]")

def verbose (logger : AppLogger) := logger.log (ascii "[V]")

def loggers : List (AppLogger → Bytes → Int → Bytes → Bytes → Reading (Option LogAction)) :=
  [info, debug, warning, error, trace, verbose]

/-- `handle_msg`, on the queue's thread. -/
def handle_msg (m_msg_id : Int) (task : LogTask) : Reading (Option LogLine) :=
  if m_msg_id = MSG_LOG_WRITE_TASK then do
    return some (← write_log task.m_file_name task.m_line_number task.m_msg_type ⟨task.m_message ++ [0], []⟩)
  else return none

end AppLogger

/-- The line a call comes to, once the queue's thread has handled its message. -/
def LogAction.line : LogAction → Option LogLine
  | .written line => some line
  | .put m_msg_id _ _ task => (AppLogger.handle_msg m_msg_id task).value

/-! ## What the buffer holds -/

theorem c_str_append_zero (a b : Bytes) : c_str (a ++ 0 :: b) = c_str a := by
  induction a with
  | nil => rfl
  | cons x a ih =>
    rw [c_str, List.cons_append, List.takeWhile_cons, c_str, List.takeWhile_cons]
    split
    · exact congrArg (x :: ·) ih
    · rfl

theorem c_str_c_str (s : Bytes) : c_str (c_str s) = c_str s := List.takeWhile_idem

theorem c_str_length_le (s : Bytes) : (c_str s).length ≤ s.length := (List.takeWhile_sublist _).length_le

/-- A text ends inside the block that holds its NUL. -/
theorem c_str_block (a b beyond : Bytes) : c_str (a ++ 0 :: b ++ beyond) = c_str a := by
  rw [List.append_assoc, List.cons_append, c_str_append_zero]

theorem within_shown (a b beyond : Bytes) : (shown ⟨a ++ 0 :: b, beyond⟩).Within 0 (a ++ 0 :: b).length := by
  intro i hi
  have hlt := (List.mem_range'_1.1 hi).2
  rw [c_str_block] at hlt
  have hle := c_str_length_le a
  rw [List.length_append, List.length_cons]
  omega

/-- `szLog` in a call: the text cut to 3999 bytes, then zeros. -/
def szLog (text : Bytes) : Bytes := text.take 3999 ++ 0 :: List.replicate (4095 - (text.take 3999).length) 0

theorem szLog_length (text : Bytes) : (szLog text).length = 4096 := by
  have hle := List.length_take_le 3999 text
  rw [szLog, List.length_append, List.length_cons, List.length_replicate]
  omega

theorem vsnprintf_eq (text : Bytes) :
    vsnprintf (List.replicate 4096 0) 4000 text =
      (szLog text, if text.length < 2 ^ 31 then (text.length : Int) else -1) := by
  have hle := List.length_take_le 3999 text
  have hfits : 0 + (text.take 3999 ++ [0]).length ≤ (List.replicate 4096 (0 : UInt8)).length := by
    rw [List.length_append, List.length_singleton, List.length_replicate]
    omega
  have hrest : 4096 - (0 + ((text.take 3999).length + 1)) = 4095 - (text.take 3999).length := by omega
  have hblock : splice (List.replicate 4096 0) 0 (text.take 3999 ++ [0]) = szLog text := by
    rw [splice_eq _ _ _ hfits, List.take_zero, List.nil_append, List.drop_replicate, List.length_append,
      List.length_singleton, hrest, List.append_assoc, List.singleton_append, szLog]
  rw [vsnprintf, if_neg (by decide), hblock]

/-- A message that fits in is the text. -/
theorem read_szLog_short {text : Bytes} (stack : Bytes) (h : text.length ≤ 3999) :
    Buffer.read ⟨szLog text, stack⟩ 0 text.length = text := by
  have hfits : 0 + text.length ≤ (szLog text).length := by
    rw [szLog_length]
    omega
  rw [Buffer.read_eq _ hfits, List.drop_zero, szLog, List.take_of_length_le h, List.take_left]

/-- A longer message goes on with the NUL. -/
theorem read_szLog_long {text : Bytes} (stack : Bytes) (h : 3999 < text.length) :
    ∃ rest, Buffer.read ⟨szLog text, stack⟩ 0 text.length = text.take 3999 ++ 0 :: rest := by
  obtain ⟨k, hk⟩ := Nat.exists_eq_add_of_le h
  have hcut : (text.take 3999 ++ [0]).length = 4000 := by
    rw [List.length_append, List.length_take_of_le (Nat.le_of_lt h), List.length_singleton]
  have hstart : Buffer.read ⟨szLog text, stack⟩ 0 4000 = text.take 3999 ++ [0] := by
    rw [Buffer.read_eq _ (by rw [szLog_length]; omega), List.drop_zero, szLog, List.append_cons, ← hcut, List.take_left]
  refine ⟨Buffer.read ⟨szLog text, stack⟩ 4000 k, ?_⟩
  rw [hk, Buffer.read_add, hstart, List.append_assoc, List.singleton_append, Nat.zero_add]

namespace AppLogger

/-! ## Asynchronous messages -/

/-- The message of a task is as long as `nLog` says, whatever `szLog` holds. -/
theorem log_put {logger : AppLogger} (hasync : logger.m_log_type = .ASYNC) (msgtype filename : Bytes) (line : Int)
    {text : Bytes} (stack : Bytes) (hpos : 0 < text.length) (hint : text.length < 2 ^ 31) :
    logger.log msgtype filename line text stack =
      (LogTask.new filename line msgtype ⟨szLog text, stack⟩ text.length >>= fun task =>
        return some (.put MSG_LOG_WRITE_TASK 0 0 task)) := by
  have hsome : (text.length : Int) > 0 := Int.natCast_pos.2 hpos
  simp only [log, vsnprintf_eq, if_pos hint, if_pos hsome, hasync]

/-- An empty text is dropped, and one too long for an `int`. -/
theorem log_dropped (logger : AppLogger) (msgtype filename : Bytes) (line : Int) {text : Bytes} (stack : Bytes)
    (h : text.length = 0 ∨ ¬ text.length < 2 ^ 31) : logger.log msgtype filename line text stack = pure none := by
  have hnone : ¬ (if text.length < 2 ^ 31 then (text.length : Int) else -1) > 0 := by
    split <;> omega
  simp only [log, vsnprintf_eq, if_neg hnone]

/-- The call puts a task that holds the formatted text into the queue, and reads only
`szLog` for it. -/
def EnqueuesText (text : Bytes) (call : Reading (Option LogAction)) : Prop :=
  (∃ task, call.value = some (.put MSG_LOG_WRITE_TASK 0 0 task) ∧
    task.m_message = text.take (min text.length 3999)) ∧ call.Within 0 4096

/-- The reads for a message leave `szLog` from 4097 bytes on. -/
theorem log_within_iff {logger : AppLogger} (hasync : logger.m_log_type = .ASYNC) (msgtype filename : Bytes)
    (line : Int) {text : Bytes} (stack : Bytes) (hpos : 0 < text.length) (hint : text.length < 2 ^ 31) :
    (logger.log msgtype filename line text stack).Within 0 4096 ↔ text.length ≤ 4096 := by
  have hreads : (logger.log msgtype filename line text stack).reads =
      (Reading.bytes ⟨szLog text, stack⟩ 0 text.length).reads := by
    rw [log_put hasync msgtype filename line stack hpos hint]
    change (_ ++ []) ++ [] = _
    rw [List.append_nil, List.append_nil]
    rfl
  rw [Reading.Within, hreads]
  exact Reading.within_bytes_iff

/-- The task holds the text, cut or not, only if `vsnprintf` has not cut it. -/
theorem log_enqueues_text_iff {logger : AppLogger} (hasync : logger.m_log_type = .ASYNC) (msgtype filename : Bytes)
    (line : Int) {text : Bytes} (stack : Bytes) (hpos : 0 < text.length) :
    EnqueuesText text (logger.log msgtype filename line text stack) ↔ text.length ≤ 3999 := by
  constructor
  · rintro ⟨⟨task, hput, hmessage⟩, -⟩
    by_cases hint : text.length < 2 ^ 31
    · rw [log_put hasync msgtype filename line stack hpos hint] at hput
      cases hput
      -- the message is as long as the whole text, so nothing can be missing
      have hlength := congrArg List.length hmessage
      rw [LogTask.new_message, Buffer.read_length, List.length_take] at hlength
      omega
    · rw [log_dropped logger msgtype filename line stack (.inr hint)] at hput
      cases hput
  · intro hle
    have hint : text.length < 2 ^ 31 := by omega
    have hwithin := (log_within_iff hasync msgtype filename line stack hpos hint).2 (by omega)
    refine ⟨⟨(LogTask.new filename line msgtype ⟨szLog text, stack⟩ text.length).value, ?_, ?_⟩, hwithin⟩
    · rw [log_put hasync msgtype filename line stack hpos hint]
      rfl
    · rw [LogTask.new_message, Int.toNat_natCast, read_szLog_short stack hle, Nat.min_eq_left hle, List.take_length]

theorem loggers_log {call : AppLogger → Bytes → Int → Bytes → Bytes → Reading (Option LogAction)} (h : call ∈ loggers) :
    ∃ msgtype, call = fun logger => logger.log msgtype := by
  simp only [loggers, List.mem_cons, List.not_mem_nil, or_false] at h
  rcases h with rfl | rfl | rfl | rfl | rfl | rfl
  all_goals exact ⟨_, rfl⟩

/-- Each of the six enqueues the formatted text, reading `szLog` only, exactly for the
texts that fit in. -/
theorem enqueues_text_iff {call : AppLogger → Bytes → Int → Bytes → Bytes → Reading (Option LogAction)}
    (hcall : call ∈ loggers) {logger : AppLogger} (hasync : logger.m_log_type = .ASYNC) (filename : Bytes) (line : Int)
    (text stack : Bytes) (hpos : 0 < text.length) :
    EnqueuesText text (call logger filename line text stack) ↔ text.length ≤ 3999 := by
  obtain ⟨msgtype, rfl⟩ := loggers_log hcall
  exact log_enqueues_text_iff hasync msgtype filename line stack hpos

theorem enqueues_text_iff_letter :
    EnqueuesText [0x41] (error {} (ascii "room.cpp") 759 [0x41] []) ↔ [(0x41 : UInt8)].length ≤ 3999 :=
  enqueues_text_iff (show error ∈ loggers by simp [loggers]) rfl (ascii "room.cpp") 759 [0x41] [] (by decide)

/-- A text of 4000 letters gives a task of 4000 bytes, the NUL among them; one of 4097
letters has a byte behind `szLog` read. -/
theorem not_enqueues_text :
    ¬ EnqueuesText (List.replicate 4000 0x41) (error {} (ascii "room.cpp") 759 (List.replicate 4000 0x41) []) ∧
      ¬ (error {} (ascii "room.cpp") 759 (List.replicate 4097 0x41) []).Within 0 4096 := by
  constructor
  · intro h
    have hle := (log_enqueues_text_iff rfl _ _ _ [] (by rw [List.length_replicate]; omega)).1 h
    rw [List.length_replicate] at hle
    omega
  · intro h
    have hle := (log_within_iff rfl _ _ _ [] (by rw [List.length_replicate]; omega)
      (by rw [List.length_replicate]; omega)).1 h
    rw [List.length_replicate] at hle
    omega

/-! ## What the log shows -/

theorem write_log_value (filename : Bytes) (linenumber : Int) (msgtype a b beyond : Bytes) :
    (write_log filename linenumber msgtype ⟨a ++ 0 :: b, beyond⟩).value =
      ⟨base_name (c_str filename), linenumber, c_str msgtype, c_str a⟩ := by
  change LogLine.mk _ _ _ (c_str (a ++ 0 :: b ++ beyond)) = _
  rw [c_str_block]

theorem log_written {logger : AppLogger} (hsync : logger.m_log_type = .SYNC) (msgtype filename : Bytes) (line : Int)
    {text : Bytes} (stack : Bytes) (hpos : 0 < text.length) (hint : text.length < 2 ^ 31) :
    logger.log msgtype filename line text stack =
      (write_log filename line msgtype ⟨szLog text, stack⟩ >>= fun line => return some (.written line)) := by
  have hsome : (text.length : Int) > 0 := Int.natCast_pos.2 hpos
  simp only [log, vsnprintf_eq, if_pos hint, if_pos hsome, hsync]

/-- In a synchronous call every read is in `szLog`. -/
theorem log_written_within {logger : AppLogger} (hsync : logger.m_log_type = .SYNC) (msgtype filename : Bytes)
    (line : Int) (text stack : Bytes) : (logger.log msgtype filename line text stack).Within 0 4096 := by
  by_cases h : text.length = 0 ∨ ¬ text.length < 2 ^ 31
  · rw [log_dropped logger msgtype filename line stack h]
    exact .pure none
  · rw [log_written hsync msgtype filename line stack (by omega) (by omega)]
    have hshown := within_shown (text.take 3999) (List.replicate (4095 - (text.take 3999).length) 0) stack
    rw [← szLog, szLog_length] at hshown
    exact (hshown.bind (.pure _)).bind (.pure _)

/-- The NUL that a long message holds ends it where `vsnprintf` has cut the text. -/
theorem c_str_read_szLog (text stack : Bytes) :
    c_str (Buffer.read ⟨szLog text, stack⟩ 0 text.length) = c_str (text.take 3999) := by
  by_cases hle : text.length ≤ 3999
  · rw [read_szLog_short stack hle, List.take_of_length_le hle]
  · obtain ⟨rest, hrest⟩ := read_szLog_long stack (Nat.lt_of_not_le hle)
    rw [hrest, c_str_append_zero]

theorem handle_msg_new (filename : Bytes) (line : Int) (msgtype text stack : Bytes) :
    (handle_msg MSG_LOG_WRITE_TASK (LogTask.new filename line msgtype ⟨szLog text, stack⟩ text.length).value).value =
      some (write_log filename line msgtype ⟨szLog text, stack⟩).value := by
  have hsync : (write_log filename line msgtype ⟨szLog text, stack⟩).value =
      ⟨base_name (c_str filename), line, c_str msgtype, c_str (text.take 3999)⟩ := by
    rw [szLog]
    exact write_log_value filename line msgtype _ _ stack
  change some (write_log (c_str filename) line (c_str msgtype)
    ⟨Buffer.read ⟨szLog text, stack⟩ 0 text.length ++ [0], []⟩).value = _
  rw [write_log_value, hsync, c_str_read_szLog, c_str_c_str, c_str_c_str]

/-- Both modes come to the same lines, whatever the length. -/
theorem async_writes_sync (msgtype filename : Bytes) (line : Int) (text stack : Bytes) :
    ((AppLogger.mk .ASYNC).log msgtype filename line text stack).value.bind LogAction.line =
      ((AppLogger.mk .SYNC).log msgtype filename line text stack).value.bind LogAction.line := by
  by_cases h : text.length = 0 ∨ ¬ text.length < 2 ^ 31
  · rw [log_dropped _ msgtype filename line stack h, log_dropped _ msgtype filename line stack h]
  · have hpos : 0 < text.length := by omega
    have hint : text.length < 2 ^ 31 := by omega
    rw [log_put rfl msgtype filename line stack hpos hint, log_written rfl msgtype filename line stack hpos hint]
    exact handle_msg_new filename line msgtype text stack

end AppLogger

end RtcClient
