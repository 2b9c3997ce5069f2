import Mathlib.Logic.Function.Basic
import RtcClient.Common.Logger
import RtcClient.Common.Strings
import RtcClient.Lib.Ring
import RtcClient.Lib.Runs
/-!
# The log files

`write_log` prints its lines into files that are numbered from 1 to `m_max_file_count`. When
a file has grown beyond the size it goes on with the next number, and what was there is lost.
The files are a ring that holds the end of what has been printed (`log_retained`).
-/

namespace RtcClient

open Lib

/-! ## The model -/

/-- The date in `tmnow`. -/
structure LogDate where
  tm_year : Int
  tm_mon : Int
  tm_mday : Int
deriving DecidableEq, Repr

/-- What `initialize` sets. There is at least one file. -/
structure LogConfig where
  m_prefix_name : Bytes
  m_log_directory : Bytes
  m_is_daily : Bool
  m_max_size : Int
  m_max_file_count : Nat
  count_pos : 0 < m_max_file_count

/-- The fields that choose the file, and what is in the directory. `m_file` is the path of the file that is open. -/
structure LogFiles where
  m_day : Int := 0
  m_seq : Nat := 0
  m_log_file_path : Bytes := []
  m_file : Option Bytes := none
  m_printed_size : Int := 0
  disk : Bytes → Option Bytes

/-- A line with what the system says: the time, the thread, and whether a file can be opened. -/
structure LogWrite where
  date : LogDate
  szNow : Bytes
  tid : Nat
  opened : Bool
  line : LogLine
deriving DecidableEq, Repr

/-- What `fprintf` prints. -/
def LogWrite.text (w : LogWrite) : Bytes :=
  w.szNow ++ w.line.msgtype ++ ascii "[" ++ common_to_string w.tid ++ ascii "] " ++ w.line.pFileName ++ ascii "(" ++
    common_to_string w.line.linenumber ++ ascii "):\t\t" ++ w.line.strMessage ++ ascii "\r\n"

namespace LogConfig

variable (config : LogConfig)

/-- `m_max_size * 1024`, which is an `int`. -/
def max_bytes : Int := int32 (config.m_max_size * 1024)

/-- `%.2d`. -/
def two_digits (value : Int) : Bytes :=
  if value < 10 then ascii "0" ++ common_to_string value else common_to_string value

/-- `strLogFile`. -/
def log_file (date : LogDate) (m_seq : Nat) : Bytes :=
  let day := ascii "-" ++ common_to_string (date.tm_year + 1900) ++ ascii "-" ++ two_digits (date.tm_mon + 1) ++
    ascii "-" ++ two_digits date.tm_mday
  config.m_log_directory ++ ascii "/" ++ c_str config.m_prefix_name ++ (if config.m_is_daily then day else []) ++
    ascii "." ++ common_to_string m_seq ++ ascii ".log"

/-- The first number without a file, or 1 if all have one. The fuel is enough for one round. -/
def find_seq (exist : Nat → Bool) : Nat → Nat → Bool → Nat
  | 0, m_seq, _ => m_seq
  | fuel + 1, m_seq, bLoop =>
    let m_seq := m_seq % config.m_max_file_count + 1
    if bLoop then m_seq
    else if !exist m_seq then m_seq
    else find_seq exist fuel m_seq (m_seq = config.m_max_file_count)

/-- Another day has begun. -/
def new_day (s : LogFiles) (date : LogDate) : Bool := config.m_is_daily && s.m_day != date.tm_mday

/-- The number of the next file. Only the first file is looked for. -/
def next_seq (s : LogFiles) (date : LogDate) : Nat :=
  let m_seq := if config.new_day s date || decide (s.m_seq > config.m_max_file_count) then 0 else s.m_seq
  if s.m_log_file_path = [] then
    config.find_seq (fun seq => (s.disk (config.log_file date seq)).isSome) (config.m_max_file_count + 1) m_seq false
  else m_seq % config.m_max_file_count + 1

/-- Another file is opened. -/
def rotate (s : LogFiles) (date : LogDate) (opened : Bool) : LogFiles :=
  let m_seq := config.next_seq s date
  let path := config.log_file date m_seq
  let s := { s with
    m_seq := m_seq
    m_log_file_path := path
    m_file := none
    m_printed_size := if s.m_file.isSome then 0 else s.m_printed_size }
  if opened then
    { s with
      m_file := some path
      m_printed_size := 0
      m_day := date.tm_mday
      disk := Function.update s.disk path (some []) }
  else s

/-- `write_log`, once the line is known. -/
def write (s : LogFiles) (w : LogWrite) : LogFiles :=
  let s :=
    if config.new_day s w.date || decide (s.m_printed_size > config.max_bytes) ||
        decide (s.m_seq > config.m_max_file_count) || s.m_file.isNone then
      config.rotate s w.date w.opened
    else s
  match s.m_file with
  | none => s
  | some path =>
    { s with
      disk := Function.update s.disk path ((s.disk path).map (· ++ w.text))
      m_printed_size := s.m_printed_size + w.text.length }

def step (s : LogFiles) (w : LogWrite) : LogFiles × Unit := (config.write s w, ())

/-! ## Names and numbers -/

variable {config}

theorem log_file_inj {date : LogDate} {p q : Nat} (h : config.log_file date p = config.log_file date q) : p = q :=
  common_to_string_inj (List.append_cancel_left (List.append_cancel_right h))

theorem log_file_ne_nil (date : LogDate) (m_seq : Nat) : config.log_file date m_seq ≠ [] := by
  have hlog : ascii ".log" ≠ [] := by decide
  exact List.append_ne_nil_of_right_ne_nil _ hlog

theorem log_file_same {date date' : LogDate} (h : config.m_is_daily = true → date' = date) (m_seq : Nat) :
    config.log_file date' m_seq = config.log_file date m_seq := by
  cases hd : config.m_is_daily with
  | true => rw [h hd]
  | false => simp only [log_file, hd, Bool.false_eq_true, if_false]

theorem find_seq_le (exist : Nat → Bool) (fuel m_seq : Nat) (bLoop : Bool) :
    1 ≤ config.find_seq exist (fuel + 1) m_seq bLoop ∧
      config.find_seq exist (fuel + 1) m_seq bLoop ≤ config.m_max_file_count := by
  have hnext : 1 ≤ m_seq % config.m_max_file_count + 1 ∧
      m_seq % config.m_max_file_count + 1 ≤ config.m_max_file_count :=
    Ring.next_le config.count_pos m_seq
  induction fuel generalizing m_seq bLoop with
  | zero =>
    rw [find_seq]
    split_ifs <;> exact hnext
  | succ fuel ih =>
    rw [find_seq]
    split_ifs
    · exact hnext
    · exact hnext
    · exact ih _ _ (Ring.next_le config.count_pos _)

/-! ## What is kept -/

/-- The size beyond which a file is not continued. -/
def limit (config : LogConfig) : Nat := config.max_bytes.toNat

/-- The files of a day, newest first, hold what has been printed: each but the newest has grown beyond the size, and
none by more than a line. -/
structure Kept (config : LogConfig) (date : LogDate) (s : LogFiles) (texts : List Bytes) (newest : Bytes)
    (older : List Bytes) : Prop where
  file : s.m_file = some (config.log_file date s.m_seq)
  path : s.m_log_file_path ≠ []
  day : config.m_is_daily = true → s.m_day = date.tm_mday
  printed : s.m_printed_size = newest.length
  ring : Ring.Holds config.m_max_file_count (fun seq => s.disk (config.log_file date seq)) s.m_seq (newest :: older)
  whole : (newest :: older).reverse.flatten = texts.flatten
  full : ∀ file ∈ older, config.max_bytes < file.length
  short : ∀ file ∈ newest :: older, ∃ text ∈ texts, file.length ≤ config.limit + text.length

theorem same_day {s : LogFiles} {date : LogDate} (h : config.m_is_daily = true → s.m_day = date.tm_mday) :
    config.new_day s date = false := by
  rw [new_day]
  cases hd : config.m_is_daily with
  | true =>
    rw [h hd, bne_self_eq_false]
    rfl
  | false => rfl

/-- Another file is opened for a line. -/
theorem write_rotates {s : LogFiles} {w : LogWrite} (hopened : w.opened = true)
    (h : s.m_printed_size > config.max_bytes ∨ s.m_file = none) :
    config.write s w =
      { m_seq := config.next_seq s w.date
        m_log_file_path := config.log_file w.date (config.next_seq s w.date)
        m_file := some (config.log_file w.date (config.next_seq s w.date))
        m_printed_size := w.text.length
        m_day := w.date.tm_mday
        disk := Function.update s.disk (config.log_file w.date (config.next_seq s w.date)) (some w.text) } := by
  have hrotate : (config.new_day s w.date || decide (s.m_printed_size > config.max_bytes) ||
      decide (s.m_seq > config.m_max_file_count) || s.m_file.isNone) = true := by
    rcases h with h | h <;> simp [h]
  rw [write, if_pos hrotate, rotate, hopened]
  simp

/-- A line is added to the file. -/
theorem write_adds {s : LogFiles} {w : LogWrite} {path : Bytes} (hfile : s.m_file = some path)
    (hday : config.m_is_daily = true → s.m_day = w.date.tm_mday)
    (hsize : s.m_printed_size ≤ config.max_bytes) (hseq : s.m_seq ≤ config.m_max_file_count) :
    config.write s w =
      { s with
        disk := Function.update s.disk path ((s.disk path).map (· ++ w.text))
        m_printed_size := s.m_printed_size + w.text.length } := by
  have hstay : (config.new_day s w.date || decide (s.m_printed_size > config.max_bytes) ||
      decide (s.m_seq > config.m_max_file_count) || s.m_file.isNone) = false := by
    simp [same_day hday, hfile, Int.not_lt.2 hsize, Nat.not_lt.2 hseq]
  rw [write, hstay, if_neg Bool.false_ne_true, hfile]

/-- The first line is the first of a file. -/
theorem first_kept {disk : Bytes → Option Bytes} {date : LogDate} {w : LogWrite}
    (hdate : config.m_is_daily = true → w.date = date) (hopened : w.opened = true) :
    Kept config date (config.write { disk := disk } w) [w.text] w.text [] := by
  rw [write_rotates hopened (.inr rfl), log_file_same hdate]
  have hseq : 1 ≤ config.next_seq { disk := disk } w.date ∧
      config.next_seq { disk := disk } w.date ≤ config.m_max_file_count := by
    rw [next_seq, if_pos rfl]
    exact find_seq_le _ config.m_max_file_count _ _
  exact {
    file := rfl
    path := log_file_ne_nil date _
    day := fun hd => by rw [hdate hd]
    printed := rfl
    ring := .single hseq (Function.update_self _ _ _)
    whole := rfl
    full := by simp
    short := by simp }

theorem Kept.day_of {date : LogDate} {s : LogFiles} {texts older : List Bytes} {newest : Bytes}
    (h : Kept config date s texts newest older) {w : LogWrite} (hdate : config.m_is_daily = true → w.date = date) :
    config.m_is_daily = true → s.m_day = w.date.tm_mday := by
  intro hd
  rw [h.day hd, hdate hd]

/-- The newest file has its size: the line is the first of another one. -/
theorem Kept.rotates {date : LogDate} {s : LogFiles} {texts older : List Bytes} {newest : Bytes}
    (h : Kept config date s texts newest older) {w : LogWrite} (hdate : config.m_is_daily = true → w.date = date)
    (hopened : w.opened = true) (hsize : config.max_bytes < s.m_printed_size) :
    Kept config date (config.write s w) (texts ++ [w.text]) w.text (newest :: older) := by
  have hseq : config.next_seq s w.date = Ring.next config.m_max_file_count s.m_seq := by
    have hkeep : (config.new_day s w.date || decide (s.m_seq > config.m_max_file_count)) = false := by
      rw [same_day (h.day_of hdate), decide_eq_false (Nat.not_lt.2 h.ring.place.2)]
      rfl
    rw [next_seq, hkeep, if_neg Bool.false_ne_true, if_neg h.path, Ring.next]
  rw [write_rotates hopened (.inl hsize), hseq, log_file_same hdate]
  exact {
    file := rfl
    path := log_file_ne_nil date _
    day := fun hd => by rw [hdate hd]
    printed := rfl
    ring := h.ring.push (Function.update_self _ _ _) fun seq _ _ hne =>
      Function.update_of_ne (fun he => hne (log_file_inj he)) _ _
    whole := by
      rw [List.reverse_cons, List.flatten_append, h.whole, List.flatten_append]
    full := by
      rw [List.forall_mem_cons]
      exact ⟨h.printed ▸ hsize, h.full⟩
    short := by
      rw [List.forall_mem_cons]
      refine ⟨⟨w.text, by simp, by omega⟩, fun file hfile => ?_⟩
      obtain ⟨text, ht, hle⟩ := h.short file hfile
      exact ⟨text, List.mem_append_left _ ht, hle⟩ }

/-- Otherwise it is added to the newest file. -/
theorem Kept.adds {date : LogDate} {s : LogFiles} {texts older : List Bytes} {newest : Bytes}
    (h : Kept config date s texts newest older) {w : LogWrite} (hdate : config.m_is_daily = true → w.date = date)
    (hsize : s.m_printed_size ≤ config.max_bytes) :
    Kept config date (config.write s w) (texts ++ [w.text]) (newest ++ w.text) older := by
  have hnow : s.disk (config.log_file date s.m_seq) = some newest := by
    have hheld := h.ring.held 0 (Nat.lt_of_lt_of_le h.ring.place.1 h.ring.place.2) newest rfl
    rwa [Ring.back_zero h.ring.place] at hheld
  have hlength : newest.length ≤ config.limit := by
    have hle := hsize
    rw [h.printed] at hle
    rw [limit]
    omega
  rw [write_adds h.file (h.day_of hdate) hsize h.ring.place.2, hnow]
  exact {
    file := h.file
    path := h.path
    day := h.day
    printed := by
      show s.m_printed_size + _ = _
      rw [h.printed, List.length_append, Int.natCast_add]
    ring := h.ring.replace (Function.update_self _ _ _) fun seq _ _ hne =>
      Function.update_of_ne (fun he => hne (log_file_inj he)) _ _
    whole := by
      have hwhole := h.whole
      simp only [List.reverse_cons, List.flatten_append, List.flatten_cons, List.flatten_nil,
        List.append_nil] at hwhole ⊢
      rw [← hwhole, List.append_assoc]
    full := h.full
    short := by
      rw [List.forall_mem_cons]
      refine ⟨⟨w.text, by simp, ?_⟩, fun file hfile => ?_⟩
      · rw [List.length_append]
        exact Nat.add_le_add_right hlength _
      · obtain ⟨text, ht, hle⟩ := h.short file (List.mem_cons_of_mem _ hfile)
        exact ⟨text, List.mem_append_left _ ht, hle⟩ }

theorem Kept.write {date : LogDate} {s : LogFiles} {texts older : List Bytes} {newest : Bytes}
    (h : Kept config date s texts newest older) {w : LogWrite} (hdate : config.m_is_daily = true → w.date = date)
    (hopened : w.opened = true) :
    ∃ newest older, Kept config date (config.write s w) (texts ++ [w.text]) newest older := by
  rcases Int.lt_or_le (config.max_bytes) s.m_printed_size with hsize | hsize
  · exact ⟨_, _, h.rotates hdate hopened hsize⟩
  · exact ⟨_, _, h.adds hdate hsize⟩

/-- All the further lines are kept. -/
theorem Kept.run {date : LogDate} {s : LogFiles} {texts older : List Bytes} {newest : Bytes}
    (h : Kept config date s texts newest older) (writes : List LogWrite)
    (hdate : ∀ w ∈ writes, config.m_is_daily = true → w.date = date) (hopened : ∀ w ∈ writes, w.opened = true) :
    ∃ newest older, Kept config date (final config.step s writes) (texts ++ writes.map LogWrite.text) newest older := by
  induction writes generalizing s texts newest older with
  | nil => exact ⟨newest, older, by rwa [List.map_nil, List.append_nil]⟩
  | cons w writes ih =>
    rw [List.forall_mem_cons] at hdate hopened
    obtain ⟨newest', older', h'⟩ := h.write hdate.1 hopened.1
    obtain ⟨newest'', older'', h''⟩ := ih h' hdate.2 hopened.2
    rw [List.append_assoc] at h''
    exact ⟨newest'', older'', h''⟩

end LogConfig

open LogConfig in
/-- Lines are printed on one day, by a logger that has just been initialised, and the files can be opened. The files
hold what has been printed: one after the other they are all of it, and the last ones, as many as there may be, can
still be read under their numbers. No file is given up before it has its size, and none has more than a line beyond. -/
theorem log_retained (config : LogConfig) (disk : Bytes → Option Bytes) (date : LogDate) {writes : List LogWrite}
    (hne : writes ≠ []) (hdate : ∀ w ∈ writes, config.m_is_daily = true → w.date = date)
    (hopened : ∀ w ∈ writes, w.opened = true) :
    let s := final config.step { disk := disk } writes
    ∃ newest older, (newest :: older).reverse.flatten = writes.flatMap LogWrite.text ∧
      (∀ i < config.m_max_file_count, ∀ file, (newest :: older)[i]? = some file →
        s.disk (config.log_file date (Ring.back config.m_max_file_count s.m_seq i)) = some file) ∧
      (∀ file ∈ older, config.max_bytes < file.length) ∧
      ∀ file ∈ newest :: older, ∃ w ∈ writes, file.length ≤ config.max_bytes.toNat + w.text.length := by
  obtain ⟨first, rest, rfl⟩ := List.exists_cons_of_ne_nil hne
  rw [List.forall_mem_cons] at hdate hopened
  have hfirst := (@first_kept _ disk) hdate.1 hopened.1
  obtain ⟨newest, older, h⟩ := hfirst.run rest hdate.2 hopened.2
  refine ⟨newest, older, h.whole, h.ring.held, h.full, fun file hfile => ?_⟩
  obtain ⟨text, ht, hle⟩ := h.short file hfile
  have hmem : text ∈ (first :: rest).map LogWrite.text := ht
  obtain ⟨w, hw, rfl⟩ := List.mem_map.1 hmem
  exact ⟨w, hw, hle⟩

/-- Two files of 0 kilobytes each. -/
def sampleLog : LogConfig := ⟨ascii "app", ascii "log", false, 0, 2, by decide⟩

def sampleWrite (linenumber : Nat) : LogWrite :=
  ⟨⟨125, 0, 31⟩, ascii "[25-01-31 12:00:00]", 7, true, ⟨ascii "main.cpp", linenumber, ascii "[INFO]", ascii "ready"⟩⟩

theorem log_retained_three :
    let writes := [sampleWrite 1, sampleWrite 2, sampleWrite 3]
    let s := final sampleLog.step { disk := fun _ => none } writes
    ∃ newest older, (newest :: older).reverse.flatten = writes.flatMap LogWrite.text ∧
      (∀ i < sampleLog.m_max_file_count, ∀ file, (newest :: older)[i]? = some file →
        s.disk (sampleLog.log_file ⟨125, 0, 31⟩ (Ring.back sampleLog.m_max_file_count s.m_seq i)) = some file) ∧
      (∀ file ∈ older, sampleLog.max_bytes < file.length) ∧
      ∀ file ∈ newest :: older, ∃ w ∈ writes,
        file.length ≤ sampleLog.max_bytes.toNat + w.text.length :=
  log_retained sampleLog (fun _ => none) ⟨125, 0, 31⟩ (List.cons_ne_nil _ _) (by simp [sampleLog])
    (by simp [sampleWrite])

end RtcClient
