import RtcClient.Common.JsonReader
import RtcClient.Common.Strings
/-!
# What the readers of tokens take

Each of them in terms of the text from the cursor on, whatever that is: what it takes,
what it makes of it and where it stops.
-/

namespace RtcClient.JsonObject

open Lib

/-! ## The cursor -/

theorem ok_bind {α β : Type} (a : α) (f : α → Except Stop β) : (Except.ok a >>= f) = f a := rfl

theorem of_bind_ok {A B : Type} {x : Except Stop A} {f : A → Except Stop B} {b : B} (h : (x >>= f) = .ok b) :
    ∃ a, x = .ok a ∧ f a = .ok b := by
  cases x with
  | error e => cases h
  | ok a => exact ⟨a, rfl, h⟩

/-- From the cursor on, the text is `rest`. -/
structure At (str : Bytes) (pos : Nat) (rest : Bytes) : Prop where
  drop : str.drop pos = rest
  length : pos + rest.length = str.length

section
variable {str : Bytes} {pos : Nat} {c : UInt8} {rest : Bytes}

theorem At.start (str : Bytes) : At str 0 str := ⟨rfl, Nat.zero_add _⟩

theorem At.char (h : At str pos (c :: rest)) : charAt str pos = c := by
  have hd : (str.drop pos)[0]? = str[pos + 0]? := List.getElem?_drop
  rw [h.drop, Nat.add_zero] at hd
  rw [charAt, List.getD_eq_getElem?_getD, ← hd]
  rfl

theorem At.lt (h : At str pos (c :: rest)) : pos < str.length := by
  have := h.length
  simp only [List.length_cons] at this
  omega

theorem At.advance {a : Bytes} (h : At str pos (a ++ rest)) : At str (pos + a.length) rest := by
  refine ⟨?_, ?_⟩
  · rw [← List.drop_drop, h.drop, List.drop_left]
  · have := h.length
    rw [List.length_append] at this
    omega

theorem At.next (h : At str pos (c :: rest)) : At str (pos + 1) rest := At.advance (a := [c]) h

theorem uint32_of_lt {n : Nat} (h : n < 2 ^ 32) : uint32 n = n := Nat.mod_eq_of_lt h

theorem At.uint32 (h : At str pos rest) (hs : str.length < 2 ^ 32) : uint32 pos = pos := by
  have := h.length
  exact uint32_of_lt (by omega)

theorem At.left (h : At str pos rest) (hs : str.length < 2 ^ 32) : size_left str pos = rest.length := by
  have := h.length
  unfold size_left
  omega

end

/-! ## Whitespace -/

def Blank (g : Bytes) : Prop := ∀ c ∈ g, isBlank c = true

/-- The text behind the whitespace at its beginning. -/
def skip (rest : Bytes) : Bytes := rest.dropWhile isBlank

/-- Whitespace is not skipped here. -/
def Dense (rest : Bytes) : Prop := ∀ c ∈ rest.head?, isBlank c = false

theorem blank_nil : Blank [] := by
  intro c hc
  cases hc

theorem Blank.append {g g' : Bytes} (h : Blank g) (h' : Blank g') : Blank (g ++ g') := by
  intro c hc
  rcases List.mem_append.1 hc with hc | hc
  · exact h c hc
  · exact h' c hc

theorem skip_dense {rest : Bytes} (h : Dense rest) : skip rest = rest := by
  cases rest with
  | nil => rfl
  | cons c rest =>
    apply List.dropWhile_cons_of_neg
    rw [h c rfl]
    exact Bool.false_ne_true

theorem skip_append {g : Bytes} (hg : Blank g) (rest : Bytes) : skip (g ++ rest) = skip rest := by
  induction g with
  | nil => rfl
  | cons c g ih =>
    rw [List.cons_append, skip, List.dropWhile_cons_of_pos (hg c (by simp))]
    exact ih fun d hd => hg d (by simp [hd])

theorem dense_skip (rest : Bytes) : Dense (skip rest) := by
  intro c hc
  have h := List.head?_dropWhile_not isBlank rest
  unfold skip at hc
  rw [Option.mem_def.1 hc] at h
  simpa using h

theorem skip_skip (rest : Bytes) : skip (skip rest) = skip rest := skip_dense (dense_skip rest)

/-- A text is the whitespace at its beginning and the rest. -/
theorem exists_skip (rest : Bytes) : ∃ g, Blank g ∧ rest = g ++ skip rest :=
  ⟨rest.takeWhile isBlank, fun _ hc => List.mem_takeWhile_imp hc, List.takeWhile_append_dropWhile.symm⟩

section
variable {str : Bytes} {pos : Nat} {rest : Bytes}

theorem whitespace_loop_skip {fuel : Nat} (h : At str pos rest) (hs : str.length < 2 ^ 32) (hf : rest.length < fuel) :
    ∃ pos', whitespace_loop str fuel pos = .ok pos' ∧ At str pos' (skip rest) := by
  induction rest generalizing pos fuel with
  | nil =>
    obtain ⟨fuel, rfl⟩ : ∃ n, fuel = n + 1 := ⟨fuel - 1, by omega⟩
    have hend := h.length
    rw [List.length_nil] at hend
    rw [whitespace_loop, if_neg (by omega)]
    exact ⟨pos, rfl, h⟩
  | cons c rest ih =>
    obtain ⟨fuel, rfl⟩ : ∃ n, fuel = n + 1 := ⟨fuel - 1, by omega⟩
    rw [whitespace_loop, if_pos h.lt, h.char]
    by_cases hc : isBlank c = true
    · rw [if_pos hc, h.next.uint32 hs, skip, List.dropWhile_cons_of_pos hc]
      rw [List.length_cons] at hf
      exact ih h.next (by omega)
    · rw [if_neg hc, skip, List.dropWhile_cons_of_neg hc]
      exact ⟨pos, rfl, h⟩

theorem read_whitespace_skip (h : At str pos rest) (hs : str.length < 2 ^ 32) :
    ∃ pos', read_whitespace str pos = .ok pos' ∧ At str pos' (skip rest) := by
  have hlen := h.length
  exact whitespace_loop_skip h hs (by omega)

theorem At.nil_le (h : At str pos []) : str.length ≤ pos := Nat.le_of_eq h.length.symm

theorem charAt_end (h : At str pos []) : charAt str pos = 0 := by
  rw [charAt, List.getD_eq_getElem?_getD, List.getElem?_eq_none h.nil_le]
  rfl

theorem read_whitespace_dense (h : At str pos rest) (hd : Dense rest) : read_whitespace str pos = .ok pos := by
  unfold read_whitespace whitespace_loop
  cases rest with
  | nil =>
    have := h.length
    rw [if_neg (by simp at this; omega)]
  | cons c rest => rw [if_pos h.lt, h.char, hd c rfl, if_neg (by simp)]

theorem read_delimiter_dense {c : UInt8} (h : At str pos (c :: rest)) (hs : str.length < 2 ^ 32)
    (hc : isBlank c = false) (hd : Dense rest) : read_delimiter str pos = .ok (c, pos + 1) := by
  have hleft : ¬ (c :: rest).length < 1 := by simp
  unfold read_delimiter
  rw [read_whitespace_dense h (by intro d hd'; cases hd'; exact hc), ok_bind, h.left hs]
  dsimp only
  rw [if_neg hleft, h.char, h.next.uint32 hs, read_whitespace_dense h.next hd]
  rfl

/-- A delimiter is taken with the whitespace on both sides. -/
theorem read_delimiter_skip {c : UInt8} {after : Bytes} (h : At str pos rest) (hs : str.length < 2 ^ 32)
    (hrest : skip rest = c :: after) :
    ∃ pos', read_delimiter str pos = .ok (c, pos') ∧ At str pos' (skip after) := by
  obtain ⟨pos₁, hwhite₁, h₁⟩ := read_whitespace_skip h hs
  rw [hrest] at h₁
  obtain ⟨pos₂, hwhite₂, h₂⟩ := read_whitespace_skip h₁.next hs
  refine ⟨pos₂, ?_, h₂⟩
  unfold read_delimiter
  rw [hwhite₁, ok_bind]
  dsimp only
  rw [h₁.left hs, if_neg (by simp), h₁.char, h₁.next.uint32 hs, hwhite₂]
  rfl

theorem read_delimiter_end (h : At str pos rest) (hs : str.length < 2 ^ 32) (hrest : skip rest = []) :
    read_delimiter str pos = .error .refused := by
  obtain ⟨pos', hwhite, h'⟩ := read_whitespace_skip h hs
  rw [hrest] at h'
  unfold read_delimiter
  rw [hwhite, ok_bind]
  dsimp only
  rw [h'.left hs, if_pos (by simp)]
  rfl

theorem read_delimiter_ok {c : UInt8} {next : Nat} (h : At str pos rest) (hs : str.length < 2 ^ 32)
    (hread : read_delimiter str pos = .ok (c, next)) :
    ∃ gap gap' after, Blank gap ∧ Blank gap' ∧ rest = gap ++ c :: (gap' ++ after) ∧ At str next after := by
  obtain ⟨gap, hgap, hrest⟩ := exists_skip rest
  cases hskip : skip rest with
  | nil =>
    rw [read_delimiter_end h hs hskip] at hread
    cases hread
  | cons d tail =>
    obtain ⟨pos', hread', hnext⟩ := read_delimiter_skip h hs hskip
    rw [hread'] at hread
    cases hread
    obtain ⟨gap', hgap', htail⟩ := exists_skip tail
    refine ⟨gap, gap', skip tail, hgap, hgap', ?_, hnext⟩
    rw [← htail, ← hskip]
    exact hrest

/-! ## Strings -/

/-- Every quote is behind a backslash. -/
def Hidden (s : Bytes) : Prop := s.IsChain (fun a b => b = quote → a = backslash)

/-- The search for the end of a string that begins here stops right behind it. -/
def Closes (raw : Bytes) : Prop := Hidden (quote :: raw) ∧ (quote :: raw).getLast? ≠ some backslash

theorem find_char_next {c d : UInt8} (h : At str pos (d :: rest)) (hd : d ≠ c) :
    find_char str c pos = find_char str c (pos + 1) := by
  unfold find_char
  rw [h.drop, h.next.drop, List.findIdx?_cons, beq_false_of_ne hd]
  cases List.findIdx? (fun x => x == c) rest with
  | none => rfl
  | some i => simp only [Option.map_some, Bool.false_eq_true, if_false]; congr 1; omega

theorem find_char_here {c : UInt8} (h : At str pos (c :: rest)) : find_char str c pos = some pos := by
  unfold find_char
  rw [h.drop, List.findIdx?_cons, beq_self_eq_true]
  rfl

theorem find_char_some {c : UInt8} {q : Nat} (h : find_char str c pos = some q) : pos ≤ q ∧ q < str.length := by
  unfold find_char at h
  obtain ⟨i, hi, rfl⟩ := Option.map_eq_some_iff.1 h
  have hlt := (List.findIdx?_eq_some_iff_findIdx_eq.1 hi).1
  rw [List.length_drop] at hlt
  omega

theorem string_loop_next {start fuel : Nat} {d : UInt8} (h : At str pos (d :: rest)) (hd : d ≠ quote) :
    string_loop str start (fuel + 1) pos = string_loop str start (fuel + 1) (pos + 1) := by
  rw [string_loop, string_loop, find_char_next h hd]

/-- The search stops behind a text with hidden quotes, unless the text hides the closing one as well. -/
theorem string_loop_hidden (start : Nat) {fuel : Nat} {body : Bytes} (hhidden : Hidden (charAt str (pos - 1) :: body))
    (h : At str pos (body ++ quote :: rest)) (hf : body.length < fuel) :
    ∃ fuel', string_loop str start fuel pos =
      if (charAt str (pos - 1) :: body).getLast? = some backslash then
        string_loop str start fuel' (pos + body.length + 1)
      else .ok ((str.drop start).take (pos + body.length - start), uint32 (pos + body.length + 1)) := by
  induction body generalizing pos fuel with
  | nil =>
    obtain ⟨fuel, rfl⟩ : ∃ n, fuel = n + 1 := ⟨fuel - 1, by omega⟩
    refine ⟨fuel, ?_⟩
    rw [string_loop, find_char_here h]
    simp
  | cons d body ih =>
    obtain ⟨fuel, rfl⟩ : ∃ n, fuel = n + 1 := ⟨fuel - 1, by omega⟩
    obtain ⟨hfirst, hlater⟩ := List.isChain_cons_cons.1 hhidden
    have hchar : charAt str (pos + 1 - 1) = d := by rw [Nat.add_sub_cancel, At.char h]
    have hnext : At str (pos + 1) (body ++ quote :: rest) := At.next h
    rw [List.length_cons] at hf
    -- the search goes on behind the character
    have hgo : ∃ n, body.length < n ∧ string_loop str start (fuel + 1) pos = string_loop str start n (pos + 1) := by
      by_cases hd : d = quote
      · subst hd
        refine ⟨fuel, by omega, ?_⟩
        rw [string_loop, find_char_here h]
        exact if_pos (hfirst rfl)
      · exact ⟨fuel + 1, by omega, string_loop_next h hd⟩
    obtain ⟨n, hn, hgo⟩ := hgo
    obtain ⟨fuel', hloop⟩ := ih (by rw [hchar]; exact hlater) hnext hn
    refine ⟨fuel', ?_⟩
    rw [hgo, hloop, hchar, List.getLast?_cons_cons, List.length_cons,
      show pos + 1 + body.length = pos + (body.length + 1) by omega]

theorem read_string_loop (h : At str pos (quote :: rest)) (hrest : rest ≠ []) (hsize : str.length < 2 ^ 64) :
    read_string str pos =
      (string_loop str (uint32 (pos + 1)) (str.length + 1) (uint32 (pos + 1)) >>=
        fun r => .ok (.T_STRING (unescape_string r.1), r.2)) := by
  have hleft : ¬ size_left str pos < 2 := by
    have := h.length
    have := List.length_pos_iff.2 hrest
    rw [List.length_cons] at *
    unfold size_left
    omega
  unfold read_string
  dsimp only
  rw [if_neg hleft, h.char, if_neg (by simp)]
  rfl

/-- A string without quotes and backslashes. -/
theorem closes_plain {raw : Bytes} (hq : quote ∉ raw) (hb : backslash ∉ raw) : Closes raw := by
  have hhidden : ∀ c, Hidden (c :: raw) := by
    induction raw with
    | nil => exact fun c => List.IsChain.singleton c
    | cons d raw ih =>
      rw [List.mem_cons, not_or] at hq hb
      exact fun c => List.isChain_cons_cons.2 ⟨fun h => absurd h.symm hq.1, ih hq.2 hb.2 d⟩
  refine ⟨hhidden quote, fun hlast => ?_⟩
  rcases List.mem_cons.1 (List.mem_of_getLast? hlast) with h | h
  · exact absurd h (by decide)
  · exact hb h

theorem read_string_closed {raw : Bytes} (hraw : Closes raw) (h : At str pos (quote :: (raw ++ quote :: rest)))
    (hs : str.length < 2 ^ 32) :
    read_string str pos = .ok (.T_STRING (unescape_string raw), pos + raw.length + 2) := by
  have hnext := h.next
  have hprev : charAt str (pos + 1 - 1) = quote := h.char
  have hlen := hnext.length
  rw [List.length_append, List.length_cons] at hlen
  have hfuel : raw.length < str.length + 1 := by omega
  obtain ⟨fuel, hloop⟩ := string_loop_hidden (pos + 1) (by rw [hprev]; exact hraw.1) hnext hfuel
  rw [read_string_loop h (by simp) (by omega), hnext.uint32 hs, hloop, hprev, if_neg hraw.2, ok_bind, hnext.drop,
    Nat.add_sub_cancel_left, List.take_left, uint32_of_lt (by omega),
    show pos + 1 + raw.length + 1 = pos + raw.length + 2 by omega]

/-- What the search has passed when it stops. -/
theorem string_loop_passed {start fuel : Nat} {value : Bytes} {next : Nat} (h : At str pos rest)
    (hloop : string_loop str start fuel pos = .ok (value, next)) :
    ∃ raw after, rest = raw ++ quote :: after ∧ Hidden (charAt str (pos - 1) :: raw) ∧
      (charAt str (pos - 1) :: raw).getLast? ≠ some backslash ∧
      value = (str.drop start).take (pos + raw.length - start) ∧ next = uint32 (pos + raw.length + 1) := by
  induction rest generalizing pos fuel with
  | nil =>
    cases fuel with
    | zero => cases hloop
    | succ fuel =>
      have hnone : find_char str quote pos = none := by rw [find_char, h.drop]; rfl
      rw [string_loop, hnone] at hloop
      cases hloop
  | cons d rest ih =>
    cases fuel with
    | zero => cases hloop
    | succ fuel =>
      have hchar : charAt str (pos + 1 - 1) = d := by rw [Nat.add_sub_cancel, h.char]
      -- the rest of the search, if it goes on behind the character
      have hlater : ∀ n, (d = quote → charAt str (pos - 1) = backslash) →
          string_loop str start n (pos + 1) = .ok (value, next) →
          ∃ raw after, d :: rest = raw ++ quote :: after ∧ Hidden (charAt str (pos - 1) :: raw) ∧
            (charAt str (pos - 1) :: raw).getLast? ≠ some backslash ∧
            value = (str.drop start).take (pos + raw.length - start) ∧ next = uint32 (pos + raw.length + 1) := by
        intro n hd hgo
        obtain ⟨raw, after, rfl, hhidden, hlast, hvalue, hnext⟩ := ih h.next hgo
        rw [hchar] at hhidden hlast
        refine ⟨d :: raw, after, rfl, List.isChain_cons_cons.2 ⟨hd, hhidden⟩, ?_, ?_, ?_⟩
        · rwa [List.getLast?_cons_cons]
        · rw [hvalue, List.length_cons, show pos + 1 + raw.length = pos + (raw.length + 1) by omega]
        · rw [hnext, List.length_cons, show pos + 1 + raw.length = pos + (raw.length + 1) by omega]
      by_cases hd : d = quote
      · subst hd
        rw [string_loop, find_char_here h] at hloop
        dsimp only at hloop
        split at hloop
        · rename_i hback
          exact hlater fuel (fun _ => hback) hloop
        · rename_i hback
          cases hloop
          exact ⟨[], rest, rfl, List.IsChain.singleton _, by simpa using hback, rfl, rfl⟩
      · rw [string_loop_next h hd] at hloop
        exact hlater (fuel + 1) (fun hq => absurd hq hd) hloop

theorem read_string_ok {v : JsonValue} {next : Nat} (h : At str pos (quote :: rest)) (hs : str.length < 2 ^ 32)
    (hread : read_string str pos = .ok (v, next)) :
    ∃ raw after, Closes raw ∧ rest = raw ++ quote :: after ∧ v = .T_STRING (unescape_string raw) ∧
      At str next after := by
  have hrest : rest ≠ [] := by
    rintro rfl
    unfold read_string at hread
    dsimp only at hread
    rw [h.left hs, if_pos (by simp)] at hread
    cases hread
  have hprev : charAt str (pos + 1 - 1) = quote := h.char
  rw [read_string_loop h hrest (by omega), h.next.uint32 hs] at hread
  obtain ⟨⟨value, next'⟩, hloop, hvalue⟩ := of_bind_ok hread
  cases hvalue
  obtain ⟨raw, after, rfl, hhidden, hlast, rfl, rfl⟩ := string_loop_passed h.next hloop
  rw [hprev] at hhidden hlast
  have hafter := h.next.advance.next
  refine ⟨raw, after, ⟨hhidden, hlast⟩, rfl, ?_, ?_⟩
  · rw [h.next.drop, Nat.add_sub_cancel_left, List.take_left]
  · rwa [hafter.uint32 hs]

/-! ## Numbers -/

/-- The characters a number is made of. -/
def numeric (c : UInt8) : Bool := isdigit c || c == point

/-- A digit is neither skipped nor closes anything. -/
theorem digit_first {c : UInt8} (hc : isdigit c = true) :
    isBlank c = false ∧ c ≠ closeBracket ∧ c ≠ closeBrace := by
  have hne : ∀ d : UInt8, isdigit d = false → c ≠ d := fun d hd => isdigit_ne hc hd
  refine ⟨?_, hne _ (by decide), hne _ (by decide)⟩
  simp [isBlank, hne 32 (by decide), hne 9 (by decide), hne 13 (by decide), hne 10 (by decide)]

/-- Nothing that could belong to a number before it. -/
def NotNumeric (rest : Bytes) : Prop := ∀ c ∈ rest.head?, numeric c = false

/-- What is made of the characters of a number. -/
def number_value (ds : Bytes) : JsonValue :=
  if point ∈ ds then .T_DOUBLE (string_to_double ds) else .T_INT64 (Int64.ofInt (string_to_long ds))

theorem number_loop_numeric {fuel : Nat} {ds floatStr : Bytes} {isFloat : Bool} (hd : ∀ c ∈ ds, numeric c = true)
    (h : At str pos (ds ++ rest)) (hrest : NotNumeric rest) (hs : str.length < 2 ^ 32) (hf : ds.length < fuel) :
    number_loop str fuel pos floatStr isFloat =
      .ok (floatStr ++ ds, isFloat || decide (point ∈ ds), pos + ds.length) := by
  induction ds generalizing pos fuel floatStr isFloat with
  | nil =>
    obtain ⟨fuel, rfl⟩ : ∃ n, fuel = n + 1 := ⟨fuel - 1, by omega⟩
    rw [number_loop, List.append_nil]
    cases rest with
    | nil =>
      rw [if_neg (Nat.not_lt.2 h.nil_le)]
      simp
    | cons c rest =>
      obtain ⟨hdigit, hpoint⟩ : isdigit c = false ∧ c ≠ point := by simpa [numeric] using hrest c rfl
      rw [if_pos (At.lt h), At.char h]
      dsimp only
      rw [if_neg (by simp [hdigit]), if_neg hpoint]
      simp
  | cons c ds ih =>
    obtain ⟨fuel, rfl⟩ : ∃ n, fuel = n + 1 := ⟨fuel - 1, by omega⟩
    rw [List.length_cons] at hf
    have hnext := At.next h
    have hlater : ∀ b, number_loop str fuel (pos + 1) (floatStr ++ [c]) b =
        .ok (floatStr ++ [c] ++ ds, b || decide (point ∈ ds), pos + 1 + ds.length) :=
      fun b => ih (fun d hd' => hd d (by simp [hd'])) hnext (by omega)
    rw [number_loop, if_pos (At.lt h), At.char h]
    dsimp only
    rw [hnext.uint32 hs, hlater, hlater, List.append_assoc, List.singleton_append, List.length_cons,
      show pos + 1 + ds.length = pos + (ds.length + 1) by omega]
    by_cases hc : c = point
    · subst hc
      rw [if_neg (by decide), if_pos rfl]
      simp
    · have hdigit : isdigit c = true := by simpa [numeric, hc] using hd c (by simp)
      rw [if_pos hdigit]
      simp [Ne.symm hc]

theorem read_number_numeric {ds : Bytes} (hne : ds ≠ []) (hd : ∀ c ∈ ds, numeric c = true)
    (h : At str pos (ds ++ rest)) (hrest : NotNumeric rest) (hs : str.length < 2 ^ 32) :
    read_number str pos = .ok (number_value ds, pos + ds.length) := by
  have hlen := h.length
  rw [List.length_append] at hlen
  unfold read_number number_value
  rw [number_loop_numeric hd h hrest hs (by omega), ok_bind, List.nil_append, Bool.false_or]
  dsimp only
  rw [if_neg hne]
  simp only [decide_eq_true_eq]
  split <;> rfl

/-- A minus sign, in particular, is no number. -/
theorem read_number_none (h : At str pos rest) (hrest : NotNumeric rest) (hs : str.length < 2 ^ 32) :
    read_number str pos = .error .refused := by
  have hnone : At str pos ([] ++ rest) := h
  unfold read_number
  rw [number_loop_numeric (by simp) hnone hrest hs (by simp), ok_bind]
  dsimp only
  rw [if_pos (List.append_nil _)]
  rfl

/-- A number is as long as it can be. -/
theorem exists_numeric (rest : Bytes) :
    ∃ ds after, rest = ds ++ after ∧ (∀ c ∈ ds, numeric c = true) ∧ NotNumeric after := by
  refine ⟨rest.takeWhile numeric, rest.dropWhile numeric, List.takeWhile_append_dropWhile.symm,
    fun _ hc => List.mem_takeWhile_imp hc, ?_⟩
  intro c hc
  have h := List.head?_dropWhile_not numeric rest
  rw [Option.mem_def.1 hc] at h
  simpa using h

/-! ## Words -/

theorem read_bool_word {w wanted : Bytes} (hw : string_to_lower w = wanted) (h : At str pos (w ++ rest))
    (hs : str.length < 2 ^ 32) :
    read_bool str pos wanted = .ok (.T_BOOL (wanted = ascii "true"), pos + w.length) := by
  have hlen : wanted.length = w.length := by rw [← hw, string_to_lower, List.length_map]
  have hleft : ¬ (w ++ rest).length < w.length := by simp
  unfold read_bool
  rw [h.left hs, h.drop, hlen, List.take_left, hw, h.advance.uint32 hs]
  dsimp only
  rw [if_neg hleft, if_neg (by simp)]
  rfl

theorem read_bool_ok {wanted : Bytes} {v : JsonValue} {next : Nat} (h : At str pos rest)
    (hread : read_bool str pos wanted = .ok (v, next)) : ∃ w after, rest = w ++ after ∧ string_to_lower w = wanted := by
  unfold read_bool at hread
  rw [h.drop] at hread
  refine ⟨rest.take wanted.length, rest.drop wanted.length, (List.take_append_drop _ _).symm, ?_⟩
  dsimp only at hread
  split at hread
  · cases hread
  split at hread
  · cases hread
  rename_i hlower
  exact Decidable.not_not.1 hlower

theorem read_null_word {w : Bytes} (hw : string_to_lower w = ascii "null") (h : At str pos (w ++ rest))
    (hs : str.length < 2 ^ 32) : read_null str pos = .ok (pos + w.length) := by
  have hlen : w.length = 4 := by rw [← List.length_map, ← string_to_lower, hw]; rfl
  have hleft : ¬ (w ++ rest).length < 4 := by simp [hlen]
  unfold read_null
  rw [h.left hs, h.drop, ← hlen, List.take_left, hw, h.advance.uint32 hs, hlen]
  dsimp only
  rw [if_neg hleft, if_neg (by simp)]
  rfl

theorem read_null_ok {next : Nat} (h : At str pos rest) (hread : read_null str pos = .ok next) :
    ∃ w after, rest = w ++ after ∧ string_to_lower w = ascii "null" := by
  unfold read_null at hread
  rw [h.drop] at hread
  refine ⟨rest.take 4, rest.drop 4, (List.take_append_drop _ _).symm, ?_⟩
  dsimp only at hread
  split at hread
  · cases hread
  split at hread
  · cases hread
  rename_i hlower
  exact Decidable.not_not.1 hlower

end

/-! ## Values -/

/-- The reader behind the first character of a value. -/
def read_by (fuel : Nat) (str : Bytes) (result : JsonValue) (startPos : Nat) (c : UInt8) :
    Except Stop (JsonValue × Nat) :=
  if c = quote then read_string str startPos
  else if c = minus ∨ isdigit c then read_number str startPos
  else if c = openBrace then do
    let (obj, startPos) ← read_object fuel {} str startPos
    return (.ofObject obj, startPos)
  else if c = openBracket then do
    let (obj, startPos) ← read_array fuel {} str startPos
    return (.ofObject obj, startPos)
  else if c = 116 ∨ c = 84 then read_bool str startPos (ascii "true")
  else if c = 102 ∨ c = 70 then read_bool str startPos (ascii "false")
  else if c = 110 ∨ c = 78 then do
    let startPos ← read_null str startPos
    return (result, startPos)
  else throw .refused

section
variable {str : Bytes} {pos : Nat} {rest : Bytes}

theorem read_json_key_value_at {fuel : Nat} {result : JsonValue} {c : UInt8} (h : At str pos (c :: rest))
    (hc : isBlank c = false) :
    read_json_key_value (fuel + 1) str result pos = read_by fuel str result pos c := by
  unfold read_json_key_value
  rw [read_whitespace_dense h (by intro d hd; cases hd; exact hc)]
  dsimp only
  rw [if_neg (Nat.not_le.2 h.lt), ok_bind, h.char]
  rfl

theorem read_json_key_value_skip (fuel : Nat) (result : JsonValue) {tail : Bytes} {c : UInt8}
    (h : At str pos rest) (hs : str.length < 2 ^ 32) (hrest : skip rest = c :: tail) :
    ∃ pos', At str pos' (c :: tail) ∧
      read_json_key_value (fuel + 1) str result pos = read_by fuel str result pos' c := by
  obtain ⟨pos', hwhite, h'⟩ := read_whitespace_skip h hs
  rw [hrest] at h'
  refine ⟨pos', h', ?_⟩
  have hlt : ¬ str.length ≤ pos := by
    intro hle
    have hlen := h.length
    obtain rfl : rest = [] := List.length_eq_zero_iff.1 (by omega)
    cases hrest
  unfold read_json_key_value
  rw [hwhite]
  dsimp only
  rw [if_neg hlt, ok_bind, h'.char]
  rfl

theorem read_json_key_value_end {fuel : Nat} {result : JsonValue} (h : At str pos rest)
    (hs : str.length < 2 ^ 32) (hrest : skip rest = []) :
    read_json_key_value (fuel + 1) str result pos = .error .refused := by
  obtain ⟨pos', hwhite, h'⟩ := read_whitespace_skip h hs
  rw [hrest] at h'
  unfold read_json_key_value
  rw [hwhite, ok_bind, charAt_end h']
  dsimp only
  split <;> rfl

theorem read_by_true {fuel : Nat} {c : UInt8} {result : JsonValue} (hc : c = 116 ∨ c = 84) :
    read_by fuel str result pos c = read_bool str pos (ascii "true") := by
  have hother : c ≠ quote ∧ ¬ (c = minus ∨ isdigit c = true) ∧ c ≠ openBrace ∧ c ≠ openBracket := by
    rcases hc with rfl | rfl <;> decide
  obtain ⟨h1, h2, h3, h4⟩ := hother
  rw [read_by, if_neg h1, if_neg h2, if_neg h3, if_neg h4, if_pos hc]

theorem read_by_false {fuel : Nat} {c : UInt8} {result : JsonValue} (hc : c = 102 ∨ c = 70) :
    read_by fuel str result pos c = read_bool str pos (ascii "false") := by
  have hother : c ≠ quote ∧ ¬ (c = minus ∨ isdigit c = true) ∧ c ≠ openBrace ∧ c ≠ openBracket ∧
      ¬ (c = 116 ∨ c = 84) := by
    rcases hc with rfl | rfl <;> decide
  obtain ⟨h1, h2, h3, h4, h5⟩ := hother
  rw [read_by, if_neg h1, if_neg h2, if_neg h3, if_neg h4, if_neg h5, if_pos hc]

theorem read_by_null {fuel : Nat} {c : UInt8} {result : JsonValue} (hc : c = 110 ∨ c = 78) :
    read_by fuel str result pos c = (read_null str pos >>= fun next => .ok (result, next)) := by
  have hother : c ≠ quote ∧ ¬ (c = minus ∨ isdigit c = true) ∧ c ≠ openBrace ∧ c ≠ openBracket ∧
      ¬ (c = 116 ∨ c = 84) ∧ ¬ (c = 102 ∨ c = 70) := by
    rcases hc with rfl | rfl <;> decide
  obtain ⟨h1, h2, h3, h4, h5, h6⟩ := hother
  rw [read_by, if_neg h1, if_neg h2, if_neg h3, if_neg h4, if_neg h5, if_neg h6, if_pos hc]
  rfl

end

end RtcClient.JsonObject
