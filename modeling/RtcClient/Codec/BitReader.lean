import RtcClient.Lib.Bits
import RtcClient.Lib.Codes
/-!
# Reading bits

`u`, `Ue` and `Se` read at a bit cursor of 32 bits, which wraps. `none` is a bit index
outside the buffer, or a shift of 1 that an `int` cannot hold. Where a result is given,
the bits at the cursor are the code of it (`reads_u`, `reads_Ue`). Only the first loop of
`Ue` looks at the length: past the end it finds no zeros, and then nothing more is read
and the result is 0. Where more bytes stand behind the length, `takes_Ue` says what becomes
of a code inside it, and a reader of fewer bytes finds nothing else (`finds_Ue`).
-/

namespace RtcClient

open Lib

/-! ## The functions -/

/-- `nStartBit++`. -/
def next_bit (nStartBit : Nat) : Nat := (nStartBit + 1) % 2 ^ 32

/-- `pBuff[nStartBit / 8] & (0x80 >> (nStartBit % 8))`, inside the buffer. -/
def load_bit (pBuff : Bytes) (nStartBit : Nat) : Option Bool :=
  pBuff[nStartBit / 8]?.map fun x => decide (x &&& ((0x80 : UInt8) >>> UInt8.ofNat (nStartBit % 8)) ≠ 0)

def read_bit (buf : Bytes) : StateT Nat Option Bool := fun nStartBit => do
  let b ← load_bit buf nStartBit
  return (b, next_bit nStartBit)

/-- The loop that collects bits. -/
def bit_loop (buf : Bytes) : Nat → Nat → StateT Nat Option Nat
  | 0, dwRet => pure dwRet
  | i + 1, dwRet => do
    let b ← read_bit buf
    bit_loop buf i ((dwRet * 2 + b.toNat) % 2 ^ 64)

def u (BitCount : Nat) (buf : Bytes) : StateT Nat Option Nat := bit_loop buf BitCount 0

/-- The loop that counts zeros. After 2^32 rounds the cursor has been everywhere, and the loop does not end. -/
def zero_loop (pBuff : Bytes) (nLen : Nat) : Nat → Nat → StateT Nat Option Nat
  | 0, _ => fun _ => none
  | rounds + 1, nZeroNum => fun nStartBit =>
    if nStartBit < nLen * 8 then
      match load_bit pBuff nStartBit with
      | none => none
      | some true => some (nZeroNum, nStartBit)
      | some false => zero_loop pBuff nLen rounds ((nZeroNum + 1) % 2 ^ 32) (next_bit nStartBit)
    else some (nZeroNum, nStartBit)

def Ue (pBuff : Bytes) (nLen : Nat) : StateT Nat Option Nat := do
  let nZeroNum ← zero_loop pBuff nLen (2 ^ 32) 0
  modify next_bit
  let dwRet ← bit_loop pBuff nZeroNum 0
  if nZeroNum < 31 then
    return ((1 <<< nZeroNum) - 1 + dwRet) % 2 ^ 32
  else failure

/-- `ceil(k / 2)` is exact for every `int`. -/
def Se (pBuff : Bytes) (nLen : Nat) : StateT Nat Option Int := do
  let UeVal := int32 (← Ue pBuff nLen)
  let nValue := (UeVal + 1) / 2
  return if UeVal % 2 = 0 then -nValue else nValue

/-! ## What the cursor sees -/

/-- The bit at a position, which the cursor counts up to 2^32. -/
def seen (buf : Bytes) (p : Nat) : Option Bool := bit buf (p % 2 ^ 32)

/-- `r` takes the codes of `c` from the bits of a buffer. -/
def BitReads {A T : Type} (buf : Bytes) (r : StateT Nat Option A) (c : Coding (Option Bool) T A) : Prop :=
  Reads (· % 2 ^ 32) (seen buf) r c

theorem load_bit_bit (buf : Bytes) (p : Nat) : load_bit buf p = bit buf p := by
  have hbit : ∀ (x : UInt8), ∀ i < 8,
      decide (x &&& ((0x80 : UInt8) >>> UInt8.ofNat i) ≠ 0) = x.toNat.testBit (7 - i) :=
    forall_byte (by decide +kernel)
  rw [load_bit, bit]
  congr 1
  funext x
  exact hbit x _ (Nat.mod_lt _ (by decide))

theorem load_bit_eq (buf : Bytes) (p : Nat) : load_bit buf (p % 2 ^ 32) = seen buf p := load_bit_bit buf _

theorem next_bit_eq (p : Nat) : next_bit (p % 2 ^ 32) = (p + 1) % 2 ^ 32 := Nat.mod_add_mod p (2 ^ 32) 1

/-- A flag. -/
@[simps] def flag : Coding (Option Bool) Bool Bool := ⟨fun _ => True, fun b => [some b], id⟩

theorem reads_bit (buf : Bytes) : BitReads buf (read_bit buf) flag := by
  intro p b s
  change (load_bit buf (p % 2 ^ 32)).bind (fun b => some (b, next_bit (p % 2 ^ 32))) = some (b, s) ↔ _
  rw [Option.bind_eq_some_iff, load_bit_eq, next_bit_eq]
  constructor
  · rintro ⟨b', hb, h⟩
    cases h
    exact ⟨b, trivial, begins_singleton.2 hb, rfl, rfl⟩
  · rintro ⟨b', -, hb, rfl, rfl⟩
    exact ⟨b', begins_singleton.1 hb, rfl⟩

/-- So many bits, read behind the bits of a number. -/
def plain (n dwRet : Nat) : Coding (Option Bool) Bits Nat :=
  ⟨fun l => l.length = n, fun l => l.map some, fun l => (dwRet * 2 ^ l.length + number l) % 2 ^ 64⟩

theorem plain_cons (dwRet : Nat) (b : Bool) (l : Bits) :
    ((dwRet * 2 + b.toNat) % 2 ^ 64 * 2 ^ l.length + number l) % 2 ^ 64 =
      (dwRet * 2 ^ (b :: l).length + number (b :: l)) % 2 ^ 64 := by
  have hexpand : dwRet * 2 ^ (b :: l).length + number (b :: l) = (dwRet * 2 + b.toNat) * 2 ^ l.length + number l := by
    rw [number_cons, List.length_cons, pow_succ]
    ring
  rw [hexpand, Nat.add_mod, Nat.mod_mul_mod, ← Nat.add_mod]

theorem plain_nil {dwRet : Nat} (h : dwRet < 2 ^ 64) : (plain 0 dwRet).value [] = dwRet := by
  change (dwRet * 1 + 0) % 2 ^ 64 = dwRet
  rw [Nat.mul_one, Nat.add_zero, Nat.mod_eq_of_lt h]

theorem reads_bit_loop (buf : Bytes) (n dwRet : Nat) (h : dwRet < 2 ^ 64) :
    BitReads buf (bit_loop buf n dwRet) (plain n dwRet) := by
  induction n generalizing dwRet with
  | zero =>
    intro p a s
    constructor
    · intro hrun
      cases hrun
      exact ⟨[], rfl, .nil _ _, plain_nil h, rfl⟩
    · rintro ⟨l, hl, -, rfl, rfl⟩
      obtain rfl := List.eq_nil_of_length_eq_zero hl
      rw [plain_nil h]
      rfl
  | succ n ih =>
    intro p a s
    have hround : BitReads buf (bit_loop buf (n + 1) dwRet)
        (flag.bind fun b => plain n ((dwRet * 2 + b.toNat) % 2 ^ 64)) :=
      (reads_bit buf).bind fun b _ => ih _ (Nat.mod_lt _ (by decide))
    rw [hround p a s]
    constructor
    · rintro ⟨⟨b, l⟩, ⟨-, hl⟩, hcode, rfl, rfl⟩
      exact ⟨b :: l, congrArg Nat.succ hl, hcode, (plain_cons dwRet b l).symm, rfl⟩
    · rintro ⟨l, hl, hcode, rfl, rfl⟩
      cases l with
      | nil => cases hl
      | cons b l => exact ⟨(b, l), ⟨trivial, Nat.succ.inj hl⟩, hcode, plain_cons dwRet b l, rfl⟩

/-- So many bits. -/
@[simps] def plain_bits (n : Nat) : Coding (Option Bool) Bits Nat :=
  ⟨fun l => l.length = n, fun l => l.map some, fun l => number l⟩

theorem reads_bits (buf : Bytes) {n : Nat} (hn : n ≤ 64) : BitReads buf (bit_loop buf n 0) (plain_bits n) := by
  apply (reads_bit_loop buf n 0 (by decide)).of_surjective id
  · intro _
    exact Iff.rfl
  · intro l _
    exact ⟨l, rfl⟩
  · intro _
    rfl
  · rintro l rfl
    have hlt : number l < 2 ^ 64 := Nat.lt_of_lt_of_le (number_lt l) (Nat.pow_le_pow_right (by decide) hn)
    change number l = (0 * _ + number l) % 2 ^ 64
    rw [Nat.zero_mul, Nat.zero_add, Nat.mod_eq_of_lt hlt]

/-- A number in so many bits. -/
@[simps] def unsigned (n : Nat) : Coding (Option Bool) (BitVec n) Nat :=
  ⟨fun _ => True, fun k => (fixed n k.toNat).map some, fun k => k.toNat⟩

theorem reads_u (buf : Bytes) (n : Nat) (hn : n ≤ 64) : BitReads buf (u n buf) (unsigned n) := by
  apply (reads_bits buf hn).of_surjective (fun k : BitVec n => fixed n k.toNat)
  · intro k
    exact iff_of_true trivial (fixed_length n _)
  · rintro l rfl
    refine ⟨BitVec.ofNat l.length (number l), ?_⟩
    rw [BitVec.toNat_ofNat, Nat.mod_eq_of_lt (number_lt l), fixed_number]
  · intro k
    rfl
  · intro k _
    change k.toNat = number (fixed n k.toNat)
    rw [number_fixed, Nat.mod_eq_of_lt k.isLt]

/-! ## Exponential Golomb elements -/

/-- An element of a variable number of bits, with at most 30 zeros in front. It is missing past
the end of the buffer. -/
inductive Element
  | coded (k : Fin (2 ^ 31 - 1))
  | missing

namespace Element

def value : Element → Nat
  | coded k => k
  | missing => 0

/-- A missing element stands at one position outside the buffer. -/
def encode : Element → List (Option Bool)
  | coded k => (ue k).map some
  | missing => [none]

@[simps] def coding : Coding (Option Bool) Element Nat := ⟨fun _ => True, encode, value⟩

end Element

theorem seen_eq_none_iff (buf : Bytes) (p : Nat) : seen buf p = none ↔ buf.length * 8 ≤ p % 2 ^ 32 := by
  rw [seen, bit, Option.map_eq_none_iff, List.getElem?_eq_none_iff]
  omega

/-- Two positions in a row are past the end. -/
theorem seen_past_end {buf : Bytes} {p : Nat} {b : Bool} (h : seen buf p = some b) (hend : seen buf (p + 1) = none) :
    seen buf (p + 2) = none := by
  have hinside : ¬ seen buf p = none := by
    rw [h]
    exact Option.some_ne_none b
  rw [seen_eq_none_iff] at hinside hend ⊢
  omega

theorem zero_loop_round (buf : Bytes) (rounds nZeroNum p : Nat) :
    zero_loop buf buf.length (rounds + 1) nZeroNum (p % 2 ^ 32) =
      if seen buf p = some false then zero_loop buf buf.length rounds ((nZeroNum + 1) % 2 ^ 32) ((p + 1) % 2 ^ 32)
      else some (nZeroNum, p % 2 ^ 32) := by
  have hend := seen_eq_none_iff buf p
  simp only [zero_loop, load_bit_eq, next_bit_eq]
  match hp : seen buf p with
  | none =>
    rw [if_neg (Nat.not_lt.2 (hend.1 hp)), if_neg (by simp)]
  | some true =>
    rw [if_pos (by rw [hp] at hend; simp at hend; omega), if_neg (by simp)]
  | some false =>
    rw [if_pos (by rw [hp] at hend; simp at hend; omega), if_pos rfl]

/-- The zeros that are counted. -/
theorem zero_loop_iff (buf : Bytes) (rounds nZeroNum p z s : Nat) (hz : nZeroNum < 2 ^ 32) :
    zero_loop buf buf.length rounds nZeroNum (p % 2 ^ 32) = some (z, s) ↔
      ∃ n < rounds, Begins (seen buf) p (List.replicate n (some false)) ∧ seen buf (p + n) ≠ some false ∧
        (nZeroNum + n) % 2 ^ 32 = z ∧ (p + n) % 2 ^ 32 = s := by
  induction rounds generalizing nZeroNum p with
  | zero =>
    refine iff_of_false (fun h => nomatch h) ?_
    rintro ⟨n, hn, -⟩
    omega
  | succ rounds ih =>
    rw [zero_loop_round]
    by_cases hp : seen buf p = some false
    · rw [if_pos hp, ih _ _ (Nat.mod_lt _ (by decide))]
      constructor
      · rintro ⟨n, hn, hzeros, hend, rfl, rfl⟩
        refine ⟨n + 1, by omega, begins_cons.2 ⟨hp, hzeros⟩, ?_, by omega, by omega⟩
        rwa [Nat.add_right_comm, Nat.add_assoc] at hend
      · rintro ⟨n, hn, hzeros, hend, rfl, rfl⟩
        cases n with
        | zero => exact absurd hp hend
        | succ n =>
          refine ⟨n, by omega, (begins_cons.1 hzeros).2, ?_, by omega, by omega⟩
          rwa [Nat.add_right_comm, Nat.add_assoc]
    · rw [if_neg hp]
      constructor
      · intro h
        cases h
        exact ⟨0, by omega, .nil _ _, hp, Nat.mod_eq_of_lt hz, rfl⟩
      · rintro ⟨n, hn, hzeros, hend, rfl, rfl⟩
        cases n with
        | zero => rw [Nat.add_zero, Nat.mod_eq_of_lt hz]; rfl
        | succ n => exact absurd (begins_cons.1 hzeros).1 hp

/-- The last step: the shift. -/
def ue_result (nZeroNum dwRet : Nat) : StateT Nat Option Nat :=
  if nZeroNum < 31 then pure (((1 <<< nZeroNum) - 1 + dwRet) % 2 ^ 32) else failure

theorem Ue_run (buf : Bytes) (nLen nStartBit : Nat) :
    Ue buf nLen nStartBit = (zero_loop buf nLen (2 ^ 32) 0 nStartBit).bind fun x =>
      (bit_loop buf x.1 0 (next_bit x.2)).bind fun y => ue_result x.1 y.1 y.2 := rfl

theorem ue_result_iff (nZeroNum dwRet s k s' : Nat) :
    ue_result nZeroNum dwRet s = some (k, s') ↔
      nZeroNum < 31 ∧ ((1 <<< nZeroNum) - 1 + dwRet) % 2 ^ 32 = k ∧ s = s' := by
  unfold ue_result
  by_cases hn : nZeroNum < 31
  · rw [if_pos hn]
    constructor
    · intro hrun
      cases hrun
      exact ⟨hn, rfl, rfl⟩
    · rintro ⟨-, rfl, rfl⟩
      rfl
  · rw [if_neg hn]
    exact iff_of_false (fun hrun => nomatch hrun) (fun hrun => hn hrun.1)

/-- The result does not wrap. -/
theorem ue_value {l : Bits} (hl : l.length < 31) :
    ((1 <<< l.length) - 1 + number l) % 2 ^ 32 = 2 ^ l.length - 1 + number l := by
  have hlt := number_lt l
  have hpow : 2 ^ l.length ≤ 2 ^ 30 := Nat.pow_le_pow_right (by decide) (by omega)
  rw [Nat.one_shiftLeft, Nat.mod_eq_of_lt (by omega)]

/-- The bits behind as many zeros and something that is no zero. -/
theorem Ue_iff (buf : Bytes) (p k s : Nat) :
    Ue buf buf.length (p % 2 ^ 32) = some (k, s) ↔
      ∃ l : Bits, l.length < 31 ∧ Begins (seen buf) p (List.replicate l.length (some false)) ∧
        seen buf (p + l.length) ≠ some false ∧ Begins (seen buf) (p + l.length + 1) (l.map some) ∧
        2 ^ l.length - 1 + number l = k ∧ (p + l.length + 1 + l.length) % 2 ^ 32 = s := by
  rw [Ue_run, Option.bind_eq_some_iff]
  constructor
  · rintro ⟨⟨z, s1⟩, hzeros, hrest⟩
    obtain ⟨n, hn, hbegins, hend, rfl, rfl⟩ := (zero_loop_iff buf (2 ^ 32) 0 p z s1 (by decide)).1 hzeros
    obtain ⟨⟨dwRet, s2⟩, hbits, hresult⟩ := Option.bind_eq_some_iff.1 hrest
    rw [Nat.zero_add, Nat.mod_eq_of_lt hn] at hbits hresult
    obtain ⟨hl, hk, rfl⟩ := (ue_result_iff _ _ _ _ _).1 hresult
    rw [next_bit_eq] at hbits
    obtain ⟨l, rfl, hcode, rfl, hs⟩ := (reads_bits buf (by omega) _ _ _).1 hbits
    rw [plain_bits_encode, List.length_map] at hs
    exact ⟨l, hl, hbegins, hend, hcode, (ue_value hl).symm.trans hk, hs⟩
  · rintro ⟨l, hl, hbegins, hend, hcode, rfl, rfl⟩
    have hzeros := (zero_loop_iff buf (2 ^ 32) 0 p _ _ (by decide)).2 ⟨l.length, by omega, hbegins, hend, rfl, rfl⟩
    have hbits := (reads_bits buf (by omega)).run (p := p + l.length + 1) (t := l) rfl hcode
    rw [plain_bits_encode, List.length_map] at hbits
    refine ⟨_, hzeros, Option.bind_eq_some_iff.2 ⟨(number l, (p + l.length + 1 + l.length) % 2 ^ 32), ?_, ?_⟩⟩
    · rw [Nat.zero_add, Nat.mod_eq_of_lt (by omega : l.length < 2 ^ 32), next_bit_eq]
      exact hbits
    · rw [Nat.zero_add, Nat.mod_eq_of_lt (by omega : l.length < 2 ^ 32), ue_result_iff]
      exact ⟨hl, ue_value hl, rfl⟩

theorem encode_coded (l : Bits) :
    ((ue (2 ^ l.length - 1 + number l)).map some : List (Option Bool)) =
      List.replicate l.length (some false) ++ some true :: l.map some := by
  rw [ue_eq, List.map_append, List.map_replicate, List.map_cons]

theorem reads_Ue (buf : Bytes) : BitReads buf (Ue buf buf.length) Element.coding := by
  intro p k s
  rw [Ue_iff]
  constructor
  · rintro ⟨l, hl, hzeros, hend, hcode, rfl, rfl⟩
    have hlt := number_lt l
    have hpow : 2 ^ l.length ≤ 2 ^ 30 := Nat.pow_le_pow_right (by decide) (by omega)
    match hone : seen buf (p + l.length) with
    | some true =>
      refine ⟨.coded ⟨2 ^ l.length - 1 + number l, by omega⟩, trivial, ?_, rfl, ?_⟩
      · change Begins (seen buf) p ((ue (2 ^ l.length - 1 + number l)).map some)
        rw [encode_coded, begins_append, begins_cons, List.length_replicate]
        exact ⟨hzeros, hone, hcode⟩
      · change (p + ((ue (2 ^ l.length - 1 + number l)).map some).length) % 2 ^ 32 = _
        rw [encode_coded, List.length_append, List.length_replicate, List.length_cons, List.length_map]
        congr 1
        omega
    | some false => exact absurd hone hend
    | none =>
      match l with
      | [] => exact ⟨.missing, trivial, begins_singleton.2 hone, rfl, rfl⟩
      | b :: l =>
        -- behind a zero that is the last bit nothing can be read
        rw [List.length_cons, List.replicate_succ', begins_append, List.length_replicate, begins_singleton] at hzeros
        have hpast := seen_past_end hzeros.2 hone
        have hnext := (begins_cons.1 hcode).1
        rw [List.length_cons, Nat.add_assoc p, Nat.add_assoc l.length] at hnext
        rw [Nat.add_assoc, hnext] at hpast
        cases hpast
  · rintro ⟨e, -, hcode, rfl, rfl⟩
    cases e with
    | missing =>
      have hend := begins_singleton.1 hcode
      refine ⟨[], by decide, .nil _ _, ?_, .nil _ _, rfl, rfl⟩
      rw [List.length_nil, Nat.add_zero, hend]
      exact Option.some_ne_none false |>.symm
    | coded k =>
      obtain ⟨l, hk⟩ := exists_ue k
      have hkmax := k.isLt
      have hl : l.length < 31 := by
        by_contra hge
        have hpow : 2 ^ 31 ≤ 2 ^ l.length := Nat.pow_le_pow_right (by decide) (by omega)
        omega
      have hencode : Element.coding.encode (.coded k) =
          List.replicate l.length (some false) ++ some true :: l.map some := by
        rw [← encode_coded, ← hk]
        rfl
      rw [hencode, begins_append, begins_cons, List.length_replicate] at hcode
      refine ⟨l, hl, hcode.1, ?_, hcode.2.2, hk.symm, ?_⟩
      · rw [hcode.2.1]
        decide
      · rw [hencode, List.length_append, List.length_replicate, List.length_cons, List.length_map]
        congr 1
        omega

/-- The signed value of an element. -/
def Element.signed (k : Nat) : Int := if int32 k % 2 = 0 then -((int32 k + 1) / 2) else (int32 k + 1) / 2

theorem reads_Se (buf : Bytes) : BitReads buf (Se buf buf.length) (Element.coding.map Element.signed) :=
  (reads_Ue buf).map Element.signed

theorem reads_flag (buf : Bytes) : BitReads buf (u 1 buf) (flag.map Bool.toNat) := by
  apply (reads_bits buf (by decide)).of_surjective (fun b : Bool => [b])
  · intro b
    exact iff_of_true trivial rfl
  · intro l hl
    obtain ⟨b, rfl⟩ := List.length_eq_one_iff.1 hl
    exact ⟨b, rfl⟩
  · intro b
    rfl
  · intro b _
    cases b <;> rfl

/-! ## Codes in the buffer -/

/-- Up to the last position the cursor can have, it sees the bits of the buffer. -/
theorem begins_seen {buf : Bytes} {p : Nat} {c : List (Option Bool)} (h : Begins (bit buf) p c)
    (hend : p + c.length ≤ 2 ^ 32) : Begins (seen buf) p c := by
  intro i hi
  rw [seen, Nat.mod_eq_of_lt (by omega)]
  exact h i hi

theorem signed_eq {k : Nat} (hk : k < 2 ^ 31) :
    Element.signed k = if k % 2 = 0 then -((k : Int) / 2) else ((k : Int) + 1) / 2 := by
  rw [Element.signed, int32_of_lt hk]
  by_cases heven : k % 2 = 0
  · rw [if_pos heven, if_pos (by omega)]
    omega
  · rw [if_neg heven, if_neg (by omega)]

/-- A code in the buffer is read back with its length, at any position and whatever is
around it. The cursor behind the code must fit its type. -/
theorem Ue_inverts_code (buf : Bytes) (p k : Nat) (hk : k < 2 ^ 31 - 1)
    (hcode : Begins (bit buf) p ((ue k).map some)) (hend : p + (2 * Nat.log 2 (k + 1) + 1) < 2 ^ 32) :
    Ue buf buf.length p = some (k, p + (2 * Nat.log 2 (k + 1) + 1)) ∧
      Se buf buf.length p = some (if k % 2 = 0 then -((k : Int) / 2) else ((k : Int) + 1) / 2,
        p + (2 * Nat.log 2 (k + 1) + 1)) := by
  have hlength : (Element.coding.encode (.coded ⟨k, hk⟩)).length = 2 * Nat.log 2 (k + 1) + 1 := by
    change ((ue k).map some).length = _
    rw [List.length_map, ue_length]
  have hseen : Begins (seen buf) p (Element.coding.encode (.coded ⟨k, hk⟩)) := by
    apply begins_seen hcode
    rw [List.length_map, ue_length]
    exact Nat.le_of_lt hend
  have hUe := (reads_Ue buf).run trivial hseen
  rw [hlength, Nat.mod_eq_of_lt hend, Nat.mod_eq_of_lt (Nat.lt_of_le_of_lt (Nat.le_add_right _ _) hend)] at hUe
  have hSe : Se buf buf.length p = (Ue buf buf.length p).bind fun x => some (Element.signed x.1, x.2) := rfl
  refine ⟨hUe, ?_⟩
  rw [hSe, hUe, ← signed_eq (by omega)]
  rfl

/-- The code 011 at the end of a byte. -/
theorem Ue_inverts_code_two : Ue [0xAB] 1 5 = some (2, 8) ∧ Se [0xAB] 1 5 = some (-1, 8) := by
  have hlog : Nat.log 2 (2 + 1) = 1 := Nat.log_eq_of_pow_le_of_lt_pow (by decide) (by decide)
  have hcode : Begins (bit [0xAB]) 5 ((ue 2).map some) := by
    have hue : ue 2 = [false, true, true] := ue_eq [true]
    rw [hue]
    exact begins_cons.2 ⟨rfl, begins_cons.2 ⟨rfl, begins_singleton.2 rfl⟩⟩
  have h := Ue_inverts_code [0xAB] 5 2 (by decide) hcode (by rw [hlog]; decide)
  rw [hlog] at h
  exact h

/-- The bits of a long buffer at its beginning and where its last byte begins. -/
theorem bit_long (n : Nat) :
    let buf : Bytes := 0x80 :: (List.replicate (n + 1) 0 ++ [0xC0])
    (bit buf 0 = some true ∧ bit buf 1 = some false) ∧ bit buf (n * 8 + 15) = some false ∧
      bit buf (n * 8 + 16) = some true ∧ bit buf (n * 8 + 17) = some true := by
  intro buf
  have hlast : buf[n + 2]? = some 0xC0 := by
    rw [List.getElem?_cons_succ, List.getElem?_append_right (by rw [List.length_replicate]), List.length_replicate,
      Nat.sub_self]
    rfl
  have hzero : buf[n + 1]? = some 0 := by
    rw [List.getElem?_cons_succ, List.getElem?_append_left (by rw [List.length_replicate]; exact Nat.lt_succ_self n),
      List.getElem?_replicate, if_pos (Nat.lt_succ_self n)]
  have h15 : (n * 8 + 15) / 8 = n + 1 ∧ (n * 8 + 15) % 8 = 7 := by omega
  have h16 : (n * 8 + 16) / 8 = n + 2 ∧ (n * 8 + 16) % 8 = 0 := by omega
  have h17 : (n * 8 + 17) / 8 = n + 2 ∧ (n * 8 + 17) % 8 = 1 := by omega
  refine ⟨⟨rfl, rfl⟩, ?_, ?_, ?_⟩
  · rw [bit, h15.1, h15.2, hzero]
    rfl
  · rw [bit, h16.1, h16.2, hlast]
    rfl
  · rw [bit, h17.1, h17.2, hlast]
    rfl

/-- A code at the last bit position: the cursor wraps, and the rest of the code is taken
from the beginning of the buffer. -/
theorem Ue_wraps :
    ¬ ∀ (buf : Bytes) (p k : Nat), k < 2 ^ 31 - 1 → p < 2 ^ 32 → Begins (bit buf) p ((ue k).map some) →
      Ue buf buf.length p = some (k, p + (2 * Nat.log 2 (k + 1) + 1)) ∧
        Se buf buf.length p = some (if k % 2 = 0 then -((k : Int) / 2) else ((k : Int) + 1) / 2,
          p + (2 * Nat.log 2 (k + 1) + 1)) := by
  intro h
  obtain ⟨⟨h0, h1⟩, hlast, hnext, hnext'⟩ := bit_long (2 ^ 29 - 2)
  generalize (0x80 :: (List.replicate (2 ^ 29 - 2 + 1) 0 ++ [0xC0]) : Bytes) = buf at h0 h1 hlast hnext hnext'
  have htwo : ue 2 = [false, true, true] := ue_eq [true]
  have hone : ue 1 = [false, true, false] := ue_eq [false]
  have hcode : Begins (bit buf) (2 ^ 32 - 1) ((ue 2).map some) := by
    rw [htwo]
    exact begins_cons.2 ⟨hlast, begins_cons.2 ⟨hnext, begins_singleton.2 hnext'⟩⟩
  have hseen : Begins (seen buf) (2 ^ 32 - 1) (Element.coding.encode (.coded ⟨1, by decide⟩)) := by
    change Begins (seen buf) (2 ^ 32 - 1) ((ue 1).map some)
    rw [hone]
    exact begins_cons.2 ⟨hlast, begins_cons.2 ⟨h0, begins_singleton.2 h1⟩⟩
  have hread := (reads_Ue buf).run trivial hseen
  have hread' := (h buf (2 ^ 32 - 1) 2 (by decide) (by decide) hcode).1
  have hvalue := congrArg (Option.map Prod.fst) (hread.symm.trans hread')
  exact absurd (Option.some.inj hvalue) (by decide)

/-! ## Codes behind which more bytes stand -/

/-- Positions up to `limit` lie in the first `nLen` bytes, and the cursor can have them. -/
structure InReach (nLen limit : Nat) : Prop where
  inside : limit ≤ nLen * 8
  cursor : limit < 2 ^ 32

section
variable {buf : Bytes} {nLen limit : Nat}

/-- What is read from codes is read from a code in the buffer. -/
theorem BitReads.takes {A T : Type} {r : StateT Nat Option A} {c : Coding (Option Bool) T A} (h : BitReads buf r c)
    (hreach : InReach nLen limit) {t : T} (ht : c.Valid t) {code : Bits} (hcode : c.encode t = code.map some) :
    Takes (bit buf) limit r code True (c.value t) := by
  intro p hbegins hend
  refine ⟨fun _ => ?_, fun hno => absurd trivial hno⟩
  have hcursor := hreach.cursor
  have hseen : Begins (seen buf) p (c.encode t) := by
    rw [hcode]
    exact begins_seen hbegins (by rw [List.length_map]; omega)
  have hrun := h.run ht hseen
  rwa [hcode, List.length_map, Nat.mod_eq_of_lt (by omega), Nat.mod_eq_of_lt (by omega)] at hrun

theorem takes_u (hreach : InReach nLen limit) {n : Nat} (hn : n ≤ 64) (k : BitVec n) :
    Takes (bit buf) limit (u n buf) (fixed n k.toNat) True k.toNat :=
  (reads_u buf n hn).takes hreach (t := k) trivial rfl

theorem takes_flag (hreach : InReach nLen limit) (b : Bool) : Takes (bit buf) limit (u 1 buf) [b] True b.toNat :=
  (reads_flag buf).takes hreach (t := b) trivial rfl

/-- The zeros in front of a one are counted. -/
theorem zero_loop_one {n rounds nZeroNum p : Nat} (hzeros : Begins (bit buf) p (List.replicate n (some false)))
    (hone : bit buf (p + n) = some true) (hinside : p + n < nLen * 8) (hcursor : p + n < 2 ^ 32) (hrounds : n < rounds)
    (hcount : nZeroNum + n < 2 ^ 32) : zero_loop buf nLen rounds nZeroNum p = some (nZeroNum + n, p + n) := by
  -- along the zeros; the cursor stays below 2^32, so it does not wrap
  induction n generalizing rounds nZeroNum p with
  | zero =>
    obtain ⟨rounds, rfl⟩ := Nat.exists_eq_succ_of_ne_zero (Nat.ne_of_gt hrounds)
    rw [Nat.add_zero] at hone hinside
    simp only [zero_loop, if_pos hinside, load_bit_bit, hone, Nat.add_zero]
  | succ n ih =>
    obtain ⟨rounds, rfl⟩ := Nat.exists_eq_succ_of_ne_zero (Nat.ne_of_gt (Nat.lt_of_le_of_lt (Nat.zero_le _) hrounds))
    obtain ⟨hzero, hzeros⟩ := begins_cons.1 hzeros
    have hnext : next_bit p = p + 1 := Nat.mod_eq_of_lt (by omega)
    have hwrap : (nZeroNum + 1) % 2 ^ 32 = nZeroNum + 1 := Nat.mod_eq_of_lt (by omega)
    have hinside' : p < nLen * 8 := by omega
    simp only [zero_loop, if_pos hinside', load_bit_bit, hzero, hnext, hwrap]
    rw [Nat.add_comm n, ← Nat.add_assoc] at hone hinside hcursor hcount ⊢
    rw [← Nat.add_assoc]
    exact ih hzeros hone hinside hcursor (by omega) hcount

/-- A code of at most 30 zeros is read, and a longer one shifts too far. -/
theorem takes_Ue (hreach : InReach nLen limit) (k : Nat) :
    Takes (bit buf) limit (Ue buf nLen) (ue k) (k < 2 ^ 31 - 1) k := by
  obtain ⟨l, rfl⟩ := exists_ue k
  have hlt := number_lt l
  have hshort : 2 ^ l.length - 1 + number l < 2 ^ 31 - 1 ↔ l.length < 31 := by
    constructor
    · intro hk
      by_contra hlong
      have hpow : 2 ^ 31 ≤ 2 ^ l.length := Nat.pow_le_pow_right (by decide) (by omega)
      omega
    · intro hl
      have hpow : 2 ^ l.length ≤ 2 ^ 30 := Nat.pow_le_pow_right (by decide) (by omega)
      omega
  intro p hcode hend
  obtain ⟨hinside, hcursor⟩ := hreach
  rw [encode_coded, begins_append, begins_cons, List.length_replicate] at hcode
  obtain ⟨hzeros, hone, hbits⟩ := hcode
  rw [ue_eq, List.length_append, List.length_replicate, List.length_cons] at hend ⊢
  -- the three steps of `Ue`: the zeros, the bits behind the one, and the shift
  have hcount : zero_loop buf nLen (2 ^ 32) 0 p = some (0 + l.length, p + l.length) :=
    zero_loop_one hzeros hone (by omega) (by omega) (by omega) (by omega)
  have hnext : next_bit (p + l.length) = p + l.length + 1 := Nat.mod_eq_of_lt (by omega)
  have hseen : Begins (seen buf) (p + l.length + 1) (l.map some) :=
    begins_seen hbits (by rw [List.length_map]; omega)
  have hrest := (reads_bit_loop buf l.length 0 (by decide)).run (t := l) rfl hseen
  change bit_loop buf l.length 0 ((p + l.length + 1) % 2 ^ 32) = some ((0 * 2 ^ l.length + number l) % 2 ^ 64,
    (p + l.length + 1 + (l.map some).length) % 2 ^ 32) at hrest
  rw [List.length_map, Nat.zero_mul, Nat.zero_add, Nat.mod_eq_of_lt (by omega : p + l.length + 1 < 2 ^ 32),
    Nat.mod_eq_of_lt (by omega : p + l.length + 1 + l.length < 2 ^ 32)] at hrest
  rw [Ue_run, hcount, Option.bind_some, Nat.zero_add, hnext, hrest, Option.bind_some, ue_result, hshort]
  constructor
  · intro hl
    have hpow : 2 ^ l.length ≤ 2 ^ 30 := Nat.pow_le_pow_right (by decide) (by omega)
    have hbehind : p + l.length + 1 + l.length = p + (l.length + (l.length + 1)) := by omega
    rw [if_pos hl, Nat.mod_eq_of_lt (by omega : number l < 2 ^ 64), ue_value hl, hbehind]
    rfl
  · intro hl
    rw [if_neg hl]
    rfl

theorem takes_small_Ue (hreach : InReach nLen limit) {k : Nat} (hk : k < 2 ^ 31 - 1) :
    Takes (bit buf) limit (Ue buf nLen) (ue k) True k :=
  (takes_Ue hreach k).congr rfl (iff_of_true trivial hk)

/-- An offset whose code has at most 30 zeros. -/
def ShortOffset (v : Int) : Prop := -2 ^ 30 < v ∧ v < 2 ^ 30

theorem takes_Se (hreach : InReach nLen limit) (v : Int) :
    Takes (bit buf) limit (Se buf nLen) (se v) (ShortOffset v) (Element.signed (code_num v)) := by
  have hshort : ShortOffset v ↔ code_num v < 2 ^ 31 - 1 := by
    unfold ShortOffset code_num
    split_ifs <;> omega
  exact ((takes_Ue hreach (code_num v)).map Element.signed).congr rfl hshort

end

/-! ## Fewer bytes -/

section
variable (buf : Bytes) (size nLen : Nat)

theorem load_bit_take {p : Nat} {b : Bool} (h : load_bit (buf.take size) p = some b) : load_bit buf p = some b := by
  obtain ⟨x, hx, rfl⟩ := Option.map_eq_some_iff.1 h
  rw [List.getElem?_take] at hx
  split_ifs at hx
  exact Option.map_eq_some_iff.2 ⟨x, hx, rfl⟩

theorem finds_bit : Finds (read_bit (buf.take size)) (read_bit buf) := by
  intro p x h
  obtain ⟨b, hb, hx⟩ := Option.bind_eq_some_iff.1 h
  exact Option.bind_eq_some_iff.2 ⟨b, load_bit_take buf size hb, hx⟩

theorem finds_bit_loop (n dwRet : Nat) : Finds (bit_loop (buf.take size) n dwRet) (bit_loop buf n dwRet) := by
  induction n generalizing dwRet with
  | zero => exact .refl _
  | succ n ih => exact (finds_bit buf size).bind fun b => ih _

theorem finds_u (n : Nat) : Finds (u n (buf.take size)) (u n buf) := finds_bit_loop buf size n 0

theorem finds_zero_loop (rounds nZeroNum : Nat) :
    Finds (zero_loop (buf.take size) nLen rounds nZeroNum) (zero_loop buf nLen rounds nZeroNum) := by
  induction rounds generalizing nZeroNum with
  | zero => exact .refl _
  | succ rounds ih =>
    intro p x h
    simp only [zero_loop] at h ⊢
    by_cases hinside : p < nLen * 8
    · rw [if_pos hinside] at h ⊢
      cases hload : load_bit (buf.take size) p with
      | none =>
        -- no bit in the fewer bytes: nothing is found
        rw [hload] at h
        cases h
      | some b =>
        rw [load_bit_take buf size hload]
        rw [hload] at h
        cases b with
        | true => exact h
        | false => exact ih _ _ x h
    · rw [if_neg hinside] at h ⊢
      exact h

theorem finds_Ue : Finds (Ue (buf.take size) nLen) (Ue buf nLen) :=
  (finds_zero_loop buf size nLen _ _).bind fun _ => (Finds.refl _).bind fun _ =>
    (finds_bit_loop buf size _ 0).bind fun _ => .refl _

theorem finds_Se : Finds (Se (buf.take size) nLen) (Se buf nLen) := (finds_Ue buf size nLen).bind fun _ => .refl _

end

end RtcClient
