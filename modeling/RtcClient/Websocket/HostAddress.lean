import Mathlib.Data.List.TakeWhile
import RtcClient.Common.Strings
import RtcClient.Websocket.Iobuf
/-!
# Addresses of hosts

`mg_connect` asks the resolver unless the host is an address. `mg_aton4` accepts four numbers of one
byte with dots between them and nothing else (`aton4_accepts`); `mg_aton6` puts what it has read into the 16
bytes of an address while it reads, and moves the part behind a `::` to the end. Neither accesses
anything outside the address, and both read back what `mg_ntoa` prints (`aton_ntoa`).
-/

namespace RtcClient

open Lib

/-! ## The model -/

/-- `struct mg_addr`. -/
structure MgAddr where
  ip : Bytes
  ip6 : Bytes
  is_ip6 : Bool
deriving DecidableEq, Repr

def mg_lower (c : UInt8) : UInt8 := if 65 ≤ c ∧ c ≤ 90 then c + 32 else c

def is_xdigit (c : UInt8) : Bool := (48 ≤ c && c ≤ 57) || (97 ≤ c && c ≤ 102) || (65 ≤ c && c ≤ 70)

def mg_unhex_nimble (c : UInt8) : Nat :=
  if 48 ≤ c ∧ c ≤ 57 then c.toNat - 48 else if 65 ≤ c ∧ c ≤ 70 then c.toNat - 55 else c.toNat - 87

def mg_unhexn (s : Bytes) : Nat := s.foldl (fun v c => v <<< 4 ||| mg_unhex_nimble c) 0

/-- The loop of `mg_aton4`. `prev` is the character before. -/
def aton4_loop (data : Bytes) (num_dots : Nat) (prev : Option UInt8) : Bytes → Option (Bytes × Nat × Option UInt8)
  | [] => some (data, num_dots, prev)
  | c :: str =>
    if isdigit c then
      let octet := (data.getD num_dots 0).toNat * 10 + (c.toNat - 48)
      if octet > 255 then none else aton4_loop (data.set num_dots (UInt8.ofNat octet)) num_dots (some c) str
    else if c = 46 then
      if num_dots ≥ 3 ∨ prev = none ∨ prev = some 46 then none else aton4_loop data (num_dots + 1) (some c) str
    else none

/-- The four bytes, if it is an address. -/
def mg_aton4 (str : Bytes) : Option Bytes :=
  match aton4_loop [0, 0, 0, 0] 0 none str with
  | none => none
  | some (data, num_dots, prev) => if num_dots ≠ 3 ∨ prev = some 46 then none else some data

def mg_v4mapped (str : Bytes) : Option Bytes :=
  if str.length < 14 then none
  else if str.getD 0 0 ≠ 58 ∨ str.getD 1 0 ≠ 58 ∨ str.getD 6 0 ≠ 58 then none
  else if ((str.drop 2).take 4).all (mg_lower · = 102) then mg_aton4 (str.drop 7) else none

/-- The loop of `mg_aton6`: `group` are the digits since the last colon, `prev1` and `prev2` the characters before.
The result is an error if it returns false. There is none if it writes outside the address. -/
def aton6_loop (n dc : Nat) (ip6 group : Bytes) (prev2 prev1 : Option UInt8) :
    Bytes → Option (Except Bytes (Nat × Nat × Bytes))
  | [] => some (.ok (n, dc, ip6))
  | c :: str =>
    if is_xdigit c then
      if group.length > 3 then some (.error ip6)
      else do
        let ip6 ← memcpy ip6 n (be16 (mg_unhexn (group ++ [c]))) 2
        aton6_loop n dc ip6 (group ++ [c]) prev1 (some c) str
    else if c = 58 then
      if prev1 = some 58 ∧ prev2 = some 58 then some (.error ip6)
      else
        let dc := if prev1 = some 58 then n else dc
        let n := if prev1 = none ∨ prev1 = some 58 then n else n + 2
        if n > 14 then some (.error ip6)
        else do
          let ip6 ← memcpy ip6 n [0, 0] 2
          aton6_loop n dc ip6 [] prev1 (some c) str
    else some (.error ip6)

def mg_aton6 (str : Bytes) (addr : MgAddr) : Option (Bool × MgAddr) :=
  let str := if str.length > 2 ∧ str.getD 0 0 = 91 then (str.drop 1).take (str.length - 2) else str
  match mg_v4mapped str with
  | some ip => some (true, { ip := ip, ip6 := List.replicate 10 0 ++ [255, 255] ++ ip, is_ip6 := true })
  | none => do
    match ← aton6_loop 0 42 addr.ip6 [] none none str with
    | .error ip6 => return (false, { addr with ip6 := ip6 })
    | .ok (n, dc, ip6) =>
      if n < 14 ∧ dc = 42 then return (false, { addr with ip6 := ip6 })
      else if n < 14 then do
        let ip6 ← memmove ip6 (dc + (14 - n)) dc (n - dc + 2)
        let ip6 ← zeromem ip6 dc (14 - n)
        return (true, { addr with ip6 := ip6, is_ip6 := true })
      else return (true, { addr with ip6 := ip6, is_ip6 := true })

def mg_aton (str : Bytes) (addr : MgAddr) : Option (Bool × MgAddr) :=
  if str = [] then some (true, { addr with ip := [0, 0, 0, 0], is_ip6 := false })
  else if str.map mg_lower = ascii "localhost" then some (true, { addr with ip := [127, 0, 0, 1], is_ip6 := false })
  else
    match mg_aton4 str with
    | some ip => some (true, { addr with ip := ip, is_ip6 := false })
    | none => mg_aton6 str addr

/-- The digits of a hexadecimal number, the last one first. -/
def lld_loop : Nat → Nat → Bytes
  | 0, _ => []
  | fuel + 1, v => if v = 0 then [] else (ascii "0123456789abcdef").getD (v &&& 15) 0 :: lld_loop fuel (v >>> 4)

/-- `%x`. -/
def mg_lld (val : Nat) : Bytes := if val = 0 then ascii "0" else (lld_loop 16 val).reverse

/-- The numbers of two bytes each that `ntohs` reads. -/
def words : Bytes → List Nat
  | a :: b :: rest => nat16 a b :: words rest
  | _ => []

def mg_ntoa (addr : MgAddr) : Bytes :=
  if addr.is_ip6 then (ascii ":").intercalate ((words addr.ip6).map mg_lld)
  else (ascii ".").intercalate (addr.ip.map fun b => common_to_string b.toNat)

/-! ## Four numbers -/

/-- The digits of a number of one byte. There may be zeros in front. -/
structure IsOctet (ds : Bytes) : Prop where
  some_digit : ds ≠ []
  digits : ∀ c ∈ ds, isdigit c = true
  fits : digits_value ds ≤ 255

/-- The number that is read on from `v`. -/
def read_on (v : Nat) (ds : Bytes) : Nat := ds.foldl (fun n c => 10 * n + (c.toNat - 48)) v

theorem le_read_on (v : Nat) (ds : Bytes) : v ≤ read_on v ds := by
  induction ds generalizing v with
  | nil => exact Nat.le_refl v
  | cons c ds ih =>
    have hle := ih (10 * v + (c.toNat - 48))
    rw [read_on, List.foldl_cons]
    exact Nat.le_trans (by omega) hle

/-- Digits are read as long as the number fits into a byte. -/
theorem aton4_digits (x y : Bytes) {ds : Bytes} (hds : ∀ c ∈ ds, isdigit c = true) (v : UInt8) (prev : Option UInt8)
    (rest : Bytes) :
    aton4_loop (x ++ v :: y) x.length prev (ds ++ rest) =
      if read_on v.toNat ds ≤ 255 then
        aton4_loop (x ++ UInt8.ofNat (read_on v.toNat ds) :: y) x.length (ds.getLast?.or prev) rest
      else none := by
  induction ds generalizing v prev with
  | nil =>
    have hv : v.toNat ≤ 255 := Nat.le_of_lt_succ v.toNat_lt
    rw [read_on, List.foldl_nil, if_pos hv, UInt8.ofNat_toNat]
    rfl
  | cons c ds ih =>
    rw [List.forall_mem_cons] at hds
    have hget : (x ++ v :: y).getD x.length 0 = v := by
      rw [List.getD_append_right _ _ _ _ (Nat.le_refl _), Nat.sub_self]
      rfl
    have hset (w : UInt8) : (x ++ v :: y).set x.length w = x ++ w :: y := by
      rw [List.set_append_right _ _ (Nat.le_refl _), Nat.sub_self]
      rfl
    have hread : read_on v.toNat (c :: ds) = read_on (v.toNat * 10 + (c.toNat - 48)) ds := by
      rw [read_on, List.foldl_cons, Nat.mul_comm 10]
      rfl
    rw [List.cons_append, aton4_loop, if_pos hds.1, hget, hread]
    simp only [hset]
    by_cases hbig : v.toNat * 10 + (c.toNat - 48) > 255
    · have hle := le_read_on (v.toNat * 10 + (c.toNat - 48)) ds
      rw [if_pos hbig, if_neg (by omega)]
    · have hlast : (c :: ds).getLast?.or prev = ds.getLast?.or (some c) := by
        cases ds with
        | nil => rfl
        | cons d ds => rw [List.getLast?_cons_cons, List.getLast?_eq_some_getLast (List.cons_ne_nil d ds)]; rfl
      have hbyte : (UInt8.ofNat (v.toNat * 10 + (c.toNat - 48))).toNat = v.toNat * 10 + (c.toNat - 48) := by
        rw [UInt8.toNat_ofNat']
        omega
      rw [if_neg hbig, ih hds.2, hbyte, hlast]

/-- What `mg_aton4` makes of the end of the loop. -/
def aton4_end : Option (Bytes × Nat × Option UInt8) → Option Bytes
  | none => none
  | some (data, num_dots, prev) => if num_dots ≠ 3 ∨ prev = some 46 then none else some data

theorem digits_first (str : Bytes) :
    ∃ ds rest, str = ds ++ rest ∧ (∀ c ∈ ds, isdigit c = true) ∧ ∀ c ∈ rest.head?, isdigit c = false :=
  ⟨str.takeWhile isdigit, str.dropWhile isdigit, List.takeWhile_append_dropWhile.symm,
    fun _ hc => List.mem_takeWhile_imp hc, fun c hc => by
      have hnot := List.head?_dropWhile_not isdigit str
      rw [hc] at hnot
      simpa using hnot⟩

/-- A number is read, and then there is nothing more, or a dot. -/
theorem aton4_number {x y ds rest : Bytes} {prev : Option UInt8} (hds : ∀ c ∈ ds, isdigit c = true)
    (hrest : ∀ c ∈ rest.head?, isdigit c = false) (hprev : x = [] ∧ prev = none ∨ prev = some 46) (data : Bytes) :
    aton4_end (aton4_loop (x ++ 0 :: y) x.length prev (ds ++ rest)) = some data ↔
      IsOctet ds ∧
        (rest = [] ∧ x.length = 3 ∧ data = x ++ UInt8.ofNat (digits_value ds) :: y ∨
          ∃ more, rest = 46 :: more ∧ x.length < 3 ∧
            aton4_end (aton4_loop (x ++ UInt8.ofNat (digits_value ds) :: y) (x.length + 1) (some 46) more) =
              some data) := by
  have hvalue : read_on (0 : UInt8).toNat ds = digits_value ds := rfl
  rw [aton4_digits x y hds, hvalue]
  by_cases hfits : digits_value ds ≤ 255
  · rw [if_pos hfits]
    by_cases hempty : ds = []
    · -- Without a digit there is the start, or a dot right before.
      subst hempty
      refine iff_of_false ?_ fun h => h.1.some_digit rfl
      rw [List.getLast?_nil, Option.none_or]
      cases rest with
      | nil =>
        rcases hprev with ⟨rfl, rfl⟩ | rfl <;> simp [aton4_loop, aton4_end]
      | cons c rest =>
        have hc : isdigit c = false := hrest c rfl
        rw [aton4_loop, if_neg (by simp [hc])]
        rcases hprev with ⟨-, rfl⟩ | rfl <;> split_ifs <;> simp_all [aton4_end]
    · have hoctet : IsOctet ds := ⟨hempty, hds, hfits⟩
      have hdigit : isdigit (ds.getLast hempty) = true := hds _ (List.getLast_mem hempty)
      have hdot : ds.getLast hempty ≠ 46 := isdigit_ne hdigit (by decide)
      rw [List.getLast?_eq_some_getLast hempty, Option.some_or]
      cases rest with
      | nil =>
        have heq : x ++ UInt8.ofNat (digits_value ds) :: y = data ↔ data = x ++ UInt8.ofNat (digits_value ds) :: y :=
          eq_comm
        simp [aton4_loop, aton4_end, hoctet, hdot, heq]
      | cons c rest =>
        have hc : isdigit c = false := hrest c rfl
        rw [aton4_loop, if_neg (by simp [hc])]
        by_cases hnext : c = 46
        · by_cases hlt : x.length < 3
          · simp [hnext, hlt, hdot, hoctet, Nat.not_le.2 hlt]
          · simp [hnext, hlt, Nat.not_lt.1 hlt, aton4_end]
        · simp [hnext, aton4_end]
  · rw [if_neg hfits]
    exact iff_of_false (by simp [aton4_end]) fun h => hfits h.1.fits

/-- The numbers from one on, after a dot or at the start. -/
theorem aton4_fields (m : Nat) {x : Bytes} (hx : x.length + m = 3) {prev : Option UInt8}
    (hprev : x = [] ∧ prev = none ∨ prev = some 46) (str data : Bytes) :
    aton4_end (aton4_loop (x ++ List.replicate (m + 1) 0) x.length prev str) = some data ↔
      ∃ fields : List Bytes, fields.length = m + 1 ∧ (∀ f ∈ fields, IsOctet f) ∧
        str = (ascii ".").intercalate fields ∧ data = x ++ fields.map fun f => UInt8.ofNat (digits_value f) := by
  induction m generalizing x prev str with
  | zero =>
    constructor
    · intro h
      obtain ⟨ds, rest, rfl, hds, hrest⟩ := digits_first str
      obtain ⟨hoctet, ⟨rfl, -, hdata⟩ | ⟨more, -, hlt, -⟩⟩ := (aton4_number hds hrest hprev data).1 h
      · exact ⟨[ds], rfl, by simpa using hoctet, by rw [List.append_nil, List.intercalate_singleton], hdata⟩
      · omega
    · rintro ⟨fields, hlen, hall, rfl, hdata⟩
      obtain ⟨f, rfl⟩ := List.length_eq_one_iff.1 hlen
      have hoctet : IsOctet f := hall f List.mem_cons_self
      have h := ((@aton4_number _ [] _ []) hoctet.digits (by simp) hprev data).2
        ⟨hoctet, .inl ⟨rfl, hx, hdata⟩⟩
      rw [List.append_nil] at h
      rwa [List.intercalate_singleton]
  | succ m ih =>
    have hlen (v : UInt8) : (x ++ [v]).length = x.length + 1 := by rw [List.length_append]; rfl
    have hstate (v : UInt8) : x ++ v :: List.replicate (m + 1) 0 = x ++ [v] ++ List.replicate (m + 1) 0 :=
      List.append_cons x v _
    have hmore (v : UInt8) := @ih (x ++ [v]) (by rw [hlen]; omega) (some 46) (.inr rfl)
    constructor
    · intro h
      obtain ⟨ds, rest, rfl, hds, hrest⟩ := digits_first str
      obtain ⟨hoctet, ⟨-, hend, -⟩ | ⟨more, rfl, -, hnext⟩⟩ := (aton4_number hds hrest hprev data).1 h
      · omega
      · rw [hstate, ← hlen] at hnext
        obtain ⟨fields, hcount, hall, rfl, rfl⟩ := (hmore _ more).1 hnext
        have hne : fields ≠ [] := List.ne_nil_of_length_eq_add_one hcount
        refine ⟨ds :: fields, by rw [List.length_cons, hcount], List.forall_mem_cons.2 ⟨hoctet, hall⟩, ?_, ?_⟩
        · rw [List.intercalate_cons_of_ne_nil hne, List.append_assoc]
          rfl
        · rw [List.map_cons, List.append_assoc]
          rfl
    · rintro ⟨fields, hcount, hall, rfl, hdata⟩
      obtain ⟨f, fields, rfl⟩ := List.exists_cons_of_length_eq_add_one hcount
      rw [List.forall_mem_cons] at hall
      rw [List.length_cons, Nat.add_right_cancel_iff] at hcount
      rw [List.map_cons, List.append_cons] at hdata
      have hne : fields ≠ [] := List.ne_nil_of_length_eq_add_one hcount
      have hnext := (hmore (UInt8.ofNat (digits_value f)) _).2 ⟨fields, hcount, hall.2, rfl, hdata⟩
      rw [← hstate, hlen] at hnext
      rw [List.intercalate_cons_of_ne_nil hne, List.append_assoc]
      have hdot : ∀ c ∈ (ascii "." ++ (ascii ".").intercalate fields).head?, isdigit c = false := by
        intro c hc
        obtain rfl : (46 : UInt8) = c := Option.some.inj hc
        rfl
      exact (aton4_number hall.1.digits hdot hprev data).2 ⟨hall.1, .inr ⟨_, rfl, by omega, hnext⟩⟩

theorem aton4_is_loop (str : Bytes) :
    mg_aton4 str = aton4_end (aton4_loop ([] ++ List.replicate (3 + 1) 0) ([] : Bytes).length none str) := rfl

/-- `mg_aton4` accepts four numbers of one byte with dots between them, and gives their values. -/
theorem aton4_accepts (str data : Bytes) :
    mg_aton4 str = some data ↔
      ∃ fields : List Bytes, fields.length = 4 ∧ (∀ f ∈ fields, IsOctet f) ∧ str = (ascii ".").intercalate fields ∧
        data = fields.map fun f => UInt8.ofNat (digits_value f) := by
  rw [aton4_is_loop]
  exact aton4_fields 3 (x := []) rfl (.inl ⟨rfl, rfl⟩) str data

/-! ## Sixteen bytes -/

theorem memcpy_inside {block src : Bytes} {ofs n : Nat} (h : ofs + n ≤ block.length) (hn : n ≤ src.length) :
    ∃ block', memcpy block ofs src n = some block' ∧ block'.length = block.length :=
  ⟨_, if_pos ⟨h, hn⟩, splice_length _ _ _⟩

/-- Where the loop is, inside the 16 bytes, and where a `::` was, if there was one. -/
structure Inside (n dc : Nat) (ip6 : Bytes) : Prop where
  size : ip6.length = 16
  place : n ≤ 14
  colons : dc = 42 ∨ dc ≤ n

/-- The loop ends inside the 16 bytes. -/
def EndsInside : Except Bytes (Nat × Nat × Bytes) → Prop
  | .error ip6 => ip6.length = 16
  | .ok (n, dc, ip6) => Inside n dc ip6

theorem aton6_loop_inside (str : Bytes) {n dc : Nat} {ip6 : Bytes} (h : Inside n dc ip6) (group : Bytes)
    (prev2 prev1 : Option UInt8) : ∃ r, aton6_loop n dc ip6 group prev2 prev1 str = some r ∧ EndsInside r := by
  induction str generalizing n dc ip6 group prev2 prev1 with
  | nil => exact ⟨_, rfl, h⟩
  | cons c str ih =>
    have hwrite {k : Nat} (hk : k ≤ 14) (a b : UInt8) :
        ∃ ip6', memcpy ip6 k [a, b] 2 = some ip6' ∧ ip6'.length = 16 := by
      have hsize := h.size
      obtain ⟨ip6', hcopy, hlen⟩ := (@memcpy_inside ip6 [a, b] k 2) (by omega)
        (Nat.le_refl 2)
      exact ⟨ip6', hcopy, hlen.trans hsize⟩
    have hplace := h.place
    have hcolons := h.colons
    have hnext (k dc' : Nat) (hdc : dc' = 42 ∨ dc' ≤ k) :
        ∃ r, (if k > 14 then some (.error ip6)
          else do
            let ip6 ← memcpy ip6 k [0, 0] 2
            aton6_loop k dc' ip6 [] prev1 (some c) str) = some r ∧ EndsInside r := by
      by_cases hend : k > 14
      · rw [if_pos hend]
        exact ⟨_, rfl, h.size⟩
      · obtain ⟨ip6', hcopy, hlen⟩ := hwrite (Nat.not_lt.1 hend) 0 0
        rw [if_neg hend, hcopy]
        exact ih ⟨hlen, Nat.not_lt.1 hend, hdc⟩ _ _ _
    rw [aton6_loop]
    by_cases hdigit : is_xdigit c = true
    · rw [if_pos hdigit]
      by_cases hlong : group.length > 3
      · rw [if_pos hlong]
        exact ⟨_, rfl, h.size⟩
      · obtain ⟨ip6', hcopy, hlen⟩ := hwrite hplace (UInt8.ofNat (mg_unhexn (group ++ [c]) / 256))
          (UInt8.ofNat (mg_unhexn (group ++ [c])))
        rw [if_neg hlong, be16, hcopy]
        exact ih ⟨hlen, hplace, hcolons⟩ _ _ _
    · rw [if_neg hdigit]
      by_cases hcolon : c = 58
      · rw [if_pos hcolon]
        by_cases hthree : prev1 = some 58 ∧ prev2 = some 58
        · rw [if_pos hthree]
          exact ⟨_, rfl, h.size⟩
        · rw [if_neg hthree]
          exact hnext _ _ (by split_ifs <;> omega)
      · rw [if_neg hcolon]
        exact ⟨_, rfl, h.size⟩

theorem aton4_length {str data : Bytes} (h : mg_aton4 str = some data) : data.length = 4 := by
  rw [aton4_is_loop] at h
  obtain ⟨fields, hcount, -, -, rfl⟩ := (aton4_fields 3 (x := []) rfl (.inl ⟨rfl, rfl⟩) str data).1 h
  rw [List.nil_append, List.length_map, hcount]

theorem mapped_length {str ip : Bytes} (h : mg_v4mapped str = some ip) : ip.length = 4 := by
  rw [mg_v4mapped] at h
  split_ifs at h
  exact aton4_length h

/-- The text of an address in 16 bytes is read without an access outside them. -/
theorem aton6_inside (str : Bytes) {addr : MgAddr} (h : addr.ip6.length = 16) :
    ∃ r, mg_aton6 str addr = some r ∧ r.2.ip6.length = 16 := by
  rw [mg_aton6]
  generalize (if str.length > 2 ∧ str.getD 0 0 = 91 then (str.drop 1).take (str.length - 2) else str) = str'
  cases hmapped : mg_v4mapped str' with
  | some ip =>
    refine ⟨_, rfl, ?_⟩
    rw [List.length_append, mapped_length hmapped]
    rfl
  | none =>
    obtain ⟨r, hloop, hends⟩ := aton6_loop_inside str' ⟨h, Nat.zero_le _, .inl rfl⟩ [] none none
    rw [hloop]
    simp only [Option.bind_eq_bind, Option.bind_some]
    cases r with
    | error ip6 => exact ⟨_, rfl, hends⟩
    | ok r =>
      obtain ⟨n, dc, ip6⟩ := r
      simp only
      split_ifs with hfew hless
      · exact ⟨_, rfl, hends.size⟩
      · obtain ⟨hsize, hplace, hcolons⟩ := hends
        have hdc : dc ≤ n := hcolons.resolve_left fun he => hfew ⟨hless, he⟩
        have hfrom : dc ≤ ip6.length := by omega
        obtain ⟨moved, hmove, hlen⟩ := (@memcpy_inside ip6 (ip6.drop dc) (dc + (14 - n)) (n - dc + 2)) (by omega)
          (by rw [List.length_drop]; omega)
        obtain ⟨zeroed, hzero, hlen'⟩ := (@memcpy_inside moved (List.replicate (14 - n) 0) dc (14 - n)) (by omega)
          (by rw [List.length_replicate])
        rw [memmove, if_pos hfrom, hmove]
        simp only [Option.bind_some, zeromem, hzero]
        exact ⟨_, rfl, by rw [hlen', hlen, hsize]⟩
      · exact ⟨_, rfl, hends.size⟩

/-- Whatever the host is, nothing is written outside the 16 bytes. -/
theorem aton_inside (str : Bytes) {addr : MgAddr} (h : addr.ip6.length = 16) :
    ∃ r, mg_aton str addr = some r ∧ r.2.ip6.length = 16 := by
  rw [mg_aton]
  split_ifs
  · exact ⟨_, rfl, h⟩
  · exact ⟨_, rfl, h⟩
  · cases mg_aton4 str with
    | none => exact aton6_inside str h
    | some ip => exact ⟨_, rfl, h⟩

/-- More numbers than there is room for. -/
theorem aton_inside_nine :
    ∃ r, mg_aton (ascii "1:2:3:4:5:6:7:8:9") ⟨[0, 0, 0, 0], List.replicate 16 0, false⟩ = some r ∧
      r.2.ip6.length = 16 :=
  aton_inside _ rfl

/-! ## What is printed -/

theorem unhexn_append (s : Bytes) (c : UInt8) : mg_unhexn (s ++ [c]) = mg_unhexn s <<< 4 ||| mg_unhex_nimble c := by
  rw [mg_unhexn, List.foldl_append]
  rfl

theorem hex_letter {d : Nat} (h : d < 16) :
    is_xdigit ((ascii "0123456789abcdef").getD d 0) = true ∧
      mg_unhex_nimble ((ascii "0123456789abcdef").getD d 0) = d := by
  have hall : ∀ d < 16, is_xdigit ((ascii "0123456789abcdef").getD d 0) = true ∧
      mg_unhex_nimble ((ascii "0123456789abcdef").getD d 0) = d := by decide
  exact hall d h

theorem lld_loop_reads {fuel v : Nat} (h : v < 16 ^ fuel) :
    (∀ c ∈ lld_loop fuel v, is_xdigit c = true) ∧ mg_unhexn (lld_loop fuel v).reverse = v := by
  induction fuel generalizing v with
  | zero =>
    rw [pow_zero, Nat.lt_one_iff] at h
    subst h
    exact ⟨fun c hc => (by cases hc), rfl⟩
  | succ fuel ih =>
    rw [lld_loop]
    split_ifs with hv
    · subst hv
      exact ⟨fun c hc => (by cases hc), rfl⟩
    · have hdigit : v &&& 15 < 2 ^ 4 := Nat.and_lt_two_pow v (by decide)
      have hshift : v >>> 4 < 16 ^ fuel := by
        rw [Nat.shiftRight_eq_div_pow]
        rw [pow_succ] at h
        omega
      obtain ⟨hdigits, hvalue⟩ := ih hshift
      refine ⟨List.forall_mem_cons.2 ⟨(hex_letter hdigit).1, hdigits⟩, ?_⟩
      rw [List.reverse_cons, unhexn_append, hvalue, (hex_letter hdigit).2, ← Nat.shiftLeft_add_eq_or_of_lt hdigit,
        Nat.shiftRight_eq_div_pow, Nat.shiftLeft_eq, show 15 = 2 ^ 4 - 1 from rfl, Nat.and_two_pow_sub_one_eq_mod]
      exact Nat.div_add_mod' v 16

theorem lld_loop_length {fuel v k : Nat} (h : v < 16 ^ k) : (lld_loop fuel v).length ≤ k := by
  induction fuel generalizing v k with
  | zero => exact Nat.zero_le _
  | succ fuel ih =>
    rw [lld_loop]
    split_ifs with hv
    · exact Nat.zero_le _
    · cases k with
      | zero => omega
      | succ k =>
        refine Nat.succ_le_succ (ih ?_)
        rw [Nat.shiftRight_eq_div_pow]
        rw [pow_succ] at h
        omega

/-- A number of two bytes is printed with one to four digits. -/
theorem lld_reads {v : Nat} (h : v < 65536) :
    mg_lld v ≠ [] ∧ (mg_lld v).length ≤ 4 ∧ (∀ c ∈ mg_lld v, is_xdigit c = true) ∧ mg_unhexn (mg_lld v) = v := by
  have hfuel : v < 16 ^ 16 := by omega
  obtain ⟨hdigits, hvalue⟩ := lld_loop_reads hfuel
  rw [mg_lld]
  split_ifs with hv
  · subst hv
    decide +kernel
  · refine ⟨?_, ?_, ?_, hvalue⟩
    · rw [lld_loop, if_neg hv]
      simp
    · rw [List.length_reverse]
      exact lld_loop_length (k := 4) h
    · simpa using hdigits

theorem write_pair (x y : Bytes) (u v a b : UInt8) :
    memcpy (x ++ [u, v] ++ y) x.length [a, b] 2 = some (x ++ [a, b] ++ y) :=
  memcpy_middle x y (b := [u, v]) (n := 2) (Nat.le_refl 2) rfl

/-- The digits of a number are read. -/
theorem aton6_group (x y : Bytes) {ds : Bytes} (hne : ds ≠ []) (hds : ∀ c ∈ ds, is_xdigit c = true) (dc : Nat)
    (rest : Bytes) :
    ∀ (u v : UInt8) (group : Bytes) (prev2 prev1 : Option UInt8), group.length + ds.length ≤ 4 →
      ∃ p2 p1, p1 ≠ none ∧ p1 ≠ some 58 ∧
        aton6_loop x.length dc (x ++ [u, v] ++ y) group prev2 prev1 (ds ++ rest) =
          aton6_loop x.length dc (x ++ be16 (mg_unhexn (group ++ ds)) ++ y) (group ++ ds) p2 p1 rest := by
  induction ds with
  | nil => exact absurd rfl hne
  | cons c ds ih =>
    intro u v group prev2 prev1 hlen
    rw [List.forall_mem_cons] at hds
    rw [List.length_cons] at hlen
    have hcolon : c ≠ 58 := by
      rintro rfl
      exact absurd hds.1 (by decide)
    have hstep : aton6_loop x.length dc (x ++ [u, v] ++ y) group prev2 prev1 (c :: ds ++ rest) =
        aton6_loop x.length dc (x ++ be16 (mg_unhexn (group ++ [c])) ++ y) (group ++ [c]) prev1 (some c) (ds ++ rest) := by
      rw [List.cons_append, aton6_loop, if_pos hds.1, if_neg (by omega), be16, write_pair]
      rfl
    rw [hstep]
    by_cases hlast : ds = []
    · subst hlast
      exact ⟨prev1, some c, Option.some_ne_none c, by simpa using hcolon, rfl⟩
    · have hgroup : (group ++ [c]).length + ds.length ≤ 4 := by
        rw [List.length_append, List.length_singleton]
        omega
      obtain ⟨p2, p1, hsome, hdigit, hrest⟩ := ih hlast hds.2 _ _ (group ++ [c]) prev1 (some c) hgroup
      rw [List.append_assoc group, List.singleton_append] at hrest
      exact ⟨p2, p1, hsome, hdigit, hrest⟩

theorem two_more {A : Type} {xs : List A} (h : 2 ≤ xs.length) : ∃ a b rest, xs = a :: b :: rest := by
  match xs, h with
  | a :: b :: rest, _ => exact ⟨a, b, rest, rfl⟩
  | [_], h => rw [List.length_singleton] at h; omega
  | [], h => rw [List.length_nil] at h; omega

/-- The numbers are read, one after the other. -/
theorem aton6_words {vals : List Nat} (hne : vals ≠ []) (hvals : ∀ w ∈ vals, w < 65536) :
    ∀ (x y : Bytes) (u v : UInt8) (prev2 prev1 : Option UInt8), x.length + 2 * vals.length = 16 →
      y.length + 2 = 2 * vals.length →
      aton6_loop x.length 42 (x ++ [u, v] ++ y) [] prev2 prev1 ((ascii ":").intercalate (vals.map mg_lld)) =
        some (.ok (14, 42, x ++ vals.flatMap be16)) := by
  induction vals with
  | nil => exact absurd rfl hne
  | cons w vals ih =>
    intro x y u v prev2 prev1 hx hy
    rw [List.forall_mem_cons] at hvals
    obtain ⟨hsome, hlen, hdigits, hvalue⟩ := lld_reads hvals.1
    have hgroup (rest : Bytes) := aton6_group x y hsome hdigits 42 rest u v [] prev2 prev1
      (by rw [List.length_nil, Nat.zero_add]; exact hlen)
    rw [List.nil_append, hvalue] at hgroup
    rw [List.length_cons] at hx hy
    by_cases hlast : vals = []
    · subst hlast
      obtain ⟨p2, p1, -, -, hread⟩ := hgroup []
      have hx14 : x.length = 14 := by simpa using hx
      have hy0 : y = [] := List.length_eq_zero_iff.1 (by simpa using hy)
      subst hy0
      rw [List.map_singleton, List.intercalate_singleton, List.flatMap_singleton]
      rw [List.append_nil (mg_lld w)] at hread
      rw [hread, aton6_loop, hx14, List.append_nil]
    · obtain ⟨p2, p1, hprev, hdigit, hread⟩ := hgroup (ascii ":" ++ (ascii ":").intercalate (vals.map mg_lld))
      have hpos := List.length_pos_iff.2 hlast
      obtain ⟨a, b, y, rfl⟩ := (@two_more _ y) (by omega)
      simp only [List.length_cons] at hy
      have hplace : (x ++ be16 w).length = x.length + 2 := List.length_append
      have hcolon : aton6_loop x.length 42 (x ++ be16 w ++ a :: b :: y) (mg_lld w) p2 p1
          (ascii ":" ++ (ascii ":").intercalate (vals.map mg_lld)) =
          aton6_loop (x ++ be16 w).length 42 (x ++ be16 w ++ [0, 0] ++ y) [] p1 (some 58)
            ((ascii ":").intercalate (vals.map mg_lld)) := by
        show aton6_loop x.length 42 _ (mg_lld w) p2 p1 (58 :: (ascii ":").intercalate (vals.map mg_lld)) = _
        have hnext : ¬ (p1 = none ∨ p1 = some 58) := not_or.2 ⟨hprev, hdigit⟩
        have hroom : ¬ x.length + 2 > 14 := by omega
        have hwrite := write_pair (x ++ be16 w) y a b 0 0
        rw [List.append_assoc _ [a, b], hplace] at hwrite
        rw [aton6_loop, if_neg (by decide), if_pos rfl, if_neg fun h => hdigit h.1, hplace]
        simp only [if_neg hdigit, if_neg hnext, if_neg hroom]
        rw [show x ++ be16 w ++ a :: b :: y = x ++ be16 w ++ ([a, b] ++ y) from rfl, hwrite]
        rfl
      rw [List.map_cons, List.intercalate_cons_of_ne_nil (by simpa using hlast), List.append_assoc (mg_lld w), hread,
        hcolon, ih hlast hvals.2 (x ++ be16 w) y 0 0 _ _ (by rw [hplace]; omega) (by omega), List.flatMap_cons,
        List.append_assoc]

/-- The numbers of an address, and their bytes. -/
theorem words_bytes (ip6 : Bytes) (n : Nat) (h : ip6.length = 2 * n) :
    (words ip6).length = n ∧ (∀ w ∈ words ip6, w < 65536) ∧ (words ip6).flatMap be16 = ip6 := by
  induction n generalizing ip6 with
  | zero =>
    obtain rfl := List.length_eq_zero_iff.1 h
    exact ⟨rfl, fun w hw => (by cases hw), rfl⟩
  | succ n ih =>
    obtain ⟨a, b, rest, rfl⟩ := (@two_more _ ip6) (by omega)
    have hrest : rest.length = 2 * n := by
      simp only [List.length_cons] at h
      omega
    obtain ⟨hlen, hsmall, hbytes⟩ := ih rest hrest
    have ha := a.toNat_lt
    have hb := b.toNat_lt
    have hpair : be16 (nat16 a b) = [a, b] := by
      have hhigh : nat16 a b / 256 = a.toNat := by
        rw [nat16]
        omega
      have hlow : UInt8.ofNat (nat16 a b) = b := by
        rw [← UInt8.toNat_inj, UInt8.toNat_ofNat', nat16]
        omega
      rw [be16, hhigh, hlow, UInt8.ofNat_toNat]
    refine ⟨by rw [words, List.length_cons, hlen], List.forall_mem_cons.2 ⟨?_, hsmall⟩, ?_⟩
    · rw [nat16]
      omega
    · rw [words, List.flatMap_cons, hpair, hbytes]
      rfl

/-- A colon is not in four numbers. -/
theorem aton4_colon {str : Bytes} (h : 58 ∈ str) (data : Bytes) (num_dots : Nat) (prev : Option UInt8) :
    aton4_loop data num_dots prev str = none := by
  induction str generalizing data num_dots prev with
  | nil => cases h
  | cons c str ih =>
    rw [aton4_loop]
    by_cases hc : c = 58
    · subst hc
      rfl
    · have hmore := ih ((List.mem_cons.1 h).resolve_left (Ne.symm hc))
      simp only [hmore, ite_self]

theorem not_localhost {str : Bytes} {c : UInt8} (hc : c ∈ str) (h : mg_lower c ∉ ascii "localhost") :
    str.map mg_lower ≠ ascii "localhost" := fun he => h (he ▸ List.mem_map_of_mem hc)

theorem separator_mem (c : UInt8) (a b : Bytes) (l : List Bytes) : c ∈ [c].intercalate (a :: b :: l) := by
  rw [List.intercalate_cons_cons]
  simp

/-- Four numbers that are printed are read back. -/
theorem aton4_ntoa {ip : Bytes} (h : ip.length = 4) :
    mg_aton4 ((ascii ".").intercalate (ip.map fun b => common_to_string b.toNat)) = some ip := by
  have hbyte (b : UInt8) : b.toNat ≤ 255 := Nat.le_of_lt_succ b.toNat_lt
  have hfields : ∀ f ∈ ip.map fun b => common_to_string b.toNat, IsOctet f := by
    intro f hf
    obtain ⟨b, -, rfl⟩ := List.mem_map.1 hf
    exact ⟨common_to_string_ne_nil _, isdigit_common_to_string _, by rw [digits_value_common_to_string]; exact hbyte b⟩
  have hback : (ip.map fun b => common_to_string b.toNat).map (fun f => UInt8.ofNat (digits_value f)) = ip := by
    rw [List.map_map]
    refine List.map_id'' (fun b => ?_) ip
    rw [Function.comp_apply, digits_value_common_to_string, UInt8.ofNat_toNat]
  have hcount : (ip.map fun b => common_to_string b.toNat).length = 4 := by rw [List.length_map, h]
  generalize (ip.map fun b => common_to_string b.toNat) = fields at hfields hback hcount ⊢
  rw [aton4_is_loop, aton4_fields 3 (x := []) rfl (.inl ⟨rfl, rfl⟩) _ ip]
  exact ⟨fields, hcount, hfields, rfl, hback.symm⟩

/-- An address of 16 bytes that is printed is read back. -/
theorem aton6_ntoa {ip6 : Bytes} (h : ip6.length = 16) {before : MgAddr} (hbefore : before.ip6.length = 16) :
    mg_aton6 ((ascii ":").intercalate ((words ip6).map mg_lld)) before =
      some (true, { before with ip6 := ip6, is_ip6 := true }) := by
  obtain ⟨hlen, hsmall, hbytes⟩ := words_bytes ip6 8 h
  have hne : words ip6 ≠ [] := List.ne_nil_of_length_eq_add_one hlen
  obtain ⟨w, ws, hws⟩ := List.exists_cons_of_ne_nil hne
  have hw := lld_reads (hsmall w (hws ▸ List.mem_cons_self))
  obtain ⟨d, ds, hds⟩ := List.exists_cons_of_ne_nil hw.1
  have hdigit : is_xdigit d = true := hw.2.2.1 d (hds ▸ List.mem_cons_self)
  obtain ⟨more, htext⟩ : ∃ more, (ascii ":").intercalate ((words ip6).map mg_lld) = d :: more := by
    rw [hws, List.map_cons, hds]
    exact ⟨_, List.intercalate_cons_cons_left⟩
  have hloop : aton6_loop 0 42 before.ip6 [] none none (d :: more) = some (.ok (14, 42, ip6)) := by
    obtain ⟨u, v, y, hy⟩ := (@two_more _ before.ip6) (by omega)
    rw [← htext, hy]
    rw [hy] at hbefore
    simp only [List.length_cons] at hbefore
    have hread := aton6_words hne hsmall [] y u v none none (by rw [hlen]; rfl) (by rw [hlen]; omega)
    rw [List.nil_append, hbytes] at hread
    exact hread
  have hcolon : d ≠ 58 := by
    rintro rfl
    exact absurd hdigit (by decide)
  have hbracket : d ≠ 91 := by
    rintro rfl
    exact absurd hdigit (by decide)
  have hmapped : mg_v4mapped (d :: more) = none := by
    rw [mg_v4mapped]
    split_ifs with hshort hmark hmark'
    · rfl
    · rfl
    · exact absurd (Or.inl hcolon) hmark
    · rfl
  rw [htext, mg_aton6, if_neg fun hb => hbracket hb.2, hmapped, hloop]
  rfl

/-- An address that is printed is read back, whatever was there before. -/
theorem aton_ntoa (addr before : MgAddr) (hip : addr.ip.length = 4) (hip6 : addr.ip6.length = 16)
    (hbefore : before.ip6.length = 16) :
    mg_aton (mg_ntoa addr) before =
      some (true, if addr.is_ip6 then { before with ip6 := addr.ip6, is_ip6 := true }
        else { before with ip := addr.ip, is_ip6 := false }) := by
  cases hkind : addr.is_ip6 with
  | true =>
    have htext : mg_ntoa addr = (ascii ":").intercalate ((words addr.ip6).map mg_lld) := by rw [mg_ntoa, if_pos hkind]
    have hcolon : 58 ∈ (ascii ":").intercalate ((words addr.ip6).map mg_lld) := by
      obtain ⟨a, b, rest, hab⟩ := (@two_more _ ((words addr.ip6).map mg_lld))
        (by rw [List.length_map, (words_bytes addr.ip6 8 hip6).1]; omega)
      rw [hab]
      exact separator_mem 58 a b rest
    have hnone : mg_aton4 ((ascii ":").intercalate ((words addr.ip6).map mg_lld)) = none := by
      rw [mg_aton4, aton4_colon hcolon]
    rw [htext, mg_aton, if_neg (List.ne_nil_of_mem hcolon), if_neg (not_localhost hcolon (by decide)), hnone]
    exact aton6_ntoa hip6 hbefore
  | false =>
    have htext : mg_ntoa addr = (ascii ".").intercalate (addr.ip.map fun b => common_to_string b.toNat) := by
      rw [mg_ntoa, if_neg (by rw [hkind]; exact Bool.false_ne_true)]
    have hdot : 46 ∈ (ascii ".").intercalate (addr.ip.map fun b => common_to_string b.toNat) := by
      obtain ⟨a, b, rest, hab⟩ := (@two_more _ (addr.ip.map fun b => common_to_string b.toNat))
        (by rw [List.length_map, hip]; omega)
      rw [hab]
      exact separator_mem 46 a b rest
    rw [htext, mg_aton, if_neg (List.ne_nil_of_mem hdot), if_neg (not_localhost hdot (by decide)), aton4_ntoa hip]
    rfl

theorem aton_ntoa_six :
    let addr : MgAddr := ⟨[0, 0, 0, 0], [0x20, 1, 0xd, 0xb8, 0, 0, 0, 0, 0, 0, 0, 0, 0, 0, 0xff, 1], true⟩
    let before : MgAddr := ⟨[0, 0, 0, 0], List.replicate 16 0, false⟩
    mg_aton (mg_ntoa addr) before =
      some (true, if addr.is_ip6 then { before with ip6 := addr.ip6, is_ip6 := true }
        else { before with ip := addr.ip, is_ip6 := false }) :=
  aton_ntoa _ _ rfl rfl rfl

end RtcClient
