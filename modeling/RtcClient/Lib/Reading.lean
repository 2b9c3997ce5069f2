import RtcClient.Lib.Bytes
/-!
# Results with the reads they took

A function that reads memory gives a `Reading`: its result and the offsets it read on
the way, in order. Forgetting the offsets commutes with everything (`value_bind`), and
`Within` says that they lie in a range.
-/

namespace RtcClient.Lib

/-- A result and the offsets read for it. -/
structure Reading (A : Type) where
  value : A
  reads : List Nat := []

namespace Reading

variable {A B : Type}

instance : Monad Reading where
  pure a := ⟨a, []⟩
  bind x f := ⟨(f x.value).value, x.reads ++ (f x.value).reads⟩

/-- The byte at offset `i`. -/
def byte (b : Buffer) (i : Nat) : Reading UInt8 := ⟨b.get i, [i]⟩

/-- The `len` bytes from offset `off` on. -/
def bytes (b : Buffer) (off len : Nat) : Reading Bytes := ⟨b.read off len, List.range' off len⟩

/-- `b[i] == x`. -/
def equals (b : Buffer) (i : Nat) (x : UInt8) : Reading Bool := do return decide ((← byte b i) = x)

/-- `x && y`, which looks at `y` only if it has to. -/
def both (x y : Reading Bool) : Reading Bool := do if ← x then y else return false

/-- `if (c) return a;`, as the part of a search that may go on. -/
def found (c : Reading Bool) (a : A) : Reading (Option A) := do if ← c then return some a else return none

/-- `if (c) { x }`. -/
def guarded (c : Reading Bool) (x : Reading (Option A)) : Reading (Option A) := do if ← c then x else return none

/-- `y` after `x` has found nothing. -/
def orElse (x y : Reading (Option A)) : Reading (Option A) := do
  match ← x with
  | some a => return some a
  | none => y

/-- `y` after `x` has found nothing, as the last part of a search. -/
def getD (x : Reading (Option A)) (y : Reading A) : Reading A := do
  match ← x with
  | some a => return a
  | none => y

/-- `y`, computed after `x`. -/
def after (x : Reading A) (y : Reading B) : Reading B := ⟨y.value, x.reads ++ y.reads⟩

/-! ## Results -/

@[simp] theorem value_pure (a : A) : (pure a : Reading A).value = a := rfl

@[simp] theorem value_bind (x : Reading A) (f : A → Reading B) : (x >>= f).value = (f x.value).value := rfl

@[simp] theorem value_byte (b : Buffer) (i : Nat) : (byte b i).value = b.get i := rfl

@[simp] theorem value_equals (b : Buffer) (i : Nat) (x : UInt8) : (equals b i x).value = decide (b.get i = x) := rfl

@[simp] theorem value_after (x : Reading A) (y : Reading B) : (x.after y).value = y.value := rfl

@[simp] theorem value_ite {c : Prop} [Decidable c] (x y : Reading A) :
    (if c then x else y).value = if c then x.value else y.value := apply_ite value c x y

@[simp] theorem value_both (x y : Reading Bool) : (x.both y).value = (x.value && y.value) := by
  rw [both, value_bind, value_ite]
  cases x.value <;> rfl

@[simp] theorem value_found (c : Reading Bool) (a : A) :
    (found c a).value = if c.value = true then some a else none := by
  rw [found, value_bind, value_ite]
  rfl

@[simp] theorem value_guarded (c : Reading Bool) (x : Reading (Option A)) :
    (guarded c x).value = if c.value = true then x.value else none := by
  rw [guarded, value_bind, value_ite]
  rfl

@[simp] theorem value_orElse (x y : Reading (Option A)) :
    (x.orElse y).value = if x.value = none then y.value else x.value := by
  rw [orElse, value_bind]
  cases x.value <;> rfl

/-- A value found under a test, or else what `y` finds. -/
theorem value_orElse_found (c : Reading Bool) (a : A) (y : Reading (Option A)) :
    ((found c a).orElse y).value = if c.value = true then some a else y.value := by
  rw [value_orElse, value_found]
  by_cases hc : c.value = true
  · rw [if_pos hc, if_pos hc, if_neg (Option.some_ne_none a)]
  · rw [if_neg hc, if_neg hc, if_pos rfl]

@[simp] theorem value_getD (x : Reading (Option A)) (y : Reading A) : (x.getD y).value = x.value.getD y.value := by
  rw [getD, value_bind]
  cases x.value <;> rfl

/-! ## Where the reads are -/

/-- Every read is in `[lo, hi)`. -/
def Within (lo hi : Nat) (x : Reading A) : Prop := ∀ i ∈ x.reads, lo ≤ i ∧ i < hi

section
variable {lo hi : Nat}

theorem Within.pure (a : A) : Within lo hi (Pure.pure a) := by
  intro i hi
  cases hi

theorem Within.byte {b : Buffer} {i : Nat} (h : lo ≤ i ∧ i < hi) : Within lo hi (byte b i) := by
  intro j hj
  obtain rfl := List.mem_singleton.1 hj
  exact h

/-- A copy reads every byte it gives. -/
theorem within_bytes_iff {b : Buffer} {len : Nat} : Within 0 hi (bytes b 0 len) ↔ len ≤ hi := by
  constructor
  · intro h
    cases len with
    | zero => exact Nat.zero_le _
    | succ n =>
      have hlast : n ∈ (bytes b 0 (n + 1)).reads := List.mem_range'_1.2 ⟨Nat.zero_le _, by omega⟩
      exact (h n hlast).2
  · intro hle i hmem
    have hlt := (List.mem_range'_1.1 hmem).2
    exact ⟨Nat.zero_le _, by omega⟩

theorem Within.bind {x : Reading A} {f : A → Reading B} (hx : Within lo hi x) (hf : Within lo hi (f x.value)) :
    Within lo hi (x >>= f) := by
  intro i hi
  rcases List.mem_append.1 hi with h | h
  · exact hx i h
  · exact hf i h

theorem Within.after {x : Reading A} {y : Reading B} (hx : Within lo hi x) (hy : Within lo hi y) :
    Within lo hi (x.after y) := hx.bind (f := fun _ => y) hy

theorem Within.ite {c : Prop} [Decidable c] {x y : Reading A} (hx : c → Within lo hi x) (hy : ¬ c → Within lo hi y) :
    Within lo hi (if c then x else y) := by
  by_cases h : c
  · rw [if_pos h]
    exact hx h
  · rw [if_neg h]
    exact hy h

/-- A smaller range lies in a larger one. -/
theorem Within.mono {lo' hi' : Nat} {x : Reading A} (h : Within lo hi x) (hlo : lo' ≤ lo) (hhi : hi ≤ hi') :
    Within lo' hi' x := fun i hi => ⟨Nat.le_trans hlo (h i hi).1, Nat.lt_of_lt_of_le (h i hi).2 hhi⟩

theorem Within.equals {b : Buffer} {i : Nat} {x : UInt8} (h : lo ≤ i ∧ i < hi) : Within lo hi (equals b i x) :=
  (Within.byte h).bind (.pure _)

theorem Within.both {x y : Reading Bool} (hx : Within lo hi x) (hy : Within lo hi y) : Within lo hi (x.both y) :=
  hx.bind (.ite (fun _ => hy) (fun _ => .pure _))

theorem Within.found {c : Reading Bool} {a : A} (hc : Within lo hi c) : Within lo hi (found c a) :=
  hc.bind (.ite (fun _ => .pure _) (fun _ => .pure _))

theorem Within.guarded {c : Reading Bool} {x : Reading (Option A)} (hc : Within lo hi c) (hx : Within lo hi x) :
    Within lo hi (guarded c x) := hc.bind (.ite (fun _ => hx) (fun _ => .pure _))

theorem Within.orElse {x y : Reading (Option A)} (hx : Within lo hi x) (hy : Within lo hi y) :
    Within lo hi (x.orElse y) := by
  apply hx.bind
  cases x.value with
  | some a => exact .pure _
  | none => exact hy

theorem Within.getD {x : Reading (Option A)} {y : Reading A} (hx : Within lo hi x) (hy : Within lo hi y) :
    Within lo hi (x.getD y) := by
  apply hx.bind
  cases x.value with
  | some a => exact .pure _
  | none => exact hy

end

end Reading

end RtcClient.Lib
