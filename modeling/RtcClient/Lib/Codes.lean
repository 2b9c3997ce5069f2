import Mathlib.Data.List.Basic
import Mathlib.Tactic.Simps.Basic
/-!
# Readers and the codes they take

A reader moves a cursor over a stream, and it may fail. A `Coding` says which values of a
type are written, how, and what a reader returns for them. `Reads` says that a reader gives
a result just where the stream goes on with the code of a value: it fails everywhere else.
Readers in sequence read codes in sequence (`Reads.bind`). `Takes` follows a reader over one
given code, which it may fail to read, and `Finds` compares two readers.
-/

namespace RtcClient.Lib

variable {α S A B T U : Type}

/-! ## Streams -/

/-- The stream goes on with `code` at position `p`. -/
def Begins (stream : Nat → α) (p : Nat) (code : List α) : Prop :=
  ∀ i, ∀ h : i < code.length, stream (p + i) = code[i]

theorem Begins.nil (stream : Nat → α) (p : Nat) : Begins stream p [] := fun _ h => absurd h (Nat.not_lt_zero _)

@[simp] theorem begins_nil (stream : Nat → α) (p : Nat) : Begins stream p [] ↔ True := iff_true_intro (.nil stream p)

theorem begins_append {stream : Nat → α} {p : Nat} {c c' : List α} :
    Begins stream p (c ++ c') ↔ Begins stream p c ∧ Begins stream (p + c.length) c' := by
  constructor
  · intro h
    constructor
    · intro i hi
      rw [h i (by rw [List.length_append]; omega), List.getElem_append_left hi]
    · intro i hi
      rw [Nat.add_assoc, h (c.length + i) (by rw [List.length_append]; omega),
        List.getElem_append_right (Nat.le_add_right _ _)]
      simp only [Nat.add_sub_cancel_left]
  · rintro ⟨hc, hc'⟩ i hi
    rcases Nat.lt_or_ge i c.length with hlt | hge
    · rw [hc i hlt, List.getElem_append_left hlt]
    · have hrest := hc' (i - c.length) (by rw [List.length_append] at hi; omega)
      rw [List.getElem_append_right hge, ← hrest]
      congr 1
      omega

theorem begins_singleton {stream : Nat → α} {p : Nat} {x : α} : Begins stream p [x] ↔ stream p = x := by
  constructor
  · intro h
    exact h 0 Nat.one_pos
  · rintro h i hi
    obtain rfl : i = 0 := Nat.lt_one_iff.1 hi
    exact h

theorem begins_cons {stream : Nat → α} {p : Nat} {x : α} {c : List α} :
    Begins stream p (x :: c) ↔ stream p = x ∧ Begins stream (p + 1) c := by
  rw [← List.singleton_append, begins_append, begins_singleton, List.length_singleton]

/-! ## Codings -/

/-- The values of `T` that can be written, their codes, and what is read from them. -/
structure Coding (α T A : Type) where
  Valid : T → Prop
  encode : T → List α
  value : T → A

namespace Coding

/-- Nothing is written. -/
@[simps] def pure (α : Type) (a : A) : Coding α Unit A := ⟨fun _ => True, fun _ => [], fun _ => a⟩

/-- One code after another, where the second may depend on the first value. -/
@[simps] def bind (c : Coding α T A) (d : T → Coding α U B) : Coding α (T × U) B :=
  ⟨fun x => c.Valid x.1 ∧ (d x.1).Valid x.2, fun x => c.encode x.1 ++ (d x.1).encode x.2,
    fun x => (d x.1).value x.2⟩

@[simps] def map (f : A → B) (c : Coding α T A) : Coding α T B := ⟨c.Valid, c.encode, fun t => f (c.value t)⟩

/-- A value just where a condition holds. -/
@[simps] def when (p : Prop) (c : Coding α T A) : Coding α (Option T) (Option A) :=
  ⟨fun o => (o.isSome ↔ p) ∧ ∀ t ∈ o, c.Valid t, fun o => o.elim [] c.encode, fun o => o.map c.value⟩

/-- Nothing is written, and nothing read where a condition holds. -/
@[simps] def check (α : Type) (p : Prop) (a : A) : Coding α Unit A := ⟨fun _ => ¬ p, fun _ => [], fun _ => a⟩

/-- So many values. -/
@[simps] def times (n : Nat) (c : Coding α T A) : Coding α (List T) (List A) :=
  ⟨fun ts => ts.length = n ∧ ∀ t ∈ ts, c.Valid t, fun ts => ts.flatMap c.encode, fun ts => ts.map c.value⟩

end Coding

/-! ## Readers -/

/-- `r` if a condition holds. -/
def when (p : Prop) [Decidable p] (r : StateT S Option A) : StateT S Option (Option A) :=
  if p then some <$> r else pure none

/-- `r` so many times. -/
def times : Nat → StateT S Option A → StateT S Option (List A)
  | 0, _ => pure []
  | n + 1, r => do
    let a ← r
    (a :: ·) <$> times n r

/-- `r` takes the codes of `c`, and gives a result nowhere else. -/
def Reads (cursor : Nat → S) (stream : Nat → α) (r : StateT S Option A) (c : Coding α T A) : Prop :=
  ∀ p a s, r (cursor p) = some (a, s) ↔
    ∃ t, c.Valid t ∧ Begins stream p (c.encode t) ∧ c.value t = a ∧ cursor (p + (c.encode t).length) = s

namespace Reads

variable {cursor : Nat → S} {stream : Nat → α} {r : StateT S Option A} {c : Coding α T A}

/-- What is read from a code. -/
theorem run (h : Reads cursor stream r c) {p : Nat} {t : T} (ht : c.Valid t) (hp : Begins stream p (c.encode t)) :
    r (cursor p) = some (c.value t, cursor (p + (c.encode t).length)) := (h p _ _).2 ⟨t, ht, hp, rfl, rfl⟩

theorem pure (a : A) : Reads cursor stream (Pure.pure a) (.pure α a) := by
  intro p b s
  constructor
  · intro h
    cases h
    exact ⟨(), trivial, .nil _ _, rfl, rfl⟩
  · rintro ⟨_, -, -, rfl, rfl⟩
    rfl

theorem bind {f : A → StateT S Option B} {d : T → Coding α U B} (hr : Reads cursor stream r c)
    (hf : ∀ t, c.Valid t → Reads cursor stream (f (c.value t)) (d t)) :
    Reads cursor stream (r >>= f) (c.bind d) := by
  intro p b s
  change (r (cursor p)).bind (fun x => f x.1 x.2) = some (b, s) ↔ _
  rw [Option.bind_eq_some_iff]
  constructor
  · rintro ⟨⟨a, s'⟩, hrun, hrest⟩
    obtain ⟨t, ht, hcode, rfl, rfl⟩ := (hr p a s').1 hrun
    obtain ⟨t', ht', hcode', rfl, rfl⟩ := (hf t ht _ b s).1 hrest
    refine ⟨(t, t'), ⟨ht, ht'⟩, begins_append.2 ⟨hcode, hcode'⟩, rfl, ?_⟩
    rw [Coding.bind, List.length_append, Nat.add_assoc]
  · rintro ⟨⟨t, t'⟩, ⟨ht, ht'⟩, hcode, rfl, rfl⟩
    obtain ⟨hcode, hcode'⟩ := begins_append.1 hcode
    refine ⟨_, hr.run ht hcode, ?_⟩
    have hrest := (hf t ht).run ht' hcode'
    rwa [Nat.add_assoc, ← List.length_append] at hrest

theorem map (h : Reads cursor stream r c) (f : A → B) : Reads cursor stream (f <$> r) (c.map f) := by
  intro p b s
  change (r (cursor p)).bind (fun x => some (f x.1, x.2)) = some (b, s) ↔ _
  rw [Option.bind_eq_some_iff]
  constructor
  · rintro ⟨⟨a, s'⟩, hrun, hrest⟩
    obtain ⟨t, ht, hcode, rfl, rfl⟩ := (h p a s').1 hrun
    cases hrest
    exact ⟨t, ht, hcode, rfl, rfl⟩
  · rintro ⟨t, ht, hcode, rfl, rfl⟩
    exact ⟨_, h.run ht hcode, rfl⟩

/-- The same codes for the values of another type. -/
theorem of_surjective {c' : Coding α U A} (h : Reads cursor stream r c) (e : U → T)
    (hvalid : ∀ u, c'.Valid u ↔ c.Valid (e u)) (hsurj : ∀ t, c.Valid t → ∃ u, e u = t)
    (hencode : ∀ u, c'.encode u = c.encode (e u)) (hvalue : ∀ u, c.Valid (e u) → c'.value u = c.value (e u)) :
    Reads cursor stream r c' := by
  intro p a s
  rw [h p a s]
  constructor
  · rintro ⟨t, ht, hcode, rfl, rfl⟩
    obtain ⟨u, rfl⟩ := hsurj t ht
    exact ⟨u, (hvalid u).2 ht, hencode u ▸ hcode, hvalue u ht, by rw [hencode u]⟩
  · rintro ⟨u, hu, hcode, rfl, rfl⟩
    have ht := (hvalid u).1 hu
    exact ⟨e u, ht, hencode u ▸ hcode, (hvalue u ht).symm, by rw [hencode u]⟩

theorem when (p : Prop) [Decidable p] (h : p → Reads cursor stream r c) :
    Reads cursor stream (Lib.when p r) (c.when p) := by
  intro q a s
  unfold Lib.when
  by_cases hp : p
  · rw [if_pos hp, (h hp).map some q a s]
    constructor
    · rintro ⟨t, ht, hcode, rfl, rfl⟩
      refine ⟨some t, ⟨iff_of_true rfl hp, ?_⟩, hcode, rfl, rfl⟩
      rintro t' ⟨⟩
      exact ht
    · rintro ⟨o, ⟨hsome, ht⟩, hcode, rfl, rfl⟩
      cases o with
      | none => cases hsome.2 hp
      | some t => exact ⟨t, ht t rfl, hcode, rfl, rfl⟩
  · rw [if_neg hp]
    constructor
    · intro hrun
      cases hrun
      exact ⟨none, ⟨iff_of_false Bool.false_ne_true hp, fun t ht => nomatch ht⟩, .nil _ _, rfl, rfl⟩
    · rintro ⟨o, ⟨hsome, -⟩, hcode, rfl, rfl⟩
      cases o with
      | none => rfl
      | some t => exact absurd (hsome.1 rfl) hp

theorem check (p : Prop) [Decidable p] (a : A) :
    Reads cursor stream (if p then failure else Pure.pure a) (.check α p a) := by
  by_cases hp : p
  · rw [if_pos hp]
    intro q b s
    refine iff_of_false (fun h => nomatch h) ?_
    rintro ⟨_, hnot, -⟩
    exact hnot hp
  · rw [if_neg hp]
    apply (Reads.pure a).of_surjective id
    · intro _
      exact iff_of_true hp trivial
    · intro u _
      exact ⟨u, rfl⟩
    · intro _
      rfl
    · intro _ _
      rfl

theorem times (n : Nat) (h : Reads cursor stream r c) : Reads cursor stream (Lib.times n r) (c.times n) := by
  induction n with
  | zero =>
    intro p as s
    constructor
    · intro hrun
      cases hrun
      exact ⟨[], ⟨rfl, List.forall_mem_nil _⟩, .nil _ _, rfl, rfl⟩
    · rintro ⟨ts, ⟨hlen, -⟩, -, rfl, rfl⟩
      obtain rfl := List.eq_nil_of_length_eq_zero hlen
      rfl
  | succ n ih =>
    intro p as s
    rw [Lib.times, (h.bind fun t _ => ih.map (c.value t :: ·)) p as s]
    constructor
    · rintro ⟨⟨t, ts⟩, ⟨ht, hlen, hts⟩, hcode, rfl, rfl⟩
      exact ⟨t :: ts, ⟨congrArg Nat.succ hlen, List.forall_mem_cons.2 ⟨ht, hts⟩⟩, hcode, rfl, rfl⟩
    · rintro ⟨ts, ⟨hlen, hts⟩, hcode, rfl, rfl⟩
      cases ts with
      | nil => cases hlen
      | cons t ts =>
        obtain ⟨ht, hts⟩ := List.forall_mem_cons.1 hts
        exact ⟨(t, ts), ⟨ht, Nat.succ.inj hlen, hts⟩, hcode, rfl, rfl⟩

end Reads

/-! ## Two readers -/

/-- What `r` finds, `r'` finds too. -/
def Finds (r r' : StateT S Option A) : Prop := ∀ s x, r s = some x → r' s = some x

namespace Finds

variable {r r' : StateT S Option A}

theorem refl (r : StateT S Option A) : Finds r r := fun _ _ h => h

theorem bind {f f' : A → StateT S Option B} (hr : Finds r r') (hf : ∀ a, Finds (f a) (f' a)) :
    Finds (r >>= f) (r' >>= f') := by
  intro s x h
  obtain ⟨⟨a, s'⟩, hrun, hrest⟩ := Option.bind_eq_some_iff.1 h
  exact Option.bind_eq_some_iff.2 ⟨(a, s'), hr s _ hrun, hf a s' x hrest⟩

theorem map (f : A → B) (hr : Finds r r') : Finds (f <$> r) (f <$> r') := by
  intro s x h
  obtain ⟨⟨a, s'⟩, hrun, hrest⟩ := Option.bind_eq_some_iff.1 h
  exact Option.bind_eq_some_iff.2 ⟨(a, s'), hr s _ hrun, hrest⟩

theorem when (p : Prop) [Decidable p] (hr : Finds r r') : Finds (Lib.when p r) (Lib.when p r') := by
  unfold Lib.when
  by_cases hp : p
  · rw [if_pos hp, if_pos hp]
    exact hr.map some
  · rw [if_neg hp, if_neg hp]
    exact refl _

theorem times (n : Nat) (hr : Finds r r') : Finds (Lib.times n r) (Lib.times n r') := by
  induction n with
  | zero => exact refl _
  | succ n ih => exact hr.bind fun a => ih.map (a :: ·)

end Finds

/-! ## One code -/

/-- Where the stream goes on with `code`, up to `limit` at most, `r` reads it and returns `a` if `ok` holds. If
not it fails. -/
def Takes (stream : Nat → Option α) (limit : Nat) (r : StateT Nat Option A) (code : List α) (ok : Prop) (a : A) : Prop :=
  ∀ p, Begins stream p (code.map some) → p + code.length ≤ limit →
    (ok → r p = some (a, p + code.length)) ∧ (¬ ok → r p = none)

namespace Takes

variable {stream : Nat → Option α} {limit : Nat} {r : StateT Nat Option A} {code code' : List α} {ok ok' : Prop} {a : A}

theorem congr (h : Takes stream limit r code ok a) (hcode : code' = code) (hok : ok' ↔ ok) :
    Takes stream limit r code' ok' a := by
  rw [hcode, propext hok]
  exact h

theorem pure (a : A) : Takes stream limit (Pure.pure a) [] True a :=
  fun _ _ _ => ⟨fun _ => rfl, fun hno => absurd trivial hno⟩

theorem bind {f : A → StateT Nat Option B} {b : B} (hr : Takes stream limit r code ok a)
    (hf : Takes stream limit (f a) code' ok' b) : Takes stream limit (r >>= f) (code ++ code') (ok ∧ ok') b := by
  intro p hcode hend
  rw [List.map_append, begins_append, List.length_map] at hcode
  rw [List.length_append, ← Nat.add_assoc] at hend ⊢
  obtain ⟨hrun, hfail⟩ := hr p hcode.1 (by omega)
  obtain ⟨hrun', hfail'⟩ := hf _ hcode.2 hend
  constructor
  · rintro ⟨hok, hok'⟩
    exact Option.bind_eq_some_iff.2 ⟨_, hrun hok, hrun' hok'⟩
  · intro hno
    refine Option.bind_eq_none_iff.2 ?_
    intro x hx
    -- the first reader fails, or the second behind it
    by_cases hok : ok
    · obtain rfl := Option.some.inj ((hrun hok).symm.trans hx)
      exact hfail' (fun hok' => hno ⟨hok, hok'⟩)
    · cases (hfail hok).symm.trans hx

theorem map (f : A → B) (hr : Takes stream limit r code ok a) : Takes stream limit (f <$> r) code ok (f a) := by
  intro p hcode hend
  obtain ⟨hrun, hfail⟩ := hr p hcode hend
  refine ⟨fun hok => Option.bind_eq_some_iff.2 ⟨_, hrun hok, rfl⟩, fun hno => Option.bind_eq_none_iff.2 ?_⟩
  intro x hx
  cases (hfail hno).symm.trans hx

/-- Nothing is read, and `ok` is checked. -/
theorem check (p : Prop) [Decidable p] (a : A) :
    Takes stream limit (if p then failure else Pure.pure a) [] (¬ p) a := by
  intro q _ _
  constructor
  · intro hok
    rw [if_neg hok]
    rfl
  · intro hno
    rw [if_pos (Decidable.not_not.1 hno)]
    rfl

/-- A part that is there just if it is read. -/
theorem when {o : Option T} {encode : T → List α} {okay : T → Prop} {value : T → A} (p : Prop) [Decidable p]
    (hp : o.isSome ↔ p) (h : ∀ t ∈ o, Takes stream limit r (encode t) (okay t) (value t)) :
    Takes stream limit (Lib.when p r) (o.elim [] encode) (∀ t ∈ o, okay t) (o.map value) := by
  unfold Lib.when
  cases o with
  | none =>
    rw [if_neg (fun hyes => nomatch hp.2 hyes)]
    exact (pure none).congr rfl (iff_true_intro fun t ht => nomatch ht)
  | some t =>
    rw [if_pos (hp.1 rfl)]
    exact ((h t rfl).map some).congr rfl ⟨fun hok => hok t rfl, by rintro hok t' ⟨⟩; exact hok⟩

theorem times {encode : T → List α} {okay : T → Prop} {value : T → A} (ts : List T)
    (h : ∀ t ∈ ts, Takes stream limit r (encode t) (okay t) (value t)) :
    Takes stream limit (Lib.times ts.length r) (ts.flatMap encode) (∀ t ∈ ts, okay t) (ts.map value) := by
  induction ts with
  | nil => exact (pure []).congr rfl (iff_true_intro (List.forall_mem_nil _))
  | cons t ts ih =>
    obtain ⟨ht, hts⟩ := List.forall_mem_cons.1 h
    exact (ht.bind ((ih hts).map (value t :: ·))).congr List.flatMap_cons List.forall_mem_cons

end Takes

end RtcClient.Lib
