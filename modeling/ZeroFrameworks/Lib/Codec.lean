import Mathlib.Algebra.Ring.Nat
import Mathlib.Data.List.Basic

/-!
# Readers for concatenated encodings

A reader takes a value off the front of its input.  `Parses r e x` says that `r` reads exactly the
encoding `e` and gives `x`, whatever comes after it; the rules below compose such facts along
the structure of a reader, so that a format's round trip is one rule for each part of it.

A reader that looks at symbols past the end of its input stops with `Fault.past`.  `Sound r` says
that this never happens and that what `r` accepts begins with an encoding of what it gives.

    Parses r e x → Parses (f x) e' y → Parses (r >>= f) (e ++ e') y   (Parses.bind)
    xs and bs agree item by item → Parses (many r bs.length) (bs.flatMap enc) xs   (Parses.many)
    n < 256 ^ k → Parses (readLe k err) (le k n) n   (Parses.readLe)
    Sound r → (∀ x, Sound (f x)) → Sound (r >>= f)   (Sound.bind)
    Parses (r >>= f) e y ↔ e is an encoding for r, then one for f   (Sound.parses_bind)
    many r n stops with an error ↔ r does behind fewer than n encodings   (Sound.stops_many)
-/

namespace Codec

variable {B E α β : Type}

/-! ## Readers -/

/-- Why a reader stops: it looked past the end of its input, or it gave up with an `E`. -/
inductive Fault (E : Type) where
  | past
  | stop (err : E)

/-- A reader over a list of symbols `B` that can stop with an `E`. -/
abbrev Reader (B E : Type) := StateT (List B) (Except (Fault E))

/-- `r` reads the encoding `e` as `x` and leaves what follows. -/
def Parses (r : Reader B E α) (e : List B) (x : α) : Prop := ∀ rest, r (e ++ rest) = .ok (x, rest)

def fail (err : E) : Reader B E α := fun _ => .error (.stop err)

/-- Look at the next `n` symbols, wherever the input ends. -/
def fetch (n : Nat) : Reader B E (List B) := fun input =>
  if n ≤ input.length then .ok (input.take n, input.drop n) else .error .past

/-- Take `n` symbols if there are as many. -/
def take (n : Nat) (err : E) : Reader B E (List B) := fun input =>
  if input.length < n then .error (.stop err) else fetch n input

/-- Read `n` values one after the other. -/
def many (r : Reader B E α) : Nat → Reader B E (List α)
  | 0 => pure []
  | n + 1 => do
    let x ← r
    let xs ← many r n
    pure (x :: xs)

/-- Make room for `n` values and read them.  There is room for what the input may hold, in `width` symbols a value, and
for `limit` values. -/
def reserved (width limit : Nat) (err : E) (r : Reader B E α) (n : Nat) : Reader B E (List α) := fun input =>
  if input.length < width * n ∧ limit < n then .error (.stop err) else many r n input

/-- Give the failures of `r` other names. -/
def named (name : E → E) (r : Reader B E α) : Reader B E α := fun input =>
  match r input with
  | .ok v => .ok v
  | .error .past => .error .past
  | .error (.stop err) => .error (.stop (name err))

/-! ## Little-endian numbers -/

/-- `k` bytes of `n`, least first. -/
def le : Nat → Nat → List UInt8
  | 0, _ => []
  | k + 1, n => UInt8.ofNat n :: le k (n / 256)

def ofLe : List UInt8 → Nat
  | [] => 0
  | b :: bs => b.toNat + 256 * ofLe bs

def readLe (k : Nat) (err : E) : Reader UInt8 E Nat := do
  let bs ← take k err
  pure (ofLe bs)

theorem le_length (k n : Nat) : (le k n).length = k := by
  induction k generalizing n with
  | zero => rfl
  | succ k ih => simp [le, ih]

theorem ofLe_le (k n : Nat) (h : n < 256 ^ k) : ofLe (le k n) = n := by
  induction k generalizing n with
  | zero =>
    have : n = 0 := by simpa using h
    simp [le, ofLe, this]
  | succ k ih =>
    have hk : n / 256 < 256 ^ k := by
      rw [Nat.div_lt_iff_lt_mul (by decide)]
      rwa [Nat.pow_succ] at h
    simp only [le, ofLe, ih _ hk, UInt8.toNat_ofNat']
    omega

theorem ofLe_lt (bs : List UInt8) : ofLe bs < 256 ^ bs.length := by
  induction bs with
  | nil => decide
  | cons b bs ih =>
    have hb := b.toNat_lt
    rw [ofLe, List.length_cons, Nat.pow_succ]
    omega

theorem le_ofLe (bs : List UInt8) : le bs.length (ofLe bs) = bs := by
  induction bs with
  | nil => rfl
  | cons b bs ih =>
    have hb := b.toNat_lt
    have hd : (b.toNat + 256 * ofLe bs) / 256 = ofLe bs := by omega
    have hm : UInt8.ofNat (b.toNat + 256 * ofLe bs) = b := by
      apply UInt8.toNat_inj.mp
      rw [UInt8.toNat_ofNat']
      omega
    rw [ofLe, List.length_cons, le, hd, hm, ih]

/-! ## Rules -/

variable {e : List B} {x : α} {xs : List α} {y : β}

namespace Parses

theorem pure (x : α) : Parses (Pure.pure x : Reader B E α) [] x := fun _ => rfl

theorem bind {r : Reader B E α} {f : α → Reader B E β} {e e' : List B}
    (h : Parses r e x) (h' : Parses (f x) e' y) : Parses (r >>= f) (e ++ e') y := by
  intro rest
  show (r (e ++ e' ++ rest)).bind _ = _
  rw [List.append_assoc, h (e' ++ rest)]
  exact h' rest

theorem bind_pure {r : Reader B E α} (f : α → β) (h : Parses r e x) :
    Parses (r >>= fun a => Pure.pure (f a)) e (f x) := by
  intro rest
  show (r (e ++ rest)).bind _ = _
  rw [h rest]
  rfl

theorem named {r : Reader B E α} (name : E → E) (h : Parses r e x) :
    Parses (Codec.named name r) e x := by
  intro rest
  simp only [Codec.named, h rest]

theorem take (e : List B) (err : E) : Parses (Codec.take e.length err) e e := by
  intro rest
  unfold Codec.take fetch
  rw [if_neg (by simp), if_pos (by simp), List.take_left, List.drop_left]

theorem many {r : Reader B E α} {enc : β → List B} {bs : List β}
    (h : List.Forall₂ (fun b x => Parses r (enc b) x) bs xs) :
    Parses (Codec.many r bs.length) (bs.flatMap enc) xs := by
  induction h with
  | nil => exact .pure []
  | cons hx _ ih => exact hx.bind (ih.bind_pure (_ :: ·))

theorem readLe (k n : Nat) (err : E) (h : n < 256 ^ k) : Parses (Codec.readLe k err) (le k n) n := by
  have ht := Parses.take (le k n) err
  rw [le_length] at ht
  have hp := ht.bind_pure ofLe
  rwa [ofLe_le k n h] at hp

end Parses

/-! ## Readers that stay inside their input -/

/-- `r` never looks past the end, and what it accepts is an encoding of what it gives. -/
structure Sound (r : Reader B E α) : Prop where
  inside : ∀ input, r input ≠ .error .past
  takes : ∀ {input x rest}, r input = .ok (x, rest) → ∃ e, input = e ++ rest ∧ Parses r e x

theorem bind_ok {r : Reader B E α} {f : α → Reader B E β} {input rest : List B}
    (h : (r >>= f) input = .ok (y, rest)) :
    ∃ x mid, r input = .ok (x, mid) ∧ f x mid = .ok (y, rest) := by
  change (r input).bind _ = _ at h
  cases hr : r input with
  | error e => rw [hr] at h; cases h
  | ok v => rw [hr] at h; exact ⟨v.1, v.2, rfl, h⟩

variable {name : E → E} {n : Nat}

namespace Sound

theorem pure (x : α) : Sound (Pure.pure x : Reader B E α) where
  inside _ h := by cases h
  takes h := by
    cases h
    exact ⟨[], rfl, .pure x⟩

theorem fail (err : E) : Sound (Codec.fail err : Reader B E α) where
  inside _ h := by cases h
  takes h := by cases h

theorem bind {r : Reader B E α} {f : α → Reader B E β} (h : Sound r) (h' : ∀ x, Sound (f x)) :
    Sound (r >>= f) where
  inside input hp := by
    change (r input).bind _ = _ at hp
    cases hr : r input with
    | error e =>
      rw [hr] at hp
      cases hp
      exact h.inside input hr
    | ok v =>
      rw [hr] at hp
      exact (h' v.1).inside v.2 hp
  takes hp := by
    obtain ⟨x, mid, hr, hf⟩ := bind_ok hp
    obtain ⟨e, rfl, he⟩ := h.takes hr
    obtain ⟨e', rfl, he'⟩ := (h' x).takes hf
    exact ⟨e ++ e', (List.append_assoc e e' _).symm, he.bind he'⟩

theorem take (n : Nat) (err : E) : Sound (Codec.take n err : Reader B E (List B)) where
  inside input hp := by
    unfold Codec.take fetch at hp
    by_cases hn : input.length < n
    · rw [if_pos hn] at hp; cases hp
    · rw [if_neg hn, if_pos (by omega)] at hp; cases hp
  takes {input x rest} hp := by
    unfold Codec.take fetch at hp
    by_cases hn : input.length < n
    · rw [if_pos hn] at hp; cases hp
    · rw [if_neg hn, if_pos (by omega)] at hp
      cases hp
      refine ⟨input.take n, (List.take_append_drop n input).symm, ?_⟩
      have ht := Parses.take (input.take n) err
      rwa [List.length_take, Nat.min_eq_left (by omega)] at ht

theorem named {r : Reader B E α} (name : E → E) (h : Sound r) : Sound (Codec.named name r) where
  inside input hp := by
    unfold Codec.named at hp
    split at hp
    · cases hp
    next hr => exact h.inside input hr
    · cases hp
  takes {input x rest} hp := by
    have hr : r input = .ok (x, rest) := by
      unfold Codec.named at hp
      split at hp
      next hr => rw [hr, hp]
      all_goals cases hp
    obtain ⟨e, rfl, he⟩ := h.takes hr
    exact ⟨e, rfl, he.named name⟩

theorem many {r : Reader B E α} (h : Sound r) (n : Nat) : Sound (Codec.many r n) := by
  induction n with
  | zero => exact .pure []
  | succ n ih => exact h.bind fun _ => ih.bind fun _ => .pure _

theorem readLe (k : Nat) (err : E) : Sound (Codec.readLe k err) := (take k err).bind fun _ => .pure _

theorem ite {p : Prop} [Decidable p] {r r' : Reader B E α} (h : Sound r) (h' : Sound r') :
    Sound (if p then r else r') := by
  split
  · exact h
  · exact h'

theorem parses_pure {x y : α} :
    Parses (Pure.pure x : Reader B E α) e y ↔ y = x ∧ e = [] := by
  constructor
  · intro h
    have h' := h []
    rw [List.append_nil] at h'
    cases h'
    exact ⟨rfl, rfl⟩
  · rintro ⟨rfl, rfl⟩
    exact .pure _

theorem parses_ite_fail {p : Prop} [Decidable p] {r : Reader B E α} {err : E} :
    Parses (if p then Codec.fail err else r) e x ↔ ¬p ∧ Parses r e x := by
  by_cases hp : p
  · rw [if_pos hp]
    constructor
    · intro h
      cases h []
    · rintro ⟨h, _⟩
      exact absurd hp h
  · rw [if_neg hp]
    exact ⟨fun h => ⟨hp, h⟩, And.right⟩

theorem parses_bind {r : Reader B E α} {f : α → Reader B E β} (h : Sound r)
    (h' : ∀ x, Sound (f x)) : Parses (r >>= f) e y ↔
      ∃ x e1 e2, Parses r e1 x ∧ Parses (f x) e2 y ∧ e = e1 ++ e2 := by
  constructor
  · intro hp
    obtain ⟨x, mid, hr, hf⟩ := bind_ok (hp [])
    obtain ⟨e1, he, h1⟩ := h.takes hr
    obtain ⟨e2, rfl, h2⟩ := (h' x).takes hf
    refine ⟨x, e1, e2, h1, h2, ?_⟩
    rwa [List.append_nil, List.append_nil] at he
  · rintro ⟨x, e1, e2, h1, h2, rfl⟩
    exact h1.bind h2

theorem parses_bind_pure {r : Reader B E α} {f : α → β} (h : Sound r) :
    Parses (r >>= fun x => Pure.pure (f x)) e y ↔ ∃ x, Parses r e x ∧ y = f x := by
  rw [h.parses_bind fun _ => .pure _]
  constructor
  · rintro ⟨x, e1, e2, h1, h2, rfl⟩
    obtain ⟨rfl, rfl⟩ := parses_pure.mp h2
    exact ⟨x, by rwa [List.append_nil], rfl⟩
  · rintro ⟨x, hx, rfl⟩
    exact ⟨x, e, [], hx, .pure _, (List.append_nil e).symm⟩

theorem parses_named {r : Reader B E α} (h : Sound r) :
    Parses (Codec.named name r) e x ↔ Parses r e x := by
  constructor
  · intro hp
    have hr : r e = .ok (x, []) := by
      have hn := hp []
      unfold Codec.named at hn
      rw [List.append_nil] at hn
      split at hn
      next hr => rw [hr, hn]
      all_goals cases hn
    obtain ⟨e', he, h'⟩ := h.takes hr
    rwa [he, List.append_nil]
  · exact .named name

theorem parses_many {r : Reader B E α} (h : Sound r) :
    Parses (Codec.many r n) e xs ↔ ∃ es, List.Forall₂ (Parses r) es xs ∧ es.length = n ∧
      e = es.flatten := by
  constructor
  · intro hp
    induction n generalizing e xs with
    | zero =>
      obtain ⟨rfl, rfl⟩ := parses_pure.mp hp
      exact ⟨[], .nil, rfl, rfl⟩
    | succ n ih =>
      obtain ⟨x, e1, e2, h1, h2, rfl⟩ := (h.parses_bind fun x => (h.many n).bind fun _ => .pure _).mp hp
      obtain ⟨ys, hys, rfl⟩ := (h.many n).parses_bind_pure.mp h2
      obtain ⟨es, hes, rfl, rfl⟩ := ih hys
      exact ⟨e1 :: es, .cons h1 hes, rfl, rfl⟩
  · rintro ⟨es, hes, rfl, rfl⟩
    have hm : Parses (Codec.many r es.length) (es.flatMap id) xs := Parses.many hes
    rwa [List.flatMap_id] at hm

theorem parses_take {x : List B} {err : E} :
    Parses (Codec.take n err) e x ↔ x = e ∧ e.length = n := by
  constructor
  · intro hp
    have hp' := hp []
    unfold Codec.take fetch at hp'
    rw [List.append_nil] at hp'
    by_cases hn : e.length < n
    · rw [if_pos hn] at hp'; cases hp'
    · rw [if_neg hn, if_pos (by omega), Except.ok.injEq, Prod.mk.injEq] at hp'
      have hd := List.drop_eq_nil_iff.mp hp'.2
      have hlen : e.length = n := by omega
      rw [← hp'.1, List.take_of_length_le hd]
      exact ⟨rfl, hlen⟩
  · rintro ⟨rfl, rfl⟩
    exact .take _ err

theorem parses_readLe {k n : Nat} {e : List UInt8} {err : E} :
    Parses (Codec.readLe k err) e n ↔ n < 256 ^ k ∧ e = le k n := by
  constructor
  · intro hp
    obtain ⟨bs, hb, rfl⟩ := (take k err).parses_bind_pure.mp hp
    obtain ⟨rfl, rfl⟩ := parses_take.mp hb
    exact ⟨ofLe_lt bs, (le_ofLe bs).symm⟩
  · rintro ⟨hn, rfl⟩
    exact .readLe k n err hn

/-- Encodings of `n` values that are not too short have the size that is asked for. -/
theorem parses_reserved {width limit n : Nat} {err : E} {r : Reader B E α} (h : Sound r)
    (hwidth : ∀ {e x}, Parses r e x → width ≤ e.length) :
    Parses (Codec.reserved width limit err r n) e xs ↔ Parses (Codec.many r n) e xs := by
  constructor
  · intro hp
    have hread := hp []
    unfold Codec.reserved at hread
    split at hread
    · cases hread
    · obtain ⟨e', he, hm⟩ := (h.many n).takes hread
      rw [List.append_nil, List.append_nil] at he
      rwa [he]
  · intro hm rest
    obtain ⟨es, hes, rfl, rfl⟩ := h.parses_many.mp hm
    have hlen : width * es.length ≤ es.flatten.length := by
      clear hm
      induction hes with
      | nil => simp
      | cons hx _ ih =>
        have hfirst := hwidth hx
        rw [List.length_cons, Nat.mul_succ, List.flatten_cons, List.length_append]
        omega
    unfold Codec.reserved
    rw [if_neg (by rw [List.length_append]; omega)]
    exact hm rest

theorem reserved {width : Nat} {r : Reader B E α} (h : Sound r) (hwidth : ∀ {e x}, Parses r e x → width ≤ e.length)
    (limit : Nat) (err : E) (n : Nat) : Sound (Codec.reserved width limit err r n) where
  inside input hp := by
    unfold Codec.reserved at hp
    split at hp
    · cases hp
    · exact (h.many n).inside input hp
  takes {input x rest} hp := by
    unfold Codec.reserved at hp
    split at hp
    · cases hp
    · obtain ⟨e, rfl, hm⟩ := (h.many n).takes hp
      exact ⟨e, rfl, (h.parses_reserved hwidth).mpr hm⟩

end Sound

/-! ## Where a reader stops -/

/-- The input is an encoding, with something behind it. -/
def Behind (enc : α → List B) (ok : α → Prop) (Q : α → List B → Prop) (input : List B) : Prop :=
  ∃ x rest, ok x ∧ input = enc x ++ rest ∧ Q x rest

/-- The input is encodings of values that `P` knows, of fewer than `n`, with something behind them. -/
def BehindItems (P : β → α → Prop) (enc : β → List B) (n : Nat) (Q : List B → Prop) (input : List B) : Prop :=
  ∃ bs xs rest, List.Forall₂ P bs xs ∧ bs.length < n ∧ input = bs.flatMap enc ++ rest ∧ Q rest

/-- `r` never stops with `err`. -/
def Without (err : E) (r : Reader B E α) : Prop := ∀ input, r input ≠ .error (.stop err)

namespace Without

variable {err : E}

theorem pure (x : α) : Without err (Pure.pure x : Reader B E α) := fun _ h => by cases h

theorem take (n : Nat) {err' : E} (hne : err' ≠ err) : Without err (Codec.take n err' : Reader B E (List B)) := by
  intro input h
  unfold Codec.take fetch at h
  split at h
  · exact hne (Fault.stop.inj (Except.error.inj h))
  · split at h <;> cases h

theorem bind {r : Reader B E α} {f : α → Reader B E β} (h : Without err r) (h' : ∀ x, Without err (f x)) :
    Without err (r >>= f) := by
  intro input hp
  change (r input).bind _ = _ at hp
  cases hr : r input with
  | error fault =>
    rw [hr] at hp
    cases hp
    exact h input hr
  | ok v =>
    rw [hr] at hp
    exact h' v.1 v.2 hp

theorem many {r : Reader B E α} (h : Without err r) (n : Nat) : Without err (Codec.many r n) := by
  induction n with
  | zero => exact .pure []
  | succ n ih => exact h.bind fun _ => ih.bind fun _ => .pure _

theorem readLe (k : Nat) {err' : E} (hne : err' ≠ err) : Without err (Codec.readLe k err') :=
  (take k hne).bind fun _ => .pure _

theorem stops_reserved {r : Reader B E α} {input : List B} {width limit n : Nat} (h : Without err r) :
    reserved width limit err r n input = .error (.stop err) ↔ input.length < width * n ∧ limit < n := by
  unfold reserved
  split
  next hroom => exact iff_of_true rfl hroom
  next hroom => exact iff_of_false (h.many n input) hroom

end Without

theorem stops_named {r : Reader B E α} {input : List B} {err : E} (hname : ∀ e, name e = err ↔ e = err) :
    named name r input = .error (.stop err) ↔ r input = .error (.stop err) := by
  unfold named
  rcases r input with (_ | e) | v
  · simp
  · simp [hname]
  · simp

theorem Without.named {r : Reader B E α} {err : E} (hname : ∀ e, name e = err ↔ e = err)
    (h : Without err r) : Without err (Codec.named name r) := fun input hp => h input ((stops_named hname).mp hp)

namespace Sound

variable {r : Reader B E α} {f : α → Reader B E β} {input : List B} {err : E}

theorem stops_bind (h : Sound r) : (r >>= f) input = .error (.stop err) ↔ r input = .error (.stop err) ∨
    ∃ e x rest, Parses r e x ∧ input = e ++ rest ∧ f x rest = .error (.stop err) := by
  change (r input).bind _ = _ ↔ _
  constructor
  · intro hp
    cases hr : r input with
    | error fault =>
      rw [hr] at hp
      cases hp
      exact .inl rfl
    | ok v =>
      rw [hr] at hp
      obtain ⟨e, he, hx⟩ := h.takes hr
      exact .inr ⟨e, v.1, v.2, hx, he, hp⟩
  · rintro (hr | ⟨e, x, rest, hx, rfl, hf⟩)
    · rw [hr]
      rfl
    · rw [hx rest]
      exact hf

theorem stops_behind (h : Sound r) (hr : Without err r) {enc : α → List B} {ok : α → Prop} {Q : α → List B → Prop}
    (hp : ∀ {e x}, Parses r e x ↔ ok x ∧ e = enc x) (hf : ∀ x rest, f x rest = .error (.stop err) ↔ Q x rest) :
    (r >>= f) input = .error (.stop err) ↔ Behind enc ok Q input := by
  rw [h.stops_bind, or_iff_right (hr input)]
  constructor
  · rintro ⟨e, x, rest, hx, rfl, hstop⟩
    obtain ⟨hok, rfl⟩ := hp.mp hx
    exact ⟨x, rest, hok, rfl, (hf x rest).mp hstop⟩
  · rintro ⟨x, rest, hok, rfl, hQ⟩
    exact ⟨_, x, rest, hp.mpr ⟨hok, rfl⟩, rfl, (hf x rest).mpr hQ⟩

theorem stops_first (h : Sound r) (hf : ∀ x, Without err (f x)) :
    (r >>= f) input = .error (.stop err) ↔ r input = .error (.stop err) := by
  rw [h.stops_bind, or_iff_left]
  rintro ⟨e, x, rest, -, -, hstop⟩
  exact hf x rest hstop

theorem stops_many (h : Sound r) : Codec.many r n input = .error (.stop err) ↔
    ∃ es xs rest, List.Forall₂ (Parses r) es xs ∧ es.length < n ∧ input = es.flatten ++ rest ∧
      r rest = .error (.stop err) := by
  induction n generalizing input with
  | zero => exact iff_of_false (Without.pure [] input) fun ⟨_, _, _, _, hlt, _⟩ => Nat.not_lt_zero _ hlt
  | succ n ih =>
    have hstep : Codec.many r (n + 1) = r >>= fun x => Codec.many r n >>= fun xs => Pure.pure (x :: xs) := rfl
    rw [hstep, h.stops_bind]
    constructor
    · rintro (hr | ⟨e, x, rest, hx, rfl, hf⟩)
      · exact ⟨[], [], input, .nil, Nat.succ_pos n, rfl, hr⟩
      · obtain ⟨es, xs, rest, hes, hlt, rfl, hr⟩ := ih.mp (((h.many n).stops_first fun _ => .pure _).mp hf)
        exact ⟨e :: es, x :: xs, rest, .cons hx hes, Nat.succ_lt_succ hlt, (List.append_assoc e _ rest).symm, hr⟩
    · rintro ⟨es, xs, rest, hes, hlt, rfl, hr⟩
      cases hes with
      | nil => exact .inl hr
      | cons hx hes =>
        refine .inr ⟨_, _, _, hx, List.append_assoc _ _ rest, ((h.many n).stops_first fun _ => .pure _).mpr ?_⟩
        exact ih.mpr ⟨_, _, rest, hes, Nat.lt_of_succ_lt_succ hlt, rfl, hr⟩

theorem stops_items (h : Sound r) {P : β → α → Prop} {enc : β → List B} {Q : List B → Prop}
    (hp : ∀ {es xs}, List.Forall₂ (Parses r) es xs ↔ ∃ bs, List.Forall₂ P bs xs ∧ es = bs.map enc)
    (hQ : ∀ rest, r rest = .error (.stop err) ↔ Q rest) :
    Codec.many r n input = .error (.stop err) ↔ BehindItems P enc n Q input := by
  rw [h.stops_many]
  constructor
  · rintro ⟨es, xs, rest, hes, hlt, rfl, hstop⟩
    obtain ⟨bs, hbs, rfl⟩ := hp.mp hes
    exact ⟨bs, xs, rest, hbs, by rwa [List.length_map] at hlt, by rw [List.flatMap_def], (hQ rest).mp hstop⟩
  · rintro ⟨bs, xs, rest, hbs, hlt, rfl, hstop⟩
    exact ⟨bs.map enc, xs, rest, hp.mpr ⟨bs, hbs, rfl⟩, by rwa [List.length_map], by rw [List.flatMap_def],
      (hQ rest).mpr hstop⟩

end Sound

end Codec
