import Mathlib.Tactic.Ring
import ZeroFrameworks.Kv.Store.StreamIds

/-!
# Ids in the order of their texts

`xread` and `xreadGroup` compare ids as strings.  Decimal texts of one length are ordered as their
numbers; of two lengths, the shorter one comes first when it is at most the leading digits of the
longer one, and last otherwise.  `InStep x y` says that of the first numbers in which the ids differ,
and for `x` below `y` in `(ms, seq)`

    idLe (formatStreamId y) (formatStreamId x) = false ↔ InStep x y
    idLe (formatStreamId x) (formatStreamId y) = true  ↔ InStep x y
-/

namespace Kv

/-! ## Numbers and their leading digits -/

/-- `a` is at most what `b` starts with, in as many digits as `a` has. -/
def Leads (a b : Nat) : Prop := a ≤ b / 10 ^ ((printNat b).length - (printNat a).length)

instance (a b : Nat) : Decidable (Leads a b) := inferInstanceAs (Decidable (_ ≤ _))

/-- The texts of two ids, the lower one first, are in the order of the ids. -/
def InStep (x y : Nat × Nat) : Prop := if x.1 = y.1 then Leads x.2 y.2 else Leads x.1 y.1

instance (x y : Nat × Nat) : Decidable (InStep x y) :=
  inferInstanceAs (Decidable (if x.1 = y.1 then Leads x.2 y.2 else Leads x.1 y.1))

/-! ## Lemmas -/

theorem natOf_foldl (ds : Bytes) (m : Nat) :
    ds.foldl (fun n d => n * 10 + (d.toNat - 48)) m = m * 10 ^ ds.length + natOf ds := by
  unfold natOf
  induction ds generalizing m with
  | nil => simp
  | cons d ds ih =>
    rw [List.foldl_cons, List.foldl_cons, ih, ih (0 * 10 + (d.toNat - 48)), List.length_cons, Nat.pow_succ]
    ring

theorem natOf_append (xs ys : Bytes) : natOf (xs ++ ys) = natOf xs * 10 ^ ys.length + natOf ys := by
  show (xs ++ ys).foldl _ 0 = _
  rw [List.foldl_append, natOf_foldl ys]
  rfl

theorem natOf_cons (d : UInt8) (ds : Bytes) :
    natOf (d :: ds) = (d.toNat - 48) * 10 ^ ds.length + natOf ds := by
  show (d :: ds).foldl _ 0 = _
  rw [List.foldl_cons, natOf_foldl ds, Nat.zero_mul, Nat.zero_add]

theorem natOf_lt {ds : Bytes} (h : ∀ d ∈ ds, isDigit d = true) : natOf ds < 10 ^ ds.length := by
  induction ds with
  | nil => decide
  | cons d ds ih =>
    have hd := (isDigit_iff d).mp (h d List.mem_cons_self)
    have hrest := ih fun e he => h e (List.mem_cons_of_mem d he)
    rw [natOf_cons, List.length_cons, Nat.pow_succ]
    have hle : (d.toNat - 48) * 10 ^ ds.length ≤ 9 * 10 ^ ds.length := Nat.mul_le_mul_right _ (by omega)
    omega

theorem compare_leading {a b m p q : Nat} (hp : p < m) (hq : q < m) :
    compare (a * m + p) (b * m + q) = (compare a b).then (compare p q) := by
  rcases Nat.lt_trichotomy a b with hlt | rfl | hgt
  · have hmul : (a + 1) * m ≤ b * m := Nat.mul_le_mul_right _ hlt
    rw [Nat.add_mul] at hmul
    rw [Nat.compare_eq_lt.mpr hlt, Nat.compare_eq_lt.mpr (by omega)]
    rfl
  · rw [Nat.compare_eq_eq.mpr rfl]
    show _ = compare p q
    rcases Nat.lt_trichotomy p q with h | rfl | h
    · rw [Nat.compare_eq_lt.mpr h, Nat.compare_eq_lt.mpr (by omega)]
    · rw [Nat.compare_eq_eq.mpr rfl, Nat.compare_eq_eq.mpr rfl]
    · rw [Nat.compare_eq_gt.mpr h, Nat.compare_eq_gt.mpr (by omega)]
  · have hmul : (b + 1) * m ≤ a * m := Nat.mul_le_mul_right _ hgt
    rw [Nat.add_mul] at hmul
    rw [Nat.compare_eq_gt.mpr hgt, Nat.compare_eq_gt.mpr (by omega)]
    rfl

theorem compare_digit {a b : UInt8} (ha : isDigit a = true) (hb : isDigit b = true) :
    compare a b = compare (a.toNat - 48) (b.toNat - 48) := by
  rw [isDigit_iff] at ha hb
  show compareOfLessAndEq a b = compareOfLessAndEq _ _
  unfold compareOfLessAndEq
  have hlt : a < b ↔ a.toNat - 48 < b.toNat - 48 := by
    rw [UInt8.lt_iff_toNat_lt]
    omega
  have heq : a = b ↔ a.toNat - 48 = b.toNat - 48 := by
    rw [← UInt8.toNat_inj]
    omega
  simp only [hlt, heq]

theorem compare_dash {d : UInt8} (h : isDigit d = true) : compare (45 : UInt8) d = .lt := by
  have hlt : (45 : UInt8) < d := by
    rw [UInt8.lt_iff_toNat_lt]
    exact Nat.lt_of_lt_of_le (by decide) ((isDigit_iff d).mp h).1
  exact Std.compare_eq_lt.mpr hlt

theorem compare_zero {d : UInt8} (h : isDigit d = true) : compare d 48 ≠ .lt := by
  intro hc
  have hlt : d < 48 := Std.compare_eq_lt.mp hc
  rw [UInt8.lt_iff_toNat_lt] at hlt
  exact Nat.not_lt_of_le ((isDigit_iff d).mp h).1 hlt

/-- Digit texts of one length are ordered as their numbers, and what follows them decides for equal
ones. -/
theorem compare_digits {xs ys : Bytes} (hx : ∀ d ∈ xs, isDigit d = true) (hy : ∀ d ∈ ys, isDigit d = true)
    (hlen : xs.length = ys.length) (u w : Bytes) :
    compare (xs ++ u) (ys ++ w) = (compare (natOf xs) (natOf ys)).then (compare u w) := by
  induction xs generalizing ys with
  | nil =>
    obtain rfl : ys = [] := List.length_eq_zero_iff.mp hlen.symm
    rfl
  | cons a xs ih =>
    cases ys with
    | nil => cases hlen
    | cons b ys =>
      have hxs : ∀ d ∈ xs, isDigit d = true := fun e he => hx e (List.mem_cons_of_mem a he)
      have hys : ∀ d ∈ ys, isDigit d = true := fun e he => hy e (List.mem_cons_of_mem b he)
      have hl : xs.length = ys.length := Nat.succ.inj hlen
      have hxlt : natOf xs < 10 ^ ys.length := hl ▸ natOf_lt hxs
      rw [List.cons_append, List.cons_append, List.compare_cons_cons, ih hxs hys hl, natOf_cons, natOf_cons,
        hl, compare_leading hxlt (natOf_lt hys),
        compare_digit (hx a List.mem_cons_self) (hy b List.mem_cons_self), Ordering.then_assoc]

theorem length_digitsGo_le (fuel : Nat) : ∀ (fuel' a b : Nat) (acc acc' : Bytes), a < fuel → b < fuel' →
    a ≤ b → acc.length ≤ acc'.length → (digitsGo fuel a acc).length ≤ (digitsGo fuel' b acc').length := by
  induction fuel with
  | zero => intro fuel' a b acc acc' ha; omega
  | succ fuel ih =>
    intro fuel' a b acc acc' ha hb hab hacc
    by_cases hsmall : a < 10
    · obtain ⟨ds, hds, hne, -⟩ := natOf_digitsGo fuel' b acc' hb
      have hpos : 0 < ds.length := List.length_pos_iff.mpr hne
      rw [hds, List.length_append, digitsGo, if_pos hsmall, List.length_cons]
      omega
    · cases fuel' with
      | zero => omega
      | succ fuel' =>
        rw [digitsGo, if_neg hsmall, digitsGo, if_neg (by omega)]
        exact ih fuel' (a / 10) (b / 10) _ _ (by omega) (by omega) (Nat.div_le_div_right hab)
          (Nat.succ_le_succ hacc)

theorem length_printNat_le {a b : Nat} (h : a ≤ b) : (printNat a).length ≤ (printNat b).length :=
  length_digitsGo_le (a + 1) (b + 1) a b [] [] (by omega) (by omega) h (Nat.le_refl 0)

theorem natOf_take_printNat (b k : Nat) :
    natOf ((printNat b).take k) = b / 10 ^ ((printNat b).length - k) := by
  obtain ⟨-, hdigits, hb⟩ := printNat_spec b
  have hsplit := natOf_append ((printNat b).take k) ((printNat b).drop k)
  have hlt : natOf ((printNat b).drop k) < _ := natOf_lt fun d hd => hdigits d (List.mem_of_mem_drop hd)
  rw [List.take_append_drop, hb, List.length_drop] at hsplit
  rw [List.length_drop] at hlt
  have hpos : 0 < 10 ^ ((printNat b).length - k) := Nat.pow_pos (by decide)
  calc natOf ((printNat b).take k)
      = natOf ((printNat b).take k) + natOf ((printNat b).drop k) / 10 ^ ((printNat b).length - k) := by
        rw [Nat.div_eq_of_lt hlt, Nat.add_zero]
    _ = (natOf ((printNat b).take k) * 10 ^ ((printNat b).length - k) + natOf ((printNat b).drop k)) /
          10 ^ ((printNat b).length - k) := by
        rw [Nat.add_comm (_ * _), Nat.add_mul_div_right _ _ hpos, Nat.add_comm]
    _ = b / 10 ^ ((printNat b).length - k) := by rw [← hsplit]

/-- Two numbers as texts, the lower one followed by something that sorts before a digit. -/
theorem compare_printNat {a b : Nat} (h : a < b) {u : Bytes}
    (hu : ∀ d t, isDigit d = true → compare u (d :: t) = .lt) (w : Bytes) :
    compare (printNat a ++ u) (printNat b ++ w) = if Leads a b then .lt else .gt := by
  obtain ⟨-, hda, hva⟩ := printNat_spec a
  obtain ⟨-, hdb, hvb⟩ := printNat_spec b
  have hlen := length_printNat_le (Nat.le_of_lt h)
  have htake : (printNat a).length = ((printNat b).take (printNat a).length).length := by
    rw [List.length_take]
    omega
  have hsplit : printNat b ++ w =
      (printNat b).take (printNat a).length ++ ((printNat b).drop (printNat a).length ++ w) := by
    rw [← List.append_assoc, List.take_append_drop]
  rw [hsplit, compare_digits hda (fun d hd => hdb d (List.mem_of_mem_take hd)) htake, hva,
    natOf_take_printNat b]
  rcases Nat.lt_trichotomy a (b / 10 ^ ((printNat b).length - (printNat a).length)) with hlt | heq | hgt
  · rw [if_pos (show Leads a b from Nat.le_of_lt hlt), Nat.compare_eq_lt.mpr hlt]
    rfl
  · -- `b` starts with all of `a`, and goes on with a digit
    rw [if_pos (show Leads a b from Nat.le_of_eq heq), Nat.compare_eq_eq.mpr heq]
    show compare u _ = _
    cases hrest : (printNat b).drop (printNat a).length with
    | nil =>
      have hle := List.drop_eq_nil_iff.mp hrest
      rw [Nat.sub_eq_zero_of_le hle, Nat.pow_zero, Nat.div_one] at heq
      omega
    | cons d t => exact hu d _ (hdb d (List.mem_of_mem_drop (hrest ▸ List.mem_cons_self)))
  · rw [if_neg (show ¬Leads a b from Nat.not_le_of_lt hgt), Nat.compare_eq_gt.mpr hgt]
    rfl

variable {x y : Nat × Nat}

theorem compare_format (h : IdLt x y) :
    compare (formatStreamId x.1 x.2) (formatStreamId y.1 y.2) = if InStep x y then .lt else .gt := by
  rw [formatStreamId_eq, formatStreamId_eq]
  rcases h with hms | ⟨hms, hseq⟩
  · have hstep : InStep x y ↔ Leads x.1 y.1 := by
      unfold InStep
      rw [if_neg (Nat.ne_of_lt hms)]
    simp only [hstep]
    refine compare_printNat hms ?_ _
    intro d t hd
    rw [List.compare_cons_cons, compare_dash hd]
    rfl
  · have hstep : InStep x y ↔ Leads x.2 y.2 := by
      unfold InStep
      rw [if_pos hms]
    simp only [hstep, hms]
    obtain ⟨-, hdigits, -⟩ := printNat_spec y.1
    have hrest := compare_printNat hseq (u := []) (fun d t _ => List.compare_nil_cons) []
    rw [List.append_nil, List.append_nil] at hrest
    rw [compare_digits hdigits hdigits rfl, Nat.compare_eq_eq.mpr rfl, List.compare_cons_cons, hrest]
    rfl

/-! ## Top theorems -/

/-- **A higher id is read as higher exactly when the texts are in step.** -/
theorem idLe_above_iff (h : IdLt x y) :
    idLe (formatStreamId y.1 y.2) (formatStreamId x.1 x.2) = false ↔ InStep x y := by
  have hswap : compare (formatStreamId y.1 y.2) (formatStreamId x.1 x.2) =
      (compare (formatStreamId x.1 x.2) (formatStreamId y.1 y.2)).swap := Std.OrientedCmp.eq_swap
  unfold idLe
  rw [hswap, compare_format h]
  by_cases hstep : InStep x y
  · simp [hstep]
  · simp [hstep]

/-- **A lower id is read as lower exactly when the texts are in step.** -/
theorem idLe_below_iff (h : IdLt x y) :
    idLe (formatStreamId x.1 x.2) (formatStreamId y.1 y.2) = true ↔ InStep x y := by
  unfold idLe
  rw [compare_format h]
  by_cases hstep : InStep x y
  · simp [hstep]
  · simp [hstep]

end Kv
