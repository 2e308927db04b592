import ZeroFrameworks.Lib.Cells

/-!
# Copies into and out of a ring of cells

A copy that reaches the end of the cells goes on at the first, in two parts.  `slot n i` is the cell that position `i`
falls on when there are `n`, for positions below `2 * n`.

    get (put l p d) p |d| = d, and the cells on the other side of the ring stay   (get_put, get_put_of_disjoint)
    put (put l p d) (slot n (p + |d|)) e = put l p (d ++ e)   (put_append)
    get l p (k + m) = get l p k ++ get l (slot n (p + k)) m   (get_add)
-/

namespace Ring

open Cells (overlay window)

variable {α : Type}

/-! ## Algorithm -/

def slot (n i : Nat) : Nat := if i < n then i else i - n

/-- Copy `d` to position `p` on. -/
def put (l : List α) (p : Nat) (d : List α) : List α :=
  if p + d.length ≤ l.length then overlay l p d
  else overlay (overlay l p (d.take (l.length - p))) 0 (d.drop (l.length - p))

/-- Copy `m` cells from position `p` on. -/
def get (l : List α) (p m : Nat) : List α :=
  if p + m ≤ l.length then window l p m
  else window l p (l.length - p) ++ window l 0 (m - (l.length - p))

/-! ## Lemmas -/

theorem slot_lt {n p m : Nat} (hp : p < n) (hm : m ≤ n) : slot n (p + m) < n := by
  unfold slot
  split
  next h => exact h
  next => omega

theorem slot_eq_mod {n p m : Nat} (hp : p < n) (hm : m ≤ n) : slot n (p + m) = (p + m) % n := by
  unfold slot
  split
  next h => rw [Nat.mod_eq_of_lt h]
  next h => rw [Nat.mod_eq_sub_mod (Nat.le_of_not_lt h), Nat.mod_eq_of_lt (by omega)]

theorem slot_slot {n p k m : Nat} (hp : p < n) (hkm : k + m ≤ n) :
    slot n (slot n (p + k) + m) = slot n (p + (k + m)) := by
  unfold slot
  split <;> split <;> split <;> omega

variable {l d : List α}

theorem put_length {p : Nat} (hp : p < l.length) (hd : d.length ≤ l.length) :
    (put l p d).length = l.length := by
  unfold put
  split
  next h => exact Cells.overlay_length h
  next h =>
    have h1 : (overlay l p (d.take (l.length - p))).length = l.length :=
      Cells.overlay_length (by rw [List.length_take]; omega)
    rw [Cells.overlay_length (by rw [h1, List.length_drop]; omega), h1]

theorem get_length {l : List α} {p m : Nat} (hp : p < l.length) (hm : m ≤ l.length) : (get l p m).length = m := by
  unfold get
  split
  next h => exact Cells.window_length h
  next h =>
    rw [List.length_append, Cells.window_length (by omega), Cells.window_length (by omega)]
    omega

theorem getElem?_get {l : List α} {p m : Nat} (hp : p < l.length) (i : Nat) :
    (get l p m)[i]? = if i < m then l[slot l.length (p + i)]? else none := by
  unfold get slot
  split
  next h =>
    rw [Cells.getElem?_window]
    by_cases hi : i < m
    · rw [if_pos hi, if_pos hi, if_pos (by omega)]
    · rw [if_neg hi, if_neg hi]
  next h =>
    have hlen : (window l p (l.length - p)).length = l.length - p := Cells.window_length (by omega)
    by_cases hi : i < l.length - p
    · rw [List.getElem?_append_left (by omega), Cells.getElem?_window, if_pos hi, if_pos (by omega), if_pos (by omega)]
    · rw [List.getElem?_append_right (by omega), hlen, Cells.getElem?_window]
      by_cases hm' : i < m
      · rw [if_pos (by omega), if_pos hm', if_neg (by omega)]
        congr 1
        omega
      · rw [if_neg (by omega), if_neg hm']

/-- The cells after a copy in: the `k`-th after `p` holds the `k`-th of the data. -/
theorem getElem?_put {p k : Nat} (hp : p < l.length) (hd : d.length ≤ l.length) (hk : k < l.length) :
    (put l p d)[slot l.length (p + k)]? = if k < d.length then d[k]? else l[slot l.length (p + k)]? := by
  unfold put slot
  split
  next h =>
    rw [Cells.getElem?_overlay h]
    by_cases hlow : p + k < l.length
    · rw [if_pos hlow]
      by_cases hin : k < d.length
      · rw [if_pos (by omega), if_pos hin, Nat.add_sub_cancel_left]
      · rw [if_neg (by omega), if_neg hin]
    · rw [if_neg hlow, if_neg (by omega), if_neg (by omega)]
  next h =>
    have hfirst : p + (d.take (l.length - p)).length ≤ l.length := by
      rw [List.length_take]
      omega
    have hlen : (overlay l p (d.take (l.length - p))).length = l.length := Cells.overlay_length hfirst
    rw [Cells.getElem?_overlay (by rw [hlen, List.length_drop]; omega), Cells.getElem?_overlay hfirst, List.length_take,
      List.length_drop]
    by_cases hlow : p + k < l.length
    · rw [if_pos hlow, if_neg (by omega), if_pos (by omega), if_pos (by omega), List.getElem?_take_of_lt (by omega),
        Nat.add_sub_cancel_left]
    · rw [if_neg hlow]
      by_cases hin : k < d.length
      · rw [if_pos (by omega), if_pos hin, List.getElem?_drop]
        congr 1
        omega
      · rw [if_neg (by omega), if_neg (by omega), if_neg hin]

theorem exists_slot {n p j : Nat} (hp : p < n) (hj : j < n) : ∃ k < n, j = slot n (p + k) := by
  by_cases h : p ≤ j
  · refine ⟨j - p, by omega, ?_⟩
    unfold slot
    rw [if_pos (by omega)]
    omega
  · refine ⟨j + n - p, by omega, ?_⟩
    unfold slot
    rw [if_neg (by omega)]
    omega

theorem get_put {p : Nat} (hp : p < l.length) (hd : d.length ≤ l.length) :
    get (put l p d) p d.length = d := by
  have hlen := put_length hp hd
  apply List.ext_getElem?
  intro i
  rw [getElem?_get (by omega), hlen]
  by_cases hi : i < d.length
  · rw [if_pos hi, getElem?_put hp hd (by omega), if_pos hi]
  · rw [if_neg hi, List.getElem?_eq_none (Nat.le_of_not_lt hi)]

/-- The `m` cells from the `k`-th after `p` on are none of those copied to. -/
theorem get_put_of_disjoint {p k m : Nat} (hp : p < l.length) (hd : d.length ≤ k)
    (hm : k + m ≤ l.length) : get (put l p d) (slot l.length (p + k)) m = get l (slot l.length (p + k)) m := by
  have hlen := put_length hp (show d.length ≤ l.length by omega)
  have hq := slot_lt hp (show k ≤ l.length by omega)
  apply List.ext_getElem?
  intro i
  rw [getElem?_get (by omega), getElem?_get hq, hlen]
  by_cases hi : i < m
  · rw [if_pos hi, if_pos hi, slot_slot hp (by omega), getElem?_put hp (by omega) (by omega), if_neg (by omega)]
  · rw [if_neg hi, if_neg hi]

theorem get_add {l : List α} {p k m : Nat} (hp : p < l.length) (hm : k + m ≤ l.length) :
    get l p (k + m) = get l p k ++ get l (slot l.length (p + k)) m := by
  have hq := slot_lt hp (show k ≤ l.length by omega)
  have hlen : (get l p k).length = k := get_length hp (by omega)
  apply List.ext_getElem?
  intro i
  rw [getElem?_get hp]
  by_cases hi : i < k
  · rw [List.getElem?_append_left (by omega), getElem?_get hp, if_pos (by omega), if_pos hi]
  · rw [List.getElem?_append_right (by omega), hlen, getElem?_get hq]
    by_cases hi' : i < k + m
    · rw [if_pos hi', if_pos (by omega), slot_slot hp (by omega), Nat.add_sub_cancel' (by omega)]
    · rw [if_neg hi', if_neg (by omega)]

theorem put_append {l d e : List α} {p : Nat} (hp : p < l.length) (he : (d ++ e).length ≤ l.length) :
    put (put l p d) (slot l.length (p + d.length)) e = put l p (d ++ e) := by
  rw [List.length_append] at he
  have hd : d.length ≤ l.length := by omega
  have hlen := put_length hp hd
  have hq := slot_lt hp hd
  apply List.ext_getElem?
  intro j
  by_cases hj : j < l.length
  · obtain ⟨k, hk, rfl⟩ := exists_slot hp hj
    have hwhole := getElem?_put (d := d ++ e) hp (by rw [List.length_append]; omega) hk
    rw [hwhole, List.length_append]
    by_cases hkd : k < d.length
    · -- a cell of the first copy lies past the second, on the other side of the ring
      obtain ⟨k', hk', hslot⟩ := exists_slot (p := slot l.length (p + d.length)) hq hj
      have hfar : e.length ≤ k' := by
        have hback : slot l.length (slot l.length (p + d.length) + (l.length - d.length + k)) = slot l.length (p + k) := by
          unfold slot
          split <;> split <;> split <;> omega
        have heq : k' = l.length - d.length + k := by
          rw [← hback] at hslot
          unfold slot at hslot
          split at hslot <;> split at hslot <;> split at hslot <;> omega
        omega
      have hsecond := getElem?_put (l := put l p d) (d := e) (p := slot l.length (p + d.length)) (by omega) (by omega)
        (show k' < (put l p d).length by omega)
      rw [hlen] at hsecond
      rw [hslot, hsecond, if_neg (by omega), ← hslot, getElem?_put hp hd hk, if_pos hkd, if_pos (by omega),
        List.getElem?_append_left hkd]
    · obtain ⟨k', rfl⟩ : ∃ k', k = d.length + k' := ⟨k - d.length, by omega⟩
      have hsecond := getElem?_put (l := put l p d) (d := e) (p := slot l.length (p + d.length)) (k := k')
        (by omega) (by omega) (by omega)
      rw [hlen, slot_slot hp (by omega)] at hsecond
      rw [hsecond]
      by_cases hke : k' < e.length
      · rw [if_pos hke, if_pos (by omega), List.getElem?_append_right (by omega), Nat.add_sub_cancel_left]
      · rw [if_neg hke, if_neg (by omega), getElem?_put hp hd hk, if_neg (by omega)]
  · have h1 := put_length (l := put l p d) (d := e) (p := slot l.length (p + d.length)) (by omega) (by omega)
    have h2 := put_length (d := d ++ e) hp (by rw [List.length_append]; omega)
    rw [List.getElem?_eq_none (by omega), List.getElem?_eq_none (by omega)]

end Ring
