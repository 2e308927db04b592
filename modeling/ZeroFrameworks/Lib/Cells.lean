import Mathlib.Algebra.Ring.Nat
import Mathlib.Data.List.Basic

/-!
# Memory as a list of cells

`overlay l p data` is a copy of `data` into the cells `l` from cell `p` on, and `window l p n` the `n` cells from
`p` on.  Memory can also be given as blocks of one size, of which each access stays within one.

    overlay (overlay l p d) (p + |d|) e = overlay l p (d ++ e)   (overlay_append)
    an access within block i at q is one of the whole memory at i * b + q   (flatten_set, window_block)
-/

namespace Cells

variable {α : Type}

/-! ## Algorithm -/

def overlay (l : List α) (p : Nat) (data : List α) : List α := l.take p ++ data ++ l.drop (p + data.length)

def window (l : List α) (p n : Nat) : List α := (l.drop p).take n

/-- Blocks of `b` cells. -/
def Uniform (b : Nat) (blocks : List (List α)) : Prop := ∀ c ∈ blocks, c.length = b

/-! ## Lemmas -/

theorem overlay_length {l data : List α} {p : Nat} (h : p + data.length ≤ l.length) :
    (overlay l p data).length = l.length := by
  unfold overlay
  rw [List.length_append, List.length_append, List.length_take, List.length_drop]
  omega

theorem overlay_nil (l : List α) (p : Nat) : overlay l p [] = l := by
  unfold overlay
  rw [List.append_nil, List.length_nil, Nat.add_zero, List.take_append_drop]

theorem getElem?_overlay {l data : List α} {p : Nat} (h : p + data.length ≤ l.length) (i : Nat) :
    (overlay l p data)[i]? = if p ≤ i ∧ i < p + data.length then data[i - p]? else l[i]? := by
  have hp : (l.take p).length = p := by
    rw [List.length_take]
    omega
  unfold overlay
  rw [List.append_assoc]
  by_cases h1 : i < p
  · rw [if_neg (by omega), List.getElem?_append_left (by omega), List.getElem?_take_of_lt h1]
  · rw [List.getElem?_append_right (by omega), hp]
    by_cases h2 : i < p + data.length
    · rw [if_pos ⟨by omega, h2⟩, List.getElem?_append_left (by omega)]
    · rw [if_neg (by omega), List.getElem?_append_right (by omega), List.getElem?_drop]
      congr 1
      omega

theorem getElem?_window {l : List α} {p n i : Nat} :
    (window l p n)[i]? = if i < n then l[p + i]? else none := by
  unfold window
  by_cases h : i < n
  · rw [if_pos h, List.getElem?_take_of_lt h, List.getElem?_drop]
  · rw [if_neg h, List.getElem?_take_eq_none (Nat.le_of_not_lt h)]

theorem window_length {l : List α} {p n : Nat} (h : p + n ≤ l.length) : (window l p n).length = n := by
  unfold window
  rw [List.length_take, List.length_drop]
  omega

/-- **Two copies**, one after the other, are one. -/
theorem overlay_append {l d e : List α} {p : Nat} (h : p + (d ++ e).length ≤ l.length) :
    overlay (overlay l p d) (p + d.length) e = overlay l p (d ++ e) := by
  rw [List.length_append] at h
  have hd : p + d.length ≤ l.length := by omega
  apply List.ext_getElem?
  intro i
  rw [getElem?_overlay (by rw [overlay_length hd]; omega), getElem?_overlay hd,
    getElem?_overlay (by rw [List.length_append]; omega), List.length_append]
  by_cases h1 : p ≤ i ∧ i < p + d.length
  · rw [if_neg (by omega), if_pos h1, if_pos (by omega), List.getElem?_append_left (by omega)]
  · by_cases h2 : p + d.length ≤ i ∧ i < p + d.length + e.length
    · rw [if_pos h2, if_pos (by omega), List.getElem?_append_right (by omega)]
      congr 1
      omega
    · rw [if_neg h2, if_neg h1, if_neg (by omega)]

/-- The first cells after a copy that begins within them. -/
theorem take_overlay {l d : List α} {p n : Nat} (hp : p ≤ n) (hn : n ≤ l.length) :
    (overlay l p d).take (max n (p + d.length)) = overlay (l.take n) p d := by
  have htake : (l.take p).length = p := by
    rw [List.length_take]
    omega
  have hmax : max n (p + d.length) = (l.take p ++ d).length + (n - (p + d.length)) := by
    rw [List.length_append, htake]
    omega
  unfold overlay
  rw [hmax, List.take_length_add_append, List.take_take, Nat.min_eq_left hp, List.drop_take]

theorem window_add (l : List α) (p m n : Nat) : window l p (m + n) = window l p m ++ window l (p + m) n := by
  unfold window
  rw [List.take_add, List.drop_drop]

/-! ### Blocks -/

theorem overlay_middle {a c z d : List α} {q : Nat} (h : q + d.length ≤ c.length) :
    overlay (a ++ (c ++ z)) (a.length + q) d = a ++ (overlay c q d ++ z) := by
  unfold overlay
  rw [List.take_length_add_append, Nat.add_assoc, List.drop_length_add_append, List.take_append_of_le_length (by omega),
    List.drop_append_of_le_length h]
  simp only [List.append_assoc]

theorem window_middle {a c z : List α} {q n : Nat} (h : q + n ≤ c.length) :
    window (a ++ (c ++ z)) (a.length + q) n = window c q n := by
  unfold window
  rw [List.drop_length_add_append, List.drop_append_of_le_length (by omega), List.take_append_of_le_length]
  rw [List.length_drop]
  omega

namespace Uniform

variable {b : Nat} {blocks : List (List α)}

theorem flatten_length (h : Uniform b blocks) : blocks.flatten.length = blocks.length * b := by
  induction blocks with
  | nil => rw [List.flatten_nil, List.length_nil, List.length_nil, Nat.zero_mul]
  | cons c blocks ih =>
    rw [List.flatten_cons, List.length_append, h c List.mem_cons_self,
      ih fun x hx => h x (List.mem_cons_of_mem _ hx), List.length_cons, Nat.succ_mul, Nat.add_comm]

variable {c : List α}

theorem getElem?_length (h : Uniform b blocks) {i : Nat} (hc : blocks[i]? = some c) : c.length = b :=
  h c (List.mem_of_getElem? hc)

theorem split (h : Uniform b blocks) {i : Nat} (hc : blocks[i]? = some c) :
    blocks.flatten = (blocks.take i).flatten ++ (c ++ (blocks.drop (i + 1)).flatten) ∧
      (blocks.take i).flatten.length = i * b := by
  obtain ⟨hi, hget⟩ := List.getElem?_eq_some_iff.mp hc
  constructor
  · rw [← List.flatten_cons, ← List.flatten_append, ← hget, List.getElem_cons_drop, List.take_append_drop]
  · have htake : Uniform b (blocks.take i) := fun x hx => h x (List.mem_of_mem_take hx)
    rw [htake.flatten_length, List.length_take, Nat.min_eq_left (Nat.le_of_lt hi)]

theorem set (h : Uniform b blocks) (hc : c.length = b) (i : Nat) : Uniform b (blocks.set i c) := by
  intro x hx
  obtain hx | rfl := List.mem_or_eq_of_mem_set hx
  · exact h x hx
  · exact hc

/-- **A copy into a block**. -/
theorem flatten_set (h : Uniform b blocks) {i q : Nat} {c d : List α} (hc : blocks[i]? = some c)
    (hd : q + d.length ≤ b) : (blocks.set i (overlay c q d)).flatten = overlay blocks.flatten (i * b + q) d := by
  obtain ⟨hi, -⟩ := List.getElem?_eq_some_iff.mp hc
  obtain ⟨hsplit, hlen⟩ := h.split hc
  have hcl := h.getElem?_length hc
  rw [hsplit, ← hlen, overlay_middle (by omega), List.set_eq_take_append_cons_drop, if_pos hi, List.flatten_append,
    List.flatten_cons]

/-- **A look at a block**. -/
theorem window_block (h : Uniform b blocks) {i q n : Nat} (hc : blocks[i]? = some c) (hn : q + n ≤ b) :
    window blocks.flatten (i * b + q) n = window c q n := by
  obtain ⟨hsplit, hlen⟩ := h.split hc
  have hcl := h.getElem?_length hc
  rw [hsplit, ← hlen, window_middle (by omega)]

end Uniform

end Cells
