import ZeroFrameworks.Kv.Bytes

/-!
# Streams

A stream gives what arrives in pieces, and takes what is written.  `readFixSize` reads until it has as much as it
was asked for, and returns that size as an `int`.

    s.Holds (x ++ rest) → s.readFixSize x.length = some (x, s') with s'.Holds rest   (readFixSize_spec)
-/

namespace Core

open Kv (Bytes)

/-! ## Algorithm -/

/-- `input` are the pieces in which the bytes arrive, and `output` is what was written. -/
structure Stream where
  input : List Bytes
  output : Bytes
  closed : Bool

namespace Stream

/-- `read`; `none` where it returns zero or an error. -/
def read (n : Nat) (s : Stream) : Option (Bytes × Stream) :=
  if s.closed then none
  else
    match s.input with
    | [] => none
    | piece :: rest =>
      if (piece.take n).isEmpty then none
      else some (piece.take n, { s with input := if n < piece.length then piece.drop n :: rest else rest })

/-- The loop of `readFixSize`.  Every turn reads a byte at least, so `left` turns are enough. -/
def readLoop : Nat → Nat → Bytes → Stream → Option (Bytes × Stream)
  | _, 0, buffer, s => some (buffer, s)
  | 0, _ + 1, _, _ => none
  | fuel + 1, left + 1, buffer, s =>
    match s.read (left + 1) with
    | none => none
    | some (got, s) => readLoop fuel (left + 1 - got.length) (buffer ++ got) s

/-- `none` where the returned value is not positive: the read has failed, or the length is not positive as an `int`. -/
def readFixSize (length : Nat) (s : Stream) : Option (Bytes × Stream) :=
  match readLoop length length [] s with
  | none => none
  | some r => if 0 < Kv.i32 length then some r else none

/-- As above.  What is written is taken. -/
def writeFixSize (data : Bytes) (s : Stream) : Option Stream :=
  if s.closed then none
  else if 0 < Kv.i32 data.length then some { s with output := s.output ++ data }
  else none

/-! ## Specification -/

/-- The bytes that are still to come. -/
structure Holds (s : Stream) (bytes : Bytes) : Prop where
  up : s.closed = false
  pieces : ∀ piece ∈ s.input, piece ≠ []
  bytes : s.input.flatten = bytes

/-- The pieces without their first `n` bytes. -/
def dropBytes : Nat → List Bytes → List Bytes
  | _, [] => []
  | n, piece :: rest => if n < piece.length then piece.drop n :: rest else dropBytes (n - piece.length) rest

/-- The stream without the first `n` bytes that are to come. -/
def skip (n : Nat) (s : Stream) : Stream := { s with input := dropBytes n s.input }

/-- `kept` and what comes make up `units` and `left`.  It comes in reads that end between two units, up to the last one.
`room c` is what is asked for after `c` bytes. -/
inductive Arrives (room : Nat → Nat) : Bytes → List Bytes → Nat → Stream → Bytes → Stream → Prop
  | last {kept : Bytes} {units : List Bytes} {c : Nat} {s s' : Stream} {got left : Bytes} :
      s.read (room c) = some (got, s') → kept ++ got = units.flatten ++ left → Arrives room kept units c s left s'
  | more {kept : Bytes} {units units' : List Bytes} {c : Nat} {s s1 s' : Stream} {got left : Bytes} :
      s.read (room c) = some (got, s1) → kept ++ got = units.flatten → units' ≠ [] →
        Arrives room [] units' (c + got.length) s1 left s' → Arrives room kept (units ++ units') c s left s'

/-! ## Lemmas -/

variable {s s' : Stream} {n : Nat}

theorem read_spec {bytes : Bytes} (h : s.Holds bytes) (hn : 0 < n) (hbytes : bytes ≠ []) :
    ∃ got later s', s.read n = some (got, s') ∧ bytes = got ++ later ∧ got ≠ [] ∧ got.length ≤ n ∧ s'.Holds later ∧
      s'.output = s.output := by
  obtain ⟨hup, hpieces, rfl⟩ := h
  unfold read
  rw [hup]
  cases hinput : s.input with
  | nil =>
    rw [hinput] at hbytes
    exact absurd rfl hbytes
  | cons piece rest =>
    rw [hinput] at hpieces
    have hpiece := hpieces piece List.mem_cons_self
    have hrest : ∀ p ∈ rest, p ≠ [] := fun p hp => hpieces p (List.mem_cons_of_mem _ hp)
    have hgot : piece.take n ≠ [] := by
      intro htake
      rcases List.take_eq_nil_iff.mp htake with h | h
      · omega
      · exact hpiece h
    have hempty : (piece.take n).isEmpty = false := by simpa using hgot
    simp only [Bool.false_eq_true, if_false, hempty]
    rw [List.flatten_cons]
    by_cases hlt : n < piece.length
    · refine ⟨piece.take n, piece.drop n ++ rest.flatten, _, rfl, ?_, hgot, List.length_take_le .., ⟨rfl, ?_, ?_⟩, rfl⟩
      · rw [← List.append_assoc, List.take_append_drop]
      · show ∀ p ∈ (if n < piece.length then piece.drop n :: rest else rest), p ≠ []
        rw [if_pos hlt]
        intro p hp
        rcases List.mem_cons.mp hp with rfl | hp
        · intro hnil
          have := List.drop_eq_nil_iff.mp hnil
          omega
        · exact hrest p hp
      · show (if n < piece.length then piece.drop n :: rest else rest).flatten = _
        rw [if_pos hlt, List.flatten_cons]
    · have hall : piece.take n = piece := List.take_of_length_le (Nat.le_of_not_lt hlt)
      refine ⟨piece.take n, rest.flatten, _, rfl, by rw [hall], hgot, List.length_take_le .., ⟨rfl, ?_, ?_⟩, rfl⟩
      · show ∀ p ∈ (if n < piece.length then piece.drop n :: rest else rest), p ≠ []
        rw [if_neg hlt]
        exact hrest
      · show (if n < piece.length then piece.drop n :: rest else rest).flatten = _
        rw [if_neg hlt]

theorem read_length_le {got : Bytes} (h : s.read n = some (got, s')) : got.length ≤ n := by
  unfold read at h
  split at h
  · cases h
  · split at h
    · cases h
    · split at h
      · cases h
      · cases h
        exact List.length_take_le ..

variable {pieces : List Bytes}

theorem dropBytes_zero (h : ∀ piece ∈ pieces, piece ≠ []) : dropBytes 0 pieces = pieces := by
  cases pieces with
  | nil => rfl
  | cons piece rest =>
    have hpos := List.length_pos_iff.mpr (h piece List.mem_cons_self)
    rw [dropBytes, if_pos hpos]
    rfl

theorem dropBytes_ne_nil (h : ∀ piece ∈ pieces, piece ≠ []) :
    ∀ piece ∈ dropBytes n pieces, piece ≠ [] := by
  induction pieces generalizing n with
  | nil => exact h
  | cons piece rest ih =>
    have hrest : ∀ p ∈ rest, p ≠ [] := fun p hp => h p (List.mem_cons_of_mem _ hp)
    rw [dropBytes]
    split
    next hlt =>
      intro p hp
      rcases List.mem_cons.mp hp with rfl | hp
      · intro hnil
        have := List.drop_eq_nil_iff.mp hnil
        omega
      · exact hrest p hp
    next => exact ih hrest

theorem dropBytes_dropBytes (h : ∀ piece ∈ pieces, piece ≠ []) (m n : Nat) :
    dropBytes n (dropBytes m pieces) = dropBytes (m + n) pieces := by
  induction pieces generalizing m with
  | nil => rfl
  | cons piece rest ih =>
    have hrest : ∀ p ∈ rest, p ≠ [] := fun p hp => h p (List.mem_cons_of_mem _ hp)
    rw [dropBytes, dropBytes]
    by_cases hm : m < piece.length
    · rw [if_pos hm, dropBytes, List.length_drop, List.drop_drop]
      by_cases hn : m + n < piece.length
      · rw [if_pos hn, if_pos (by omega)]
      · rw [if_neg hn, if_neg (by omega), show n - (piece.length - m) = m + n - piece.length by omega]
    · rw [if_neg hm, if_neg (by omega), ih hrest, show m - piece.length + n = m + n - piece.length by omega]

theorem flatten_dropBytes (n : Nat) (pieces : List Bytes) : (dropBytes n pieces).flatten = pieces.flatten.drop n := by
  induction pieces generalizing n with
  | nil => exact List.drop_nil.symm
  | cons piece rest ih =>
    rw [dropBytes, List.flatten_cons, List.drop_append]
    split
    next hlt =>
      rw [List.flatten_cons, show n - piece.length = 0 by omega]
      rfl
    next hge => rw [ih, List.drop_of_length_le (Nat.le_of_not_lt hge), List.nil_append]

theorem skip_skip (h : ∀ piece ∈ s.input, piece ≠ []) (m n : Nat) : (s.skip m).skip n = s.skip (m + n) := by
  unfold skip
  rw [dropBytes_dropBytes h]

theorem skip_zero (h : ∀ piece ∈ s.input, piece ≠ []) : s.skip 0 = s := by
  unfold skip
  rw [dropBytes_zero h]

theorem Holds.skip {bytes : Bytes} (h : s.Holds bytes) (n : Nat) : (s.skip n).Holds (bytes.drop n) := by
  refine ⟨h.up, dropBytes_ne_nil h.pieces, ?_⟩
  rw [← h.bytes]
  exact flatten_dropBytes n s.input

theorem read_skip {got : Bytes} (h : ∀ piece ∈ s.input, piece ≠ []) (hread : s.read n = some (got, s')) :
    s' = s.skip got.length := by
  unfold read at hread
  split at hread
  · cases hread
  · split at hread
    · cases hread
    · next piece rest hinput =>
      rw [hinput] at h
      have hrest : ∀ p ∈ rest, p ≠ [] := fun p hp => h p (List.mem_cons_of_mem _ hp)
      split at hread
      · cases hread
      · cases hread
        unfold skip
        rw [hinput, dropBytes, List.length_take]
        by_cases hn : n < piece.length
        · rw [if_pos hn, Nat.min_eq_left (Nat.le_of_lt hn), if_pos hn]
        · rw [if_neg hn, Nat.min_eq_right (Nat.le_of_not_lt hn), if_neg (Nat.lt_irrefl _), Nat.sub_self,
            dropBytes_zero hrest]

theorem read_holds {got bytes : Bytes} (h : s.Holds bytes) (hread : s.read n = some (got, s')) :
    ∃ later, bytes = got ++ later ∧ got ≠ [] ∧ got.length ≤ n ∧ s'.Holds later := by
  have hskip := read_skip h.pieces hread
  have hgot : got ≠ [] ∧ got.length ≤ n ∧ got <+: bytes := by
    rw [← h.bytes]
    unfold read at hread
    split at hread
    · cases hread
    · split at hread
      · cases hread
      · next piece rest hinput =>
        split at hread
        · cases hread
        · next hempty =>
          cases hread
          rw [hinput, List.flatten_cons]
          exact ⟨by simpa using hempty, List.length_take_le .., (List.take_prefix n piece).trans (List.prefix_append piece _)⟩
  obtain ⟨hne, hlength, later, rfl⟩ := hgot
  refine ⟨later, rfl, hne, hlength, ?_⟩
  have hholds := h.skip got.length
  rwa [List.drop_left, ← hskip] at hholds

theorem Arrives.holds {room : Nat → Nat} {kept left : Bytes} {units : List Bytes} {c : Nat}
    (ha : Arrives room kept units c s left s') {bytes tail : Bytes} (h : s.Holds bytes)
    (hbytes : kept ++ bytes = units.flatten ++ tail) : ∃ later, s'.Holds later ∧ left ++ later = tail := by
  induction ha generalizing bytes with
  | last hread hgot =>
    obtain ⟨later, rfl, -, -, hlater⟩ := read_holds h hread
    refine ⟨later, hlater, ?_⟩
    rw [← List.append_assoc, hgot, List.append_assoc] at hbytes
    exact List.append_cancel_left hbytes
  | more hread hgot _ _ ih =>
    obtain ⟨later, rfl, -, -, hlater⟩ := read_holds h hread
    rw [← List.append_assoc, hgot, List.flatten_append, List.append_assoc] at hbytes
    exact ih hlater (List.append_cancel_left hbytes)

/-- What was read is the front of what is expected. -/
theorem split_of_append_eq {x rest got later : Bytes} (h : x ++ rest = got ++ later) (hle : got.length ≤ x.length) :
    ∃ y, x = got ++ y ∧ later = y ++ rest := by
  obtain ⟨y, rfl⟩ := List.prefix_of_prefix_length_le (List.prefix_append got later) (h ▸ List.prefix_append x rest) hle
  rw [List.append_assoc] at h
  exact ⟨y, rfl, (List.append_cancel_left h).symm⟩

variable {x rest : Bytes}

theorem readLoop_spec (fuel : Nat) (h : s.Holds (x ++ rest)) (hfuel : x.length ≤ fuel) (buffer : Bytes) :
    ∃ s', readLoop fuel x.length buffer s = some (buffer ++ x, s') ∧ s'.Holds rest ∧ s'.output = s.output := by
  induction fuel generalizing s x buffer with
  | zero =>
    obtain rfl := List.eq_nil_of_length_eq_zero (Nat.le_zero.mp hfuel)
    exact ⟨s, by rw [List.append_nil]; rfl, h, rfl⟩
  | succ fuel ih =>
    cases hx : x with
    | nil =>
      subst hx
      exact ⟨s, by rw [List.append_nil]; rfl, h, rfl⟩
    | cons b tail =>
      have hne : x ++ rest ≠ [] := by
        rw [hx]
        exact List.cons_ne_nil _ _
      obtain ⟨got, later, s1, hread, heq, hgot, hlen, hholds, hout⟩ := read_spec (n := x.length) h (by rw [hx]; simp) hne
      obtain ⟨y, rfl, rfl⟩ := split_of_append_eq heq hlen
      have hpos := List.length_pos_iff.mpr hgot
      rw [← hx]
      have hlength : (got ++ y).length = (got ++ y).length - 1 + 1 := by
        rw [List.length_append]
        omega
      have hleft : (got ++ y).length - got.length = y.length := by
        rw [List.length_append]
        omega
      obtain ⟨s2, hloop, hholds2, hout2⟩ := ih hholds (by rw [List.length_append] at hfuel; omega) (buffer ++ got)
      refine ⟨s2, ?_, hholds2, hout2.trans hout⟩
      rw [hlength, readLoop, ← hlength, hread]
      show readLoop fuel ((got ++ y).length - got.length) (buffer ++ got) s1 = _
      rw [hleft, hloop, List.append_assoc]

theorem i32_pos (hpos : 0 < n) (hlt : n < 2 ^ 31) : 0 < Kv.i32 (n : Int) := by
  rw [Kv.i32_natCast hlt]
  exact Int.natCast_pos.mpr hpos

theorem i32_nonpos (hlo : 2 ^ 31 ≤ n) (hhi : n < 2 ^ 32) : ¬ 0 < Kv.i32 (n : Int) := by
  unfold Kv.i32
  rw [Int.bmod_def]
  omega

theorem readFixSize_holds (h : s.Holds (x ++ rest)) :
    ∃ s', s'.Holds rest ∧ s.readFixSize x.length = if 0 < Kv.i32 x.length then some (x, s') else none := by
  obtain ⟨s', hloop, hholds, -⟩ := readLoop_spec x.length h (Nat.le_refl _) []
  refine ⟨s', hholds, ?_⟩
  unfold readFixSize
  rw [hloop]
  rfl

theorem readFixSize_spec (h : s.Holds (x ++ rest)) (hx : x ≠ []) (hlt : x.length < 2 ^ 31) :
    ∃ s', s.readFixSize x.length = some (x, s') ∧ s'.Holds rest ∧ s'.output = s.output := by
  obtain ⟨s', hloop, hholds, hout⟩ := readLoop_spec x.length h (Nat.le_refl _) []
  refine ⟨s', ?_, hholds, hout⟩
  unfold readFixSize
  rw [hloop]
  exact if_pos (i32_pos (List.length_pos_iff.mpr hx) hlt)

theorem writeFixSize_spec {data : Bytes} (hup : s.closed = false) (hdata : data ≠ []) (hlt : data.length < 2 ^ 31) :
    s.writeFixSize data = some { s with output := s.output ++ data } := by
  unfold writeFixSize
  rw [if_neg (by rw [hup]; exact Bool.false_ne_true), if_pos (i32_pos (List.length_pos_iff.mpr hdata) hlt)]

theorem writeFixSize_large {data : Bytes} (hlo : 2 ^ 31 ≤ data.length) (hhi : data.length < 2 ^ 32) :
    s.writeFixSize data = none := by
  unfold writeFixSize
  rw [if_neg (i32_nonpos hlo hhi), ite_self]

end Stream

end Core
