import Mathlib.Data.List.GetD
import ZeroFrameworks.Core.Address
import ZeroFrameworks.Lib.AddressText

/-!
# IPv6 addresses as text (`IPv6Address::insert`, `core/io/address.cc`)

One pass over the groups: zeros are passed over until a group that is not zero comes after one, where the `::` is
written; from then on zeros are written as they are.  Zeros at the end get their `::` after the pass.

    the text between the brackets denotes the address, and no other   (insert_denotes)
-/

namespace Core.IPv6Address

open AddressText

/-! ## Algorithm -/

/-- `addr[i]`: two bytes of `s6_addr`, as a little-endian machine reads them. -/
def addr (a : IPv6Address) (i : Nat) : BitVec 16 := (a.byte (2 * i + 1)).toBitVec ++ (a.byte (2 * i)).toBitVec

/-- `bswap_16` -/
def byteswap16 (x : BitVec 16) : BitVec 16 := x.extractLsb' 0 8 ++ x.extractLsb' 8 8

/-- `std::hex << (int)byteswapOnLittleEndian(addr[i])` -/
def hexGroup (a : IPv6Address) (i : Nat) : List Char := Nat.toDigits 16 (byteswap16 (a.addr i)).toNat

/-- The body of the loop, on what has been written and `used_zeros`. -/
def insertGroup (a : IPv6Address) (s : List Char × Bool) (i : Nat) : List Char × Bool :=
  let (os, usedZeros) := s
  if a.addr i = 0 ∧ !usedZeros then (os, usedZeros)
  else
    let (os, usedZeros) := if i ≠ 0 ∧ a.addr (i - 1) = 0 ∧ !usedZeros then (os ++ [':'], true) else (os, usedZeros)
    let os := if i ≠ 0 then os ++ [':'] else os
    (os ++ a.hexGroup i, usedZeros)

/-- What is written between the brackets. -/
def insertGroups (a : IPv6Address) : List Char :=
  let (os, usedZeros) := (List.range 8).foldl a.insertGroup ([], false)
  if !usedZeros ∧ a.addr 7 = 0 then os ++ "::".toList else os

def insert (a : IPv6Address) : List Char :=
  "[".toList ++ a.insertGroups ++ "]:".toList ++ Nat.toDigits 10 (byteswap16 a.sin6Port).toNat

/-! ## Specification -/

/-- Group `i` of the address, with its first byte first. -/
def group (a : IPv6Address) (i : Nat) : Nat := 256 * (a.byte (2 * i)).toNat + (a.byte (2 * i + 1)).toNat

def groups (a : IPv6Address) (k : Nat) : List Nat := (List.range k).map a.group

/-- What has been written after `k` groups: they are all there, with the zeros at their end passed over, or with a
`::` for the first zeros among them. -/
inductive Written (a : IPv6Address) (k : Nat) : List Char × Bool → Prop
  | plain {before : List Nat} {n : Nat} :
      a.groups k = before ++ List.replicate n 0 → 0 ∉ before → Written a k (colons (before.map (Nat.toDigits 16)), false)
  | zeros {before after : List Nat} {n : Nat} :
      a.groups k = before ++ List.replicate n 0 ++ after → 1 ≤ n → after ≠ [] →
      Written a k (colons (before.map (Nat.toDigits 16)) ++ ':' :: ':' :: colons (after.map (Nat.toDigits 16)), true)

/-! ## Lemmas -/

theorem byteswap16_append (x y : BitVec 8) : byteswap16 (x ++ y) = y ++ x := by
  rw [byteswap16, BitVec.extractLsb'_append_eq_of_add_le (by omega), BitVec.extractLsb'_append_eq_of_le (by omega)]
  simp

theorem toNat_append (x y : BitVec 8) : (x ++ y).toNat = 256 * x.toNat + y.toNat := by
  rw [BitVec.toNat_append, ← Nat.shiftLeft_add_eq_or_of_lt y.isLt, Nat.shiftLeft_eq]
  omega

theorem toNat_byteswap16_addr (a : IPv6Address) (i : Nat) : (byteswap16 (a.addr i)).toNat = a.group i := by
  rw [addr, byteswap16_append, toNat_append]
  rfl

theorem hexGroup_eq (a : IPv6Address) (i : Nat) : a.hexGroup i = Nat.toDigits 16 (a.group i) := by
  rw [hexGroup, toNat_byteswap16_addr]

theorem group_lt (a : IPv6Address) (i : Nat) : a.group i < 65536 := by
  rw [← toNat_byteswap16_addr]
  exact (byteswap16 (a.addr i)).isLt

theorem addr_eq_zero_iff (a : IPv6Address) (i : Nat) : a.addr i = 0#16 ↔ a.group i = 0 := by
  rw [← BitVec.toNat_inj, addr, toNat_append]
  have hlo : (a.byte (2 * i)).toBitVec.toNat = (a.byte (2 * i)).toNat := rfl
  have hhi : (a.byte (2 * i + 1)).toBitVec.toNat = (a.byte (2 * i + 1)).toNat := rfl
  rw [hlo, hhi, group, BitVec.toNat_ofNat]
  omega

theorem groups_succ (a : IPv6Address) (k : Nat) : a.groups (k + 1) = a.groups k ++ [a.group k] := by
  rw [groups, List.range_succ, List.map_append]
  rfl

theorem group_eq_zero_iff {a : IPv6Address} {k n : Nat} {before : List Nat}
    (h : a.groups (k + 1) = before ++ List.replicate n 0) (hb : 0 ∉ before) : a.group k = 0 ↔ 1 ≤ n := by
  rw [groups_succ] at h
  cases n with
  | zero =>
      rw [List.replicate_zero, List.append_nil] at h
      constructor
      · intro hz
        rw [hz] at h
        exact absurd (by rw [← h]; simp) hb
      · intro hn
        omega
  | succ n =>
      rw [List.replicate_succ', ← List.append_assoc] at h
      obtain ⟨-, hlast⟩ := List.append_inj' h rfl
      simp [(List.cons.inj hlast).1]

theorem colons_map_concat {gs : List Nat} (h : gs ≠ []) (g : Nat) :
    colons ((gs ++ [g]).map (Nat.toDigits 16)) = colons (gs.map (Nat.toDigits 16)) ++ ':' :: Nat.toDigits 16 g := by
  rw [List.map_append, List.map_singleton, colons_concat (by simpa using h)]

section

variable {a : IPv6Address} {k : Nat} (os : List Char)

theorem insertGroup_zero (h : a.group k = 0) : a.insertGroup (os, false) k = (os, false) := by
  simp [insertGroup, addr_eq_zero_iff, h]

theorem insertGroup_first (h : a.group 0 ≠ 0) :
    a.insertGroup (os, false) 0 = (os ++ Nat.toDigits 16 (a.group 0), false) := by
  simp [insertGroup, addr_eq_zero_iff, h, hexGroup_eq]

theorem insertGroup_next (h : a.group (k + 1) ≠ 0) (hk : a.group k ≠ 0) :
    a.insertGroup (os, false) (k + 1) = (os ++ ':' :: Nat.toDigits 16 (a.group (k + 1)), false) := by
  simp [insertGroup, addr_eq_zero_iff, h, hk, hexGroup_eq]

theorem insertGroup_after_zeros (h : a.group (k + 1) ≠ 0) (hk : a.group k = 0) :
    a.insertGroup (os, false) (k + 1) = (os ++ ':' :: ':' :: Nat.toDigits 16 (a.group (k + 1)), true) := by
  simp [insertGroup, addr_eq_zero_iff, h, hk, hexGroup_eq]

theorem insertGroup_used :
    a.insertGroup (os, true) (k + 1) = (os ++ ':' :: Nat.toDigits 16 (a.group (k + 1)), true) := by
  simp [insertGroup, hexGroup_eq]

end

theorem Written.step {a : IPv6Address} {k : Nat} {s : List Char × Bool} (h : Written a k s) :
    Written a (k + 1) (a.insertGroup s k) := by
  cases h with
  | @plain before n hgs hb =>
      by_cases hz : a.group k = 0
      · rw [insertGroup_zero _ hz]
        refine @plain _ _ before (n + 1) ?_ hb
        rw [groups_succ, hgs, hz, List.append_assoc, List.replicate_succ']
      · cases k with
        | zero =>
            obtain ⟨rfl, -⟩ := List.append_eq_nil_iff.mp hgs.symm
            rw [insertGroup_first _ hz]
            have hone := @plain a 1 [a.group 0] 0 rfl (by simpa using Ne.symm hz)
            simpa using hone
        | succ k =>
            by_cases hk : a.group k = 0
            · -- the zeros before this group get their `::`
              rw [insertGroup_after_zeros _ hz hk]
              have hz' := @zeros a (k + 1 + 1) before [a.group (k + 1)] n (by rw [groups_succ, hgs])
                ((group_eq_zero_iff hgs hb).mp hk) (by simp)
              simpa using hz'
            · have hn : n = 0 := by
                by_contra hn
                exact hk ((group_eq_zero_iff hgs hb).mpr (by omega))
              subst hn
              rw [List.replicate_zero, List.append_nil] at hgs
              rw [insertGroup_next _ hz hk, ← colons_map_concat (by simp [← hgs, groups])]
              exact @plain _ _ _ 0 (by simp [groups_succ _ (k + 1), hgs]) (by simpa [hb] using Ne.symm hz)
  | @zeros before after n hgs hn hafter =>
      cases k with
      | zero => exact absurd (List.append_eq_nil_iff.mp hgs.symm).2 hafter
      | succ k =>
          rw [insertGroup_used, List.append_assoc, List.cons_append, List.cons_append, ← colons_map_concat hafter]
          exact zeros (by rw [groups_succ, hgs, List.append_assoc]) hn (by simp)

theorem written (a : IPv6Address) (k : Nat) : Written a k ((List.range k).foldl a.insertGroup ([], false)) := by
  induction k with
  | zero => exact @Written.plain _ _ [] 0 rfl (by simp)
  | succ k ih =>
      rw [List.range_succ, List.foldl_append]
      exact ih.step

theorem forall_hextet {a : IPv6Address} {gs : List Nat} (h : ∀ g ∈ gs, g ∈ a.groups 8) :
    List.Forall₂ Hextet (gs.map (Nat.toDigits 16)) gs := by
  rw [List.forall₂_map_left_iff, List.forall₂_same]
  intro g hg
  obtain ⟨i, -, rfl⟩ := List.mem_map.mp (h g hg)
  exact hextet_toDigits (a.group_lt i)

theorem denotes_insertGroups (a : IPv6Address) : Denotes a.insertGroups (a.groups 8) := by
  have hlen : (a.groups 8).length = 8 := by simp [groups]
  have hhex {gs : List Nat} (h : ∀ g ∈ gs, g ∈ a.groups 8) := forall_hextet h
  have h := a.written 8
  rw [insertGroups]
  generalize (List.range 8).foldl a.insertGroup ([], false) = s at h ⊢
  cases h with
  | @plain before n hgs hb =>
      have hbefore := @hhex before fun g hg => (by rw [hgs]; simp [hg])
      by_cases hz : a.group 7 = 0
      · -- the zeros at the end get their `::`
        have hn : 1 ≤ n := (group_eq_zero_iff hgs hb).mp hz
        have hend : Denotes (colons (before.map (Nat.toDigits 16)) ++ ':' :: ':' :: colons []) _ :=
          .zeros hbefore .nil hn (by simpa [hgs] using hlen)
        simpa [addr_eq_zero_iff, hz, hgs] using hend
      · have hn : n = 0 := by
          by_contra hn
          exact hz ((group_eq_zero_iff hgs hb).mpr (by omega))
        subst hn
        rw [List.replicate_zero, List.append_nil] at hgs
        simpa [addr_eq_zero_iff, hz, hgs] using Denotes.full hbefore (by rw [← hgs, hlen])
  | @zeros before after n hgs hn hafter =>
      have hbefore := @hhex before fun g hg => (by rw [hgs]; simp [hg])
      have hafter := @hhex after fun g hg => (by rw [hgs]; simp [hg])
      rw [hgs] at hlen ⊢
      exact .zeros hbefore hafter hn (by simpa [Nat.add_assoc] using hlen)

theorem s6Addr_eq {a b : IPv6Address} (h : a.groups 8 = b.groups 8) : a.s6Addr = b.s6Addr := by
  have hgroup : ∀ i < 8, a.group i = b.group i := by
    intro i hi
    exact (List.map_inj_left.mp h) i (List.mem_range.mpr hi)
  have hbyte : ∀ i < 16, a.byte i = b.byte i := by
    intro i hi
    have hg := hgroup (i / 2) (by omega)
    have h0 := (a.byte (2 * (i / 2) + 1)).toNat_lt
    have h1 := (b.byte (2 * (i / 2) + 1)).toNat_lt
    rw [group, group] at hg
    rw [← UInt8.toNat_inj]
    rcases Nat.mod_two_eq_zero_or_one i with hmod | hmod
    · rw [show i = 2 * (i / 2) by omega]
      omega
    · rw [show i = 2 * (i / 2) + 1 by omega]
      omega
  refine List.ext_getElem (by rw [a.length, b.length]) fun i ha hb => ?_
  have hi := hbyte i (by rw [← a.length]; exact ha)
  rwa [byte, byte, List.getD_eq_getElem _ _ ha, List.getD_eq_getElem _ _ hb] at hi

/-! ## Top theorem -/

theorem insert_denotes (a : IPv6Address) :
    ∃ text port, a.insert = '[' :: text ++ ']' :: ':' :: port ∧ Denotes text (a.groups 8) ∧
      (∀ x y x' y', text = x ++ ':' :: ':' :: y → text = x' ++ ':' :: ':' :: y' → x = x' ∧ y = y') ∧
      ∀ b : IPv6Address, Denotes text (b.groups 8) → b.s6Addr = a.s6Addr := by
  have h := a.denotes_insertGroups
  refine ⟨a.insertGroups, Nat.toDigits 10 (byteswap16 a.sin6Port).toNat, ?_, h, ?_, ?_⟩
  · rw [insert]
    simp
  · intro x y x' y' hx hx'
    exact h.once hx hx'
  · intro b hb
    exact s6Addr_eq (hb.unique h)

/-- `2001:db8::1`, with port 80. -/
example : String.ofList (insert { documentation with sin6Port := 0x5000 }) = "[2001:db8::1]:80" := by decide

end Core.IPv6Address
